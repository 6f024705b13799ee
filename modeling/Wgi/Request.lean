import Wgi.Http

/-!
# HTTP Requests

A request as the handlers receive it. The body is a stream: the HTTP layer delivers it in
data frames, whose boundaries depend on the connection, and may end it with an error.
-/

namespace Wgi

/-- `http::Version`. -/
inductive Version where
  | http09
  | http10
  | http11
  | http2
  | http3
  /-- Versions the `http` crate may add. -/
  | other
  deriving DecidableEq, Repr

/-- `http::Uri`, as far as the handlers look at it. -/
structure Uri where
  path : Str
  query : Option Str
  deriving DecidableEq, Repr

/-- What the HTTP layer delivers at a time: a chunk of data, or an error. -/
abbrev Frame := Except Str Bytes

/-- `Request<Body>`: the frames of the body are those still to be delivered. -/
structure Request (http : Http) where
  method : Str
  uri : Uri
  version : Version
  headers : http.HeaderMap
  body : List Frame

/-- `hyper::body::to_bytes`, which reads a body to its end. -/
structure Hyper where
  toBytes : List Frame → Except Str Bytes
  /-- The data chunks of a body are concatenated, -/
  toBytes_chunks : ∀ chunks : List Bytes, toBytes (chunks.map .ok) = .ok chunks.flatten
  /-- and its first error ends the reading. -/
  toBytes_error : ∀ (chunks : List Bytes) (err : Str) (rest : List Frame),
    toBytes (chunks.map .ok ++ .error err :: rest) = .error err

namespace Hyper

/-- Reading frame by frame. -/
def readAll : List Frame → Except Str Bytes
  | [] => .ok []
  | .error err :: _ => .error err
  | .ok chunk :: frames =>
      match readAll frames with
      | .ok bytes => .ok (chunk ++ bytes)
      | .error err => .error err

/-- Reading frame by frame concatenates the chunks and stops at an error. -/
def reference : Hyper where
  toBytes := readAll
  toBytes_chunks chunks := by
    induction chunks with
    | nil => rfl
    | cons chunk chunks ih =>
        rw [List.map_cons, readAll, ih]
        rfl
  toBytes_error chunks err rest := by
    induction chunks with
    | nil => rfl
    | cons chunk chunks ih => rw [List.map_cons, List.cons_append, readAll, ih]

end Hyper

end Wgi
