import Wgi.Fallible

/-!
# Bytes, Strings, Errors and Panics

The types every other module of the model shares. A byte buffer (`Vec<u8>`, `&[u8]`) is a
list of bytes. A `str` is the list of its characters; `Utf8.encode` gives its bytes.

A Rust function that can panic returns `Except Panic`: the panic unwinds to the caller of
the handler, so no statement after it runs. `Panic` names the call that panicked, so that
two panics of one function stay distinguishable.
-/

namespace Wgi

/-- A byte buffer: `Vec<u8>`, `Bytes` or `&[u8]`. -/
abbrev Bytes := List UInt8

/-- A string slice or an owned string: the list of its characters. -/
abbrev Str := List Char

/-- The kind of an `io::Error`. The server itself only builds errors of kind `Other`; the
ones it receives carry the error code of the operating system. -/
inductive ErrorKind where
  | other
  | os (code : Int)
  deriving DecidableEq, Repr

/-- An `io::Error`: its kind and its message. -/
structure IoError where
  kind : ErrorKind
  message : String
  deriving DecidableEq, Repr

/-- The places at which the server unwraps a value that may be absent. -/
inductive UnwrapSite where
  /-- A `&path[..i]` or `&path[i..]` that is not on a character boundary. -/
  | strSlice
  /-- `value.parse::<StatusCode>().unwrap()`. -/
  | statusCode
  /-- `HeaderName::from_str(key).unwrap()` or `HeaderName::from_bytes(..).unwrap()`. -/
  | headerName
  /-- `HeaderValue::from_str(value).unwrap()` or `HeaderValue::from_bytes(..).unwrap()`. -/
  | headerValue
  /-- `value.to_str().unwrap()`. -/
  | headerToStr
  /-- `builder.headers_mut().unwrap()`. -/
  | headersMut
  /-- `base64::decode(&body).unwrap()`. -/
  | base64Decode
  /-- `serde_urlencoded::from_str(query).unwrap()`. -/
  | queryDecode
  /-- `env::current_dir().unwrap()`. -/
  | currentDir
  /-- `into_string().unwrap()` of the current directory. -/
  | currentDirString
  /-- `data().await.transpose().unwrap()`, or `to_bytes(body).await.unwrap()`. -/
  | requestBody
  /-- `buf.deref(memory, 0, buf_len).unwrap()`. -/
  | guestBuffer
  /-- `state.request.len().try_into().unwrap()`. -/
  | eventSize
  /-- `run_cgi(..).unwrap()` or `run_lamba(..).unwrap()`. -/
  | guestRun
  /-- `response.unwrap()` after a guest that sent no response. -/
  | noResponse
  deriving DecidableEq, Repr

/-- A panic: an `unwrap` of nothing, an `expect` with its message, or a `panic!`. -/
inductive Panic where
  | unwrap (site : UnwrapSite)
  | expect (message : String)
  | failedToLoadFile (err : IoError)
  deriving DecidableEq, Repr

/-- `unwrap` of an optional value, or of a result whose error is not looked at. -/
def unwrapAt {α : Type*} (site : UnwrapSite) : Option α → Except Panic α
  | some a => .ok a
  | none => .error (.unwrap site)

@[simp] theorem unwrapAt_some {α : Type*} (site : UnwrapSite) (a : α) :
    unwrapAt site (some a) = .ok a := rfl

@[simp] theorem unwrapAt_none {α : Type*} (site : UnwrapSite) :
    unwrapAt site (none : Option α) = .error (.unwrap site) := rfl

/-- An `unwrap` returns exactly on a value that is present. -/
theorem unwrapAt_eq_ok_iff {α : Type*} {site : UnwrapSite} {o : Option α} {a : α} :
    unwrapAt site o = .ok a ↔ o = some a := by
  cases o <;> simp

end Wgi
