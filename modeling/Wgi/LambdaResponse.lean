import Wgi.Base64
import Wgi.HashMap
import Wgi.Http

/-!
# The Response of a Lambda Guest

A lambda guest sends its response as JSON. Deserialized, it is a `LambdaResponse`: any
16-bit status code, any strings as header names and values, and a body that is text or,
when flagged, the base64 form of bytes. Only the conversion into an HTTP response checks
these, and it unwraps every check.

## Main results

* `appendHeaders_eq_ok_iff`: the two nested loops over the headers append the parsed pairs
  in the order of enumeration, and return exactly when every pair parses.
* `intoResponse_eq_ok_iff`: what a successful conversion returns.
* `exists_intoResponse_iff`: exactly which responses can be converted.
-/

namespace Wgi

open Fallible

/-- `LambdaResponse`. -/
structure LambdaResponse where
  statusCode : UInt16
  headers : HashMap Str (List Str)
  body : Option Str
  isBase64Encoded : Bool

/-- `Response<Body>`. -/
structure Response (http : Http) where
  status : http.StatusCode
  headers : http.HeaderMap
  body : Bytes

section Convert

variable (http : Http) (base64 : Base64.Codec)

/-- The body of the inner loop: parse the key and the value, and append them. -/
def appendHeader (key : Str) (headers : http.HeaderMap) (value : Str) :
    Except Panic http.HeaderMap := do
  let name ← unwrapAt .headerName (http.nameFromBytes (Utf8.encode key))
  let value ← unwrapAt .headerValue (http.valueFromBytes (Utf8.encode value))
  pure (http.append headers name value)

/-- The body of the outer loop: the inner loop over the values under one key. -/
def appendValues (headers : http.HeaderMap) (entry : Str × List Str) :
    Except Panic http.HeaderMap :=
  entry.2.foldlM (appendHeader http entry.1) headers

/-- The body of the HTTP response: decoded when it is flagged as base64. -/
def LambdaResponse.bodyBytes (response : LambdaResponse) : Except Panic Bytes :=
  match response.body with
  | none => pure []
  | some body =>
      if response.isBase64Encoded then unwrapAt .base64Decode (base64.decode body)
      else pure (Utf8.encode body)

/-- `From<LambdaResponse> for Response<Body>`. A status code out of range puts the builder
into its error state, and `headers_mut` then returns nothing. -/
def LambdaResponse.intoResponse (response : LambdaResponse) : Except Panic (Response http) := do
  let status ← unwrapAt .headersMut (http.statusFromU16 response.statusCode)
  let headers ← response.headers.enumerate.foldlM (appendValues http) http.emptyMap
  let body ← response.bodyBytes base64
  pure ⟨status, headers, body⟩

end Convert

/-! ### The headers -/

section Headers

variable (http : Http)

/-- A key and a value that the `http` crate accepts, and what it makes of them. -/
def ParsesTo (p : Str × Str) (q : http.HeaderName × http.HeaderValue) : Prop :=
  http.nameFromBytes (Utf8.encode p.1) = some q.1 ∧
    http.valueFromBytes (Utf8.encode p.2) = some q.2

variable {http}

theorem appendHeader_eq_ok_iff {key value : Str} {m m' : http.HeaderMap} :
    appendHeader http key m value = .ok m' ↔
      ∃ q, ParsesTo http (key, value) q ∧ m' = http.append m q.1 q.2 := by
  rw [appendHeader, bind_eq_ok_iff]
  constructor
  · rintro ⟨name, hname, h⟩
    obtain ⟨v, hv, hm⟩ := bind_eq_ok_iff.mp h
    exact ⟨(name, v), ⟨unwrapAt_eq_ok_iff.mp hname, unwrapAt_eq_ok_iff.mp hv⟩,
      (Except.ok.inj hm).symm⟩
  · rintro ⟨q, ⟨hname, hv⟩, rfl⟩
    exact ⟨q.1, unwrapAt_eq_ok_iff.mpr hname,
      bind_eq_ok_iff.mpr ⟨q.2, unwrapAt_eq_ok_iff.mpr hv, rfl⟩⟩

/-- The nested loops are one loop over the pairs. -/
theorem foldlM_appendValues (entries : List (Str × List Str)) (m : http.HeaderMap) :
    entries.foldlM (appendValues http) m =
      (Grouping.ungroup entries).foldlM (fun m p => appendHeader http p.1 m p.2) m := by
  induction entries generalizing m with
  | nil => rfl
  | cons entry entries ih =>
      rw [List.foldlM_cons, Grouping.ungroup_cons, List.foldlM_append, appendValues,
        List.foldlM_map]
      exact bind_congr ih

/-- **The two loops**: they return exactly when every pair parses, and have then appended
the parsed pairs in the order of enumeration. -/
theorem appendHeaders_eq_ok_iff {entries : List (Str × List Str)} {m m' : http.HeaderMap} :
    entries.foldlM (appendValues http) m = .ok m' ↔
      ∃ ps, List.Forall₂ (ParsesTo http) (Grouping.ungroup entries) ps ∧
        m' = http.appendPairs m ps := by
  rw [foldlM_appendValues]
  induction Grouping.ungroup entries generalizing m with
  | nil =>
      constructor
      · intro h
        exact ⟨[], .nil, (Except.ok.inj h).symm⟩
      · rintro ⟨ps, hps, rfl⟩
        rw [List.forall₂_nil_left_iff] at hps
        subst hps
        rfl
  | cons p pairs ih =>
      rw [List.foldlM_cons, bind_eq_ok_iff]
      constructor
      · rintro ⟨m₁, h₁, h⟩
        obtain ⟨q, hq, rfl⟩ := appendHeader_eq_ok_iff.mp h₁
        obtain ⟨ps, hps, rfl⟩ := ih.mp h
        exact ⟨q :: ps, .cons hq hps, rfl⟩
      · rintro ⟨ps, hps, rfl⟩
        obtain ⟨q, qs, hq, hqs, rfl⟩ := List.forall₂_cons_left_iff.mp hps
        exact ⟨_, appendHeader_eq_ok_iff.mpr ⟨q, hq, rfl⟩, ih.mpr ⟨qs, hqs, rfl⟩⟩

/-- Every pair parses exactly when there are pairs they parse to. -/
theorem exists_parsesTo_iff {pairs : List (Str × Str)} :
    (∃ ps, List.Forall₂ (ParsesTo http) pairs ps) ↔
      ∀ p ∈ pairs, (http.nameFromBytes (Utf8.encode p.1)).isSome ∧
        (http.valueFromBytes (Utf8.encode p.2)).isSome := by
  rw [exists_forall₂_iff]
  refine forall₂_congr fun p _ => ?_
  rw [Option.isSome_iff_exists, Option.isSome_iff_exists]
  constructor
  · rintro ⟨q, hname, hvalue⟩
    exact ⟨⟨q.1, hname⟩, ⟨q.2, hvalue⟩⟩
  · rintro ⟨⟨name, hname⟩, ⟨value, hvalue⟩⟩
    exact ⟨(name, value), hname, hvalue⟩

end Headers

/-! ### The conversion -/

section Conversion

variable {http : Http} {base64 : Base64.Codec}

/-- A text that is not flagged is sent as its bytes. -/
theorem bodyBytes_of_text {response : LambdaResponse} {body : Str}
    (hbody : response.body = some body) (hflag : response.isBase64Encoded = false) :
    response.bodyBytes base64 = .ok (Utf8.encode body) := by
  simp only [LambdaResponse.bodyBytes, hbody, hflag]
  rfl

/-- A text that is flagged is sent as the bytes it decodes to. -/
theorem bodyBytes_of_base64 {response : LambdaResponse} {body : Str} {bytes : Bytes}
    (hbody : response.body = some body) (hflag : response.isBase64Encoded = true)
    (hbytes : base64.decode body = some bytes) :
    response.bodyBytes base64 = .ok bytes := by
  simp only [LambdaResponse.bodyBytes, hbody, hflag, if_true, hbytes, unwrapAt_some]

/-- A successful conversion, part by part. -/
theorem intoResponse_eq_ok_iff {response : LambdaResponse} {r : Response http} :
    response.intoResponse http base64 = .ok r ↔
      http.statusFromU16 response.statusCode = some r.status ∧
      (∃ ps, List.Forall₂ (ParsesTo http) (Grouping.ungroup response.headers.enumerate) ps ∧
        r.headers = http.appendPairs http.emptyMap ps) ∧
      response.bodyBytes base64 = .ok r.body := by
  rw [LambdaResponse.intoResponse, bind_eq_ok_iff]
  constructor
  · rintro ⟨status, hstatus, h⟩
    obtain ⟨headers, hheaders, h⟩ := bind_eq_ok_iff.mp h
    obtain ⟨body, hbody, h⟩ := bind_eq_ok_iff.mp h
    obtain rfl := Except.ok.inj h
    exact ⟨unwrapAt_eq_ok_iff.mp hstatus, appendHeaders_eq_ok_iff.mp hheaders, hbody⟩
  · rintro ⟨hstatus, hheaders, hbody⟩
    exact ⟨r.status, unwrapAt_eq_ok_iff.mpr hstatus,
      bind_eq_ok_iff.mpr ⟨r.headers, appendHeaders_eq_ok_iff.mpr hheaders,
        bind_eq_ok_iff.mpr ⟨r.body, hbody, rfl⟩⟩⟩

variable (http base64)

/-- A response the server can deliver: the status code is in range, every header name that
has a value, and every value, is one the `http` crate accepts, and a body flagged as
base64 decodes. -/
structure LambdaResponse.Deliverable (response : LambdaResponse) : Prop where
  status : 100 ≤ response.statusCode.toNat ∧ response.statusCode.toNat ≤ 999
  headers : ∀ entry ∈ response.headers.enumerate, ∀ value ∈ entry.2,
    (http.nameFromBytes (Utf8.encode entry.1)).isSome ∧
      (http.valueFromBytes (Utf8.encode value)).isSome
  body : ∀ body, response.body = some body → response.isBase64Encoded = true →
    (base64.decode body).isSome

variable {http base64}

/-- The pairs of the headers, entry by entry. -/
theorem forall_mem_ungroup {P : Str × Str → Prop} {entries : List (Str × List Str)} :
    (∀ p ∈ Grouping.ungroup entries, P p) ↔
      ∀ entry ∈ entries, ∀ value ∈ entry.2, P (entry.1, value) := by
  simp only [Grouping.ungroup, List.mem_flatMap, List.mem_map]
  constructor
  · intro h entry hentry value hvalue
    exact h _ ⟨entry, hentry, value, hvalue, rfl⟩
  · rintro h p ⟨entry, hentry, value, hvalue, rfl⟩
    exact h entry hentry value hvalue

theorem exists_bodyBytes_iff {response : LambdaResponse} :
    (∃ bytes, response.bodyBytes base64 = .ok bytes) ↔
      ∀ body, response.body = some body → response.isBase64Encoded = true →
        (base64.decode body).isSome := by
  rw [LambdaResponse.bodyBytes]
  cases response.body with
  | none => simp [pure, Except.pure]
  | some body =>
      cases response.isBase64Encoded with
      | false => simp [pure, Except.pure]
      | true => simp [unwrapAt_eq_ok_iff, Option.isSome_iff_exists]

/-- **Which responses can be converted**: exactly the deliverable ones. -/
theorem exists_intoResponse_iff {response : LambdaResponse} :
    (∃ r, response.intoResponse http base64 = .ok r) ↔ response.Deliverable http base64 := by
  constructor
  · rintro ⟨r, hr⟩
    obtain ⟨hstatus, ⟨ps, hps, -⟩, hbody⟩ := intoResponse_eq_ok_iff.mp hr
    have hrange := http.statusFromU16_isSome_iff.mp (Option.isSome_of_mem hstatus)
    exact ⟨⟨hrange.1, by omega⟩, forall_mem_ungroup.mp (exists_parsesTo_iff.mp ⟨ps, hps⟩),
      exists_bodyBytes_iff.mp ⟨r.body, hbody⟩⟩
  · rintro ⟨hrange, hheaders, hbody⟩
    obtain ⟨status, hstatus, -⟩ := http.exists_status hrange
    obtain ⟨ps, hps⟩ := exists_parsesTo_iff.mpr (forall_mem_ungroup.mpr hheaders)
    obtain ⟨bytes, hbytes⟩ := exists_bodyBytes_iff.mpr hbody
    exact ⟨⟨status, http.appendPairs http.emptyMap ps, bytes⟩,
      intoResponse_eq_ok_iff.mpr ⟨hstatus, ⟨ps, hps, rfl⟩, hbytes⟩⟩

/-- Under every name a converted response has the values of the parsed pairs, in the order
of enumeration. -/
theorem getAll_of_parsesTo (ps : List (http.HeaderName × http.HeaderValue))
    (n : http.HeaderName) :
    http.getAll (http.appendPairs http.emptyMap ps) n = Grouping.valuesOf n ps := by
  rw [http.getAll_appendPairs, http.getAll_emptyMap, List.nil_append]

end Conversion

end Wgi
