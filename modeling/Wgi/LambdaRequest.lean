import Wgi.LambdaResponse
import Wgi.Request
import Wgi.Urlencoded

/-!
# The Event a Lambda Guest Receives

`LambdaRequest::from` turns an HTTP request into the event handed to the guest: the header
values grouped under their names, the query parameters, and the body as text, or as
base64 with a flag when the bytes are not UTF-8.

## Main results

* `collectHeaders_eq_ok`: the loop over the header names groups the values of the header
  map, without losing or reordering any.
* `exists_from_iff`: the event can be built exactly when all header values are text and the
  query decodes.
* `bodyBytes_encodeBody`: text or base64, the flag says which.
* `echo`: a guest that sends the headers and the body of its event back, in whatever order
  its hash map enumerates them, returns exactly the headers and the body of the request.
-/

namespace Wgi

open Fallible

/-- `LambdaRequest`. -/
structure LambdaRequest where
  resource : Str
  path : Str
  httpMethod : Str
  headers : HashMap Str (List Str)
  queryStringParameters : HashMap Str (List Str)
  pathParameters : Option Str
  stageVariables : Option Str
  body : Option Str
  isBase64Encoded : Bool

section From

variable (http : Http) (base64 : Base64.Codec) (form : Urlencoded)

/-- The body of the loop over the header names: the values under the name as strings. -/
def insertHeader (headermap : http.HeaderMap) (headers : HashMap Str (List Str))
    (key : http.HeaderName) : Except Panic (HashMap Str (List Str)) := do
  let values ← unwrapAt .headerToStr ((http.getAll headermap key).mapM http.toStr)
  pure (AList.insert (http.asStr key) values headers)

/-- The loop over the header names. -/
def collectHeaders (headermap : http.HeaderMap) : Except Panic (HashMap Str (List Str)) :=
  (http.keys headermap).foldlM (insertHeader http headermap) ∅

/-- The query parameters: `or_insert_with` keeps the value a key was first given. -/
def collectQuery : Option Str → Except Panic (HashMap Str (List Str))
  | none => pure ∅
  | some query => do
      let qs ← unwrapAt .queryDecode (form.fromStr query)
      pure (qs.foldl (fun params p => HashMap.orInsert params p.1 [p.2]) ∅)

/-- The body as text, and whether the text is base64. -/
def encodeBody (body : Bytes) : Str × Bool :=
  match Utf8.decode body with
  | some text => (text, false)
  | none => (base64.encode body, true)

/-- `LambdaRequest::from`. -/
def LambdaRequest.from (method : Str) (uri : Uri) (headermap : http.HeaderMap) (body : Bytes) :
    Except Panic LambdaRequest := do
  let headers ← collectHeaders http headermap
  let queryStringParameters ← collectQuery form uri.query
  let (text, isBase64Encoded) := encodeBody base64 body
  pure
    { resource := uri.path
      path := uri.path
      httpMethod := method
      headers
      queryStringParameters
      pathParameters := none
      stageVariables := none
      body := some text
      isBase64Encoded }

end From

section Event

variable {http : Http} {base64 : Base64.Codec} {form : Urlencoded}

/-- An event is built exactly when the headers and the query can be collected. -/
theorem from_eq_ok_iff {method : Str} {uri : Uri} {headermap : http.HeaderMap} {body : Bytes}
    {ev : LambdaRequest} :
    LambdaRequest.from http base64 form method uri headermap body = .ok ev ↔
      collectHeaders http headermap = .ok ev.headers ∧
      collectQuery form uri.query = .ok ev.queryStringParameters ∧
      ev.body = some (encodeBody base64 body).1 ∧
      ev.isBase64Encoded = (encodeBody base64 body).2 ∧
      ev.resource = uri.path ∧ ev.path = uri.path ∧ ev.httpMethod = method ∧
      ev.pathParameters = none ∧ ev.stageVariables = none := by
  rw [LambdaRequest.from, bind_eq_ok_iff]
  constructor
  · rintro ⟨headers, hheaders, h⟩
    obtain ⟨params, hparams, h⟩ := bind_eq_ok_iff.mp h
    obtain rfl := Except.ok.inj h
    exact ⟨hheaders, hparams, rfl, rfl, rfl, rfl, rfl, rfl, rfl⟩
  · obtain ⟨resource, path, httpMethod, headers, params, pathParameters, stageVariables, text,
      flag⟩ := ev
    rintro ⟨hheaders, hparams, rfl, rfl, rfl, rfl, rfl, rfl, rfl⟩
    exact ⟨headers, hheaders, bind_eq_ok_iff.mpr ⟨params, hparams, rfl⟩⟩

/-! ### The headers of the event -/

/-- The values under a name, as strings. -/
def texts (headermap : http.HeaderMap) (n : http.HeaderName) : List Str :=
  ((http.getAll headermap n).mapM http.toStr).getD []

/-- Values that all pass `to_str` have texts. -/
theorem mapM_toStr_eq_texts {headermap : http.HeaderMap}
    (hstr : ∀ n, ∀ v ∈ http.getAll headermap n, (http.toStr v).isSome) (n : http.HeaderName) :
    (http.getAll headermap n).mapM http.toStr = some (texts headermap n) := by
  obtain ⟨ts, hts⟩ := exists_forall₂_iff.mpr
    fun v hv => Option.isSome_iff_exists.mp (hstr n v hv)
  rw [texts, mapM_eq_some_iff.mpr hts, Option.getD_some]

/-- The loop over the names inserts the texts under every name. -/
theorem foldlM_insertHeader {headermap : http.HeaderMap} {ks : List http.HeaderName}
    (htexts : ∀ k ∈ ks, (http.getAll headermap k).mapM http.toStr = some (texts headermap k))
    (headers : HashMap Str (List Str)) :
    ks.foldlM (insertHeader http headermap) headers =
      .ok (headers.insertAll (ks.map fun k => (http.asStr k, texts headermap k))) := by
  induction ks generalizing headers with
  | nil => rfl
  | cons k ks ih =>
      rw [List.foldlM_cons, insertHeader, htexts k List.mem_cons_self]
      exact ih (fun l hl => htexts l (List.mem_cons_of_mem k hl)) _

/-- **The headers of the event** group the values of the header map under its names. -/
theorem collectHeaders_eq_ok {headermap : http.HeaderMap}
    (hstr : ∀ n, ∀ v ∈ http.getAll headermap n, (http.toStr v).isSome) :
    ∃ headers, collectHeaders http headermap = .ok headers ∧
      headers.enumerate.Perm
        ((http.keys headermap).map fun k => (http.asStr k, texts headermap k)) := by
  have htexts : ∀ k ∈ http.keys headermap,
      (http.getAll headermap k).mapM http.toStr = some (texts headermap k) :=
    fun k _ => mapM_toStr_eq_texts hstr k
  have hnodup : (((http.keys headermap).map fun k => (http.asStr k, texts headermap k)).map
      Prod.fst).Nodup := by
    rw [List.map_map]
    exact (http.nodup_keys headermap).map fun _ _ => http.asStr_injective
  refine ⟨_, foldlM_insertHeader htexts ∅, ?_⟩
  have hperm := HashMap.perm_insertAll (m := ∅) hnodup fun p _ => AList.notMem_empty p.1
  rwa [HashMap.enumerate_empty, List.append_nil] at hperm

/-- One step of the loop returns exactly when all values under the name are text. -/
theorem exists_insertHeader_iff {headermap : http.HeaderMap}
    (headers : HashMap Str (List Str)) (k : http.HeaderName) :
    (∃ headers', insertHeader http headermap headers k = .ok headers') ↔
      ∀ v ∈ http.getAll headermap k, (http.toStr v).isSome := by
  constructor
  · rintro ⟨headers', h⟩ v hv
    obtain ⟨values, hvalues, -⟩ := bind_eq_ok_iff.mp h
    rw [unwrapAt_eq_ok_iff, mapM_eq_some_iff] at hvalues
    exact Option.isSome_iff_exists.mpr (exists_forall₂_iff.mp ⟨values, hvalues⟩ v hv)
  · intro hstr
    obtain ⟨values, hvalues⟩ := exists_forall₂_iff.mpr
      fun v hv => Option.isSome_iff_exists.mp (hstr v hv)
    exact ⟨_, bind_eq_ok_iff.mpr ⟨values, unwrapAt_eq_ok_iff.mpr (mapM_eq_some_iff.mpr hvalues),
      rfl⟩⟩

/-- The headers can be collected exactly when all header values are text. -/
theorem exists_collectHeaders_iff {headermap : http.HeaderMap} :
    (∃ headers, collectHeaders http headermap = .ok headers) ↔
      ∀ n, ∀ v ∈ http.getAll headermap n, (http.toStr v).isSome := by
  rw [collectHeaders, exists_foldlM_iff exists_insertHeader_iff]
  constructor
  · intro h n v hv
    exact h n (http.mem_keys_iff.mpr (List.ne_nil_of_mem hv)) v hv
  · intro h n _
    exact h n

/-- The query parameters can be collected exactly when the query decodes. -/
theorem exists_collectQuery_iff {query : Option Str} :
    (∃ params, collectQuery form query = .ok params) ↔
      ∀ q, query = some q → (form.fromStr q).isSome := by
  rcases query with - | q
  · exact ⟨nofun, fun _ => ⟨∅, rfl⟩⟩
  · rw [collectQuery]
    cases hqs : form.fromStr q with
    | none => simp [hqs]
    | some qs => simp [hqs]

/-- **When the event can be built**: exactly when all header values are text and the query
decodes. -/
theorem exists_from_iff {method : Str} {uri : Uri} {headermap : http.HeaderMap} {body : Bytes} :
    (∃ ev, LambdaRequest.from http base64 form method uri headermap body = .ok ev) ↔
      (∀ n, ∀ v ∈ http.getAll headermap n, (http.toStr v).isSome) ∧
        ∀ query, uri.query = some query → (form.fromStr query).isSome := by
  rw [← exists_collectHeaders_iff, ← exists_collectQuery_iff]
  constructor
  · rintro ⟨ev, hev⟩
    obtain ⟨hheaders, hparams, -⟩ := from_eq_ok_iff.mp hev
    exact ⟨⟨_, hheaders⟩, _, hparams⟩
  · rintro ⟨⟨headers, hheaders⟩, params, hparams⟩
    exact ⟨⟨uri.path, uri.path, method, headers, params, none, none,
      some (encodeBody base64 body).1, (encodeBody base64 body).2⟩,
      from_eq_ok_iff.mpr ⟨hheaders, hparams, rfl, rfl, rfl, rfl, rfl, rfl, rfl⟩⟩

/-- The texts under a name parse back to the name and its values. -/
theorem parsesTo_texts {headermap : http.HeaderMap}
    (hstr : ∀ n, ∀ v ∈ http.getAll headermap n, (http.toStr v).isSome) (n : http.HeaderName) :
    List.Forall₂ (ParsesTo http) ((texts headermap n).map fun t => (http.asStr n, t))
      ((http.getAll headermap n).map fun v => (n, v)) := by
  have hname : http.nameFromBytes (Utf8.encode (http.asStr n)) = some n := by
    rw [← http.nameFromStr_eq, http.nameFromStr_asStr]
  have htexts := (mapM_eq_some_iff.mp (mapM_toStr_eq_texts hstr n)).flip
  rw [List.forall₂_map_left_iff, List.forall₂_map_right_iff]
  exact htexts.imp fun _ _ ht => ⟨hname, http.valueFromBytes_of_toStr ht⟩

/-- The groups of a list of names parse back, name after name. -/
theorem parsesTo_ungroup {headermap : http.HeaderMap}
    (hstr : ∀ n, ∀ v ∈ http.getAll headermap n, (http.toStr v).isSome)
    (ks : List http.HeaderName) :
    List.Forall₂ (ParsesTo http)
      (Grouping.ungroup (ks.map fun k => (http.asStr k, texts headermap k)))
      (Grouping.ungroup (ks.map fun k => (k, http.getAll headermap k))) := by
  induction ks with
  | nil => exact .nil
  | cons k ks ih => exact List.rel_append (parsesTo_texts hstr k) ih

/-- Entries that are the groups of a header map, in any order, parse to pairs that have
the values of that map under every name. -/
theorem parsesTo_groups {headermap : http.HeaderMap}
    (hstr : ∀ n, ∀ v ∈ http.getAll headermap n, (http.toStr v).isSome)
    {entries : List (Str × List Str)}
    (hentries : entries.Perm
      ((http.keys headermap).map fun k => (http.asStr k, texts headermap k))) :
    ∃ ps, List.Forall₂ (ParsesTo http) (Grouping.ungroup entries) ps ∧
      ∀ n, Grouping.valuesOf n ps = http.getAll headermap n := by
  -- the order of the entries is an order `ks` of the names
  obtain ⟨ks, rfl, hks⟩ := Grouping.exists_map_of_perm hentries
  refine ⟨_, parsesTo_ungroup hstr ks, fun n => ?_⟩
  have hnodup : ((ks.map fun k => (k, http.getAll headermap k)).map Prod.fst).Nodup := by
    rw [List.map_map, show (Prod.fst ∘ fun k => (k, http.getAll headermap k)) = id from rfl,
      List.map_id]
    exact hks.nodup_iff.mpr (http.nodup_keys headermap)
  by_cases hn : n ∈ ks
  · exact Grouping.valuesOf_ungroup_of_mem hnodup
      (List.mem_map_of_mem (f := fun k => (k, http.getAll headermap k)) hn)
  · have hnil : http.getAll headermap n = [] := by
      by_contra hne
      exact hn (hks.mem_iff.mpr (http.mem_keys_iff.mpr hne))
    rw [hnil]
    refine Grouping.valuesOf_ungroup_of_notMem fun g hg heq => hn ?_
    obtain ⟨k, hk, rfl⟩ := List.mem_map.mp hg
    rwa [← heq]

/-! ### The body of the event -/

/-- **Text or base64, the flag says which**: a response that carries the body and the flag
of an event has the bytes the event was made from. -/
theorem bodyBytes_encodeBody {response : LambdaResponse} {body : Bytes}
    (hbody : response.body = some (encodeBody base64 body).1)
    (hflag : response.isBase64Encoded = (encodeBody base64 body).2) :
    response.bodyBytes base64 = .ok body := by
  rw [encodeBody] at hbody hflag
  cases htext : Utf8.decode body with
  | some text =>
      rw [htext] at hbody hflag
      rw [bodyBytes_of_text hbody hflag, Utf8.encode_of_decode htext]
  | none =>
      rw [htext] at hbody hflag
      exact bodyBytes_of_base64 hbody hflag (base64.decode_encode body)

/-! ### The echo law -/

/-- **Echo law.** The event of a request without a query, all of whose header values are
text, can be built; and a response that carries the headers of the event, enumerated in
any order, with its body and its flag, is delivered with exactly the body of the request
and, under every name, exactly the values of the request. -/
theorem echo (http : Http) (base64 : Base64.Codec) (form : Urlencoded) (method : Str)
    (uri : Uri) (hquery : uri.query = none) (headermap : http.HeaderMap)
    (hstr : ∀ n, ∀ v ∈ http.getAll headermap n, (http.toStr v).isSome) (body : Bytes)
    (code : UInt16) (hcode : 100 ≤ code.toNat ∧ code.toNat ≤ 999) :
    ∃ ev, LambdaRequest.from http base64 form method uri headermap body = .ok ev ∧
      ∀ response : LambdaResponse, response.statusCode = code →
        response.headers.entries.Perm ev.headers.entries → response.body = ev.body →
        response.isBase64Encoded = ev.isBase64Encoded →
        ∃ r, response.intoResponse http base64 = .ok r ∧ http.asU16 r.status = code ∧
          r.body = body ∧ (∀ n, http.getAll r.headers n = http.getAll headermap n) ∧
          ∀ n, n ∈ http.keys r.headers ↔ n ∈ http.keys headermap := by
  obtain ⟨headers, hheaders, hperm⟩ := collectHeaders_eq_ok hstr
  have hparams : collectQuery form uri.query = .ok ∅ := by
    rw [hquery]
    rfl
  refine ⟨⟨uri.path, uri.path, method, headers, ∅, none, none, some (encodeBody base64 body).1,
    (encodeBody base64 body).2⟩,
    from_eq_ok_iff.mpr ⟨hheaders, hparams, rfl, rfl, rfl, rfl, rfl, rfl, rfl⟩, ?_⟩
  intro response hstatus hentries hbody hflag
  obtain ⟨ps, hps, hvalues⟩ := parsesTo_groups hstr
    ((HashMap.perm_enumerate hentries).trans hperm)
  obtain ⟨status, hsome, hasU16⟩ := http.exists_status hcode
  have hgetAll : ∀ n, http.getAll (http.appendPairs http.emptyMap ps) n =
      http.getAll headermap n := fun n => by rw [getAll_of_parsesTo, hvalues]
  refine ⟨⟨status, http.appendPairs http.emptyMap ps, body⟩,
    intoResponse_eq_ok_iff.mpr ⟨by rw [hstatus, hsome], ⟨ps, hps, rfl⟩,
      bodyBytes_encodeBody hbody hflag⟩,
    hasU16, rfl, hgetAll, fun n => ?_⟩
  rw [http.mem_keys_iff, http.mem_keys_iff, hgetAll]

end Event

/-- The header `set-cookie`, with two values, in a header map of the reference instance. -/
def cookies : List (Http.RefName × Http.RefValue) :=
  [(Http.setCookie, ⟨[97], rfl⟩), (Http.setCookie, ⟨[98], rfl⟩)]

/-- The echo of a request with a repeated header and a body that is not UTF-8. -/
theorem echo_cookies : ∃ (ev : LambdaRequest) (response : LambdaResponse)
    (r : Response Http.reference),
    LambdaRequest.from Http.reference Base64.standard .reference "POST".toList
      ⟨"/echo".toList, none⟩ cookies [0xFF] = .ok ev ∧
    response = ⟨418, ev.headers, ev.body, ev.isBase64Encoded⟩ ∧
    response.intoResponse Http.reference Base64.standard = .ok r ∧
    Http.reference.asU16 r.status = 418 ∧ r.body = [0xFF] ∧
    ∀ n, Http.reference.getAll r.headers n = Http.reference.getAll cookies n := by
  have hstr : ∀ p ∈ cookies, (Http.refToStr p.2).isSome := by decide
  obtain ⟨ev, hev, hecho⟩ := echo Http.reference Base64.standard .reference "POST".toList
    ⟨"/echo".toList, none⟩ rfl cookies
    (fun n v hv => by
      obtain ⟨p, hp, rfl⟩ := List.mem_map.mp hv
      exact hstr p (List.mem_of_mem_filter hp))
    [0xFF] 418 (by decide)
  obtain ⟨r, hr, hstatus, hbody, hheaders, -⟩ :=
    hecho ⟨418, ev.headers, ev.body, ev.isBase64Encoded⟩ rfl (List.Perm.refl _) rfl rfl
  exact ⟨ev, _, r, hev, rfl, hr, hstatus, hbody, hheaders⟩

end Wgi
