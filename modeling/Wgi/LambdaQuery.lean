import Wgi.LambdaRequest

/-!
# The Query Parameters of a Lambda Event

The query of a request decodes to a list of pairs, in which a key may occur several times.
`LambdaRequest` has a list of values for each key, but the loop that fills it only makes a
list for a key that has none yet, and never adds to one.

The list is decoded with `&str` for the keys and `Cow<str>` for the values. A key that has
something escaped in it only exists as an owned string, which a `&str` cannot hold, and the
error is unwrapped.

## Main results

* `lookup_queryParameters`: under every key the event has the first value of the key.
* `queryParameters_iff`: the event groups all pairs of the query exactly when no key
  occurs twice.
* `queryDecoding_iff`: the query is decoded exactly when no key has something escaped.
-/

namespace Wgi

variable {http : Http} {base64 : Base64.Codec} {form : Urlencoded}

/-- The parameters of a query that decodes: every key is given a list with one value. -/
theorem collectQuery_of_fromStr {query : Str} {qs : List (Str × Str)}
    (hqs : form.fromStr query = some qs) :
    collectQuery form (some query) =
      .ok (HashMap.orInsertAll ∅ (qs.map fun p => (p.1, [p.2]))) := by
  rw [collectQuery, hqs, HashMap.orInsertAll, List.foldl_map]
  rfl

/-- **What the event knows of a key** is its first value. -/
theorem lookup_queryParameters {method : Str} {uri : Uri} {headermap : http.HeaderMap}
    {body : Bytes} {query : Str} {qs : List (Str × Str)} {ev : LambdaRequest}
    (hquery : uri.query = some query) (hqs : form.fromStr query = some qs)
    (hev : LambdaRequest.from http base64 form method uri headermap body = .ok ev) (k : Str) :
    ev.queryStringParameters.lookup k = (Grouping.valuesOf k qs).head?.map fun v => [v] := by
  have hparams := (from_eq_ok_iff.mp hev).2.1
  rw [hquery, collectQuery_of_fromStr hqs, Except.ok.injEq] at hparams
  rw [← hparams, HashMap.lookup_orInsertAll, AList.lookup_empty, Option.none_or,
    Grouping.valuesOf_map_snd (fun v => [v]), List.head?_map]

/-- A list made of its first element is the whole list exactly when it has no second one. -/
theorem singleton_head_eq_iff {vs : List Str} :
    (vs.head?.map fun v => [v]) = (if vs = [] then none else some vs) ↔ vs.length ≤ 1 := by
  rcases vs with - | ⟨v, vs⟩
  · simp
  · rcases vs with - | ⟨w, vs⟩
    · simp
    · simp

/-- **When no parameter is lost.** Let the query of a request decode to a list of pairs.
The parameters of the event map every key of the list to all its values in order and have
no other key, and so hold as many values as there are pairs, exactly when no key occurs
twice. -/
theorem queryParameters_iff (http : Http) (base64 : Base64.Codec) (form : Urlencoded)
    (method : Str) (uri : Uri) (headermap : http.HeaderMap) (body : Bytes) (query : Str)
    (qs : List (Str × Str)) (ev : LambdaRequest) (hquery : uri.query = some query)
    (hqs : form.fromStr query = some qs)
    (hev : LambdaRequest.from http base64 form method uri headermap body = .ok ev) :
    ev.queryStringParameters.Groups qs ∧
        (ev.queryStringParameters.enumerate.flatMap Prod.snd).length = qs.length ↔
      (qs.map Prod.fst).Nodup := by
  have hgroups : ev.queryStringParameters.Groups qs ↔ (qs.map Prod.fst).Nodup := by
    rw [Grouping.nodup_iff_length_valuesOf, HashMap.Groups]
    refine forall_congr' fun k => ?_
    rw [lookup_queryParameters hquery hqs hev, singleton_head_eq_iff]
  constructor
  · rintro ⟨h, -⟩
    exact hgroups.mp h
  · intro hnodup
    have h := hgroups.mpr hnodup
    exact ⟨h, h.isGrouping.length_values⟩

/-- A query with two keys is grouped. -/
theorem queryParameters_distinct :
    ∃ ev, LambdaRequest.from Http.reference Base64.standard .reference "GET".toList
        ⟨"/".toList, some "a=1&b=2".toList⟩ Http.reference.emptyMap [] = .ok ev ∧
      ev.queryStringParameters.Groups
        [("a".toList, "1".toList), ("b".toList, "2".toList)] := by
  refine ⟨_, rfl, ?_⟩
  exact ((queryParameters_iff Http.reference Base64.standard .reference "GET".toList
    ⟨"/".toList, some "a=1&b=2".toList⟩ Http.reference.emptyMap [] "a=1&b=2".toList
    [("a".toList, "1".toList), ("b".toList, "2".toList)] _ rfl (by decide) rfl).mpr
    (by decide)).1

/-- The second value of a repeated key is lost. -/
theorem queryParameters_lost :
    ¬ ∀ (http : Http) (base64 : Base64.Codec) (form : Urlencoded) (method : Str) (uri : Uri)
      (headermap : http.HeaderMap) (body : Bytes) (query : Str) (qs : List (Str × Str))
      (ev : LambdaRequest), uri.query = some query → form.fromStr query = some qs →
      LambdaRequest.from http base64 form method uri headermap body = .ok ev →
        ev.queryStringParameters.Groups qs ∧
          (ev.queryStringParameters.enumerate.flatMap Prod.snd).length = qs.length := by
  intro h
  have hlength := (h Http.reference Base64.standard .reference "GET".toList
    ⟨"/".toList, some "a=1&a=2".toList⟩ Http.reference.emptyMap [] "a=1&a=2".toList
    [("a".toList, "1".toList), ("a".toList, "2".toList)] _ rfl (by decide) rfl).2
  have hone : 1 = 2 := hlength
  omega

/-! ### The decoding of the query -/

/-- **When the query is decoded.** Decoding the query of a request returns, and the list it
gives is the form-urlencoded decoding of every key and every value, exactly when no key has
something escaped: a `+`, or a `%` before two hexadecimal digits. -/
theorem queryDecoding_iff (form : Urlencoded) (query : Str) :
    (∃ params, collectQuery form (some query) = .ok params) ∧
        form.fromStr query = some (Urlencoded.decoding query) ↔
      ∀ key ∈ Urlencoded.names query, Urlencoded.hasEscape key = false := by
  rw [Urlencoded.fromStr_eq_some_iff]
  constructor
  · rintro ⟨-, hkeys, -⟩
    exact hkeys
  · intro hkeys
    have hqs : form.fromStr query = some (Urlencoded.decoding query) :=
      Urlencoded.fromStr_eq_some_iff.mpr ⟨hkeys, rfl⟩
    exact ⟨⟨_, collectQuery_of_fromStr hqs⟩, hkeys, rfl⟩

/-- The query `a+b=%C3%A9` stands for the value `é` under the key `a b`, and decoding it
panics. -/
theorem queryDecoding_plus :
    Urlencoded.decoding "a+b=%C3%A9".toList = [("a b".toList, "é".toList)] ∧
    LambdaRequest.from Http.reference Base64.standard .reference "GET".toList
      ⟨"/".toList, some "a+b=%C3%A9".toList⟩ Http.reference.emptyMap [] =
        .error (.unwrap .queryDecode) ∧
    ¬ ∀ (form : Urlencoded) (query : Str),
      (∃ params, collectQuery form (some query) = .ok params) ∧
        form.fromStr query = some (Urlencoded.decoding query) := by
  refine ⟨?_, rfl, fun h => ?_⟩
  · have hname : Urlencoded.unescape "a+b".toList = Utf8.encode "a b".toList := rfl
    have hvalue : Urlencoded.unescape "%C3%A9".toList = Utf8.encode "é".toList := rfl
    have hparts : Urlencoded.decoding "a+b=%C3%A9".toList =
        [(Urlencoded.decode "a+b".toList, Urlencoded.decode "%C3%A9".toList)] := rfl
    rw [hparts, Urlencoded.decode, hname, Utf8.lossy_encode, Urlencoded.decode, hvalue,
      Utf8.lossy_encode]
  · obtain ⟨⟨params, hparams⟩, -⟩ := h .reference "a+b=%C3%A9".toList
    have hpanic : collectQuery .reference (some "a+b=%C3%A9".toList) =
        .error (.unwrap .queryDecode) := rfl
    rw [hpanic] at hparams
    exact absurd hparams (by simp)

end Wgi
