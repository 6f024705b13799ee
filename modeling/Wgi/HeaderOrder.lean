import Wgi.LambdaResponse

/-!
# The Order of the Response Headers

The headers of a `LambdaResponse` are a hash map, whose keys are distinguished by letter
case and whose enumeration order differs from run to run. The conversion appends the
values in this order to a header map, whose names are in lower case. Keys that differ only
in letter case end up under one name, and the order of their values is then the order in
which the hash map happened to enumerate the keys.

## Main results

* `getAll_intoResponse`: the values of a converted response under a name are those of the
  keys that have that name in lower case, in the order of enumeration.
* `headerOrder_iff`: the header map is the same for all enumeration orders exactly when
  the values of keys with the same lower case commute.
-/

namespace Wgi

variable {http : Http} {base64 : Base64.Codec}

/-- The headers of a response, with their keys in lower case. -/
def lowerGroups (headers : HashMap Str (List Str)) : List (Str × List Str) :=
  headers.enumerate.map fun entry => (Text.toAsciiLowercase entry.1, entry.2)

/-- Pairs of a key and a value that parse give every name the values of the keys that have
it in lower case. -/
theorem valueBytes_valuesOf {pairs : List (Str × Str)}
    {ps : List (http.HeaderName × http.HeaderValue)}
    (h : List.Forall₂ (ParsesTo http) pairs ps) (n : http.HeaderName) :
    (Grouping.valuesOf n ps).map http.valueBytes =
      (Grouping.valuesOf (http.asStr n)
        (pairs.map fun p => (Text.toAsciiLowercase p.1, p.2))).map Utf8.encode := by
  induction h with
  | nil => rfl
  | @cons p q pairs ps hpq _ ih =>
      obtain ⟨hname, hvalue⟩ := hpq
      have hlower := http.asStr_of_nameFromBytes hname
      have hbytes := (http.valueBytes_of_valueFromBytes hvalue).1
      rw [List.map_cons, Grouping.valuesOf_cons, Grouping.valuesOf_cons, ← hlower]
      by_cases hn : q.1 = n
      · rw [if_pos hn, if_pos (by rw [hn]), List.map_cons, List.map_cons, ih, hbytes]
      · rw [if_neg hn, if_neg fun heq => hn (http.asStr_injective heq), ih]

/-- **The values under a name** are those of the keys with that name, in the order in which
the keys are enumerated. -/
theorem getAll_intoResponse {response : LambdaResponse} {r : Response http}
    (h : response.intoResponse http base64 = .ok r) (n : http.HeaderName) :
    (http.getAll r.headers n).map http.valueBytes =
      (Grouping.valuesOf (http.asStr n)
        (Grouping.ungroup (lowerGroups response.headers))).map Utf8.encode := by
  obtain ⟨-, ⟨ps, hps, hheaders⟩, -⟩ := intoResponse_eq_ok_iff.mp h
  have hkeys : Grouping.ungroup (lowerGroups response.headers) =
      (Grouping.ungroup response.headers.enumerate).map
        fun p => (Text.toAsciiLowercase p.1, p.2) := by
    simp only [Grouping.ungroup, lowerGroups, List.flatMap_map, List.map_flatMap, List.map_map,
      Function.comp_def]
  rw [hheaders, getAll_of_parsesTo, valueBytes_valuesOf hps, hkeys]

/-- Two converted responses have the same values under a name exactly when their keys with
that name do. -/
theorem getAll_eq_iff {response₁ response₂ : LambdaResponse} {r₁ r₂ : Response http}
    (h₁ : response₁.intoResponse http base64 = .ok r₁)
    (h₂ : response₂.intoResponse http base64 = .ok r₂) (n : http.HeaderName) :
    http.getAll r₁.headers n = http.getAll r₂.headers n ↔
      Grouping.valuesOf (http.asStr n) (Grouping.ungroup (lowerGroups response₁.headers)) =
        Grouping.valuesOf (http.asStr n) (Grouping.ungroup (lowerGroups response₂.headers)) := by
  have hvalue : Function.Injective http.valueBytes := fun _ _ => http.valueBytes_injective
  have hencode : Function.Injective Utf8.encode := fun _ _ => Utf8.encode_injective
  rw [← (List.map_injective_iff.mpr hvalue).eq_iff, getAll_intoResponse h₁,
    getAll_intoResponse h₂, (List.map_injective_iff.mpr hencode).eq_iff]

/-- Whether a response can be converted does not depend on the enumeration order. -/
theorem exists_intoResponse_of_perm {response : LambdaResponse} {r : Response http}
    (h : response.intoResponse http base64 = .ok r) {headers : HashMap Str (List Str)}
    (hperm : headers.entries.Perm response.headers.entries) :
    ∃ r', { response with headers }.intoResponse http base64 = .ok r' := by
  obtain ⟨hstatus, hheaders, hbody⟩ := exists_intoResponse_iff.mp ⟨r, h⟩
  refine exists_intoResponse_iff.mpr ⟨hstatus, fun entry hentry => ?_, hbody⟩
  exact hheaders entry ((HashMap.perm_enumerate hperm).mem_iff.mp hentry)

/-- A key with a value names a header. -/
theorem exists_name_of_mem {response : LambdaResponse} {r : Response http}
    (h : response.intoResponse http base64 = .ok r) {entry : Str × List Str}
    (hentry : entry ∈ response.headers.enumerate) (hvalues : entry.2 ≠ []) :
    ∃ n, http.asStr n = Text.toAsciiLowercase entry.1 := by
  obtain ⟨value, hvalue⟩ := List.exists_mem_of_ne_nil _ hvalues
  have hsome := ((exists_intoResponse_iff.mp ⟨r, h⟩).headers entry hentry value hvalue).1
  obtain ⟨n, hn⟩ := Option.isSome_iff_exists.mp hsome
  exact ⟨n, http.asStr_of_nameFromBytes hn⟩

/-- **When the enumeration order does not show.** Let a response be one that can be
converted. In any two enumeration orders of its headers it is converted, and to the same
header map, under every name the same values in the same order, exactly when the lists of
values of any two keys that agree in lower case commute. -/
theorem headerOrder_iff (http : Http) (base64 : Base64.Codec) (response : LambdaResponse)
    (r : Response http) (hr : response.intoResponse http base64 = .ok r) :
    (∀ headers₁ headers₂ : HashMap Str (List Str),
        headers₁.entries.Perm response.headers.entries →
        headers₂.entries.Perm response.headers.entries →
        ∃ r₁ r₂, { response with headers := headers₁ }.intoResponse http base64 = .ok r₁ ∧
          { response with headers := headers₂ }.intoResponse http base64 = .ok r₂ ∧
          ∀ n, http.getAll r₁.headers n = http.getAll r₂.headers n) ↔
      ∀ e₁ ∈ response.headers.enumerate, ∀ e₂ ∈ response.headers.enumerate,
        Text.toAsciiLowercase e₁.1 = Text.toAsciiLowercase e₂.1 →
          e₁.2 ++ e₂.2 = e₂.2 ++ e₁.2 := by
  constructor
  · intro hall e₁ he₁ e₂ he₂ hlower
    by_cases hvalues : e₁.2 = []
    · rw [hvalues, List.nil_append, List.append_nil]
    · obtain ⟨n, hn⟩ := exists_name_of_mem hr he₁ hvalues
      refine (Grouping.valuesOf_ungroup_perm_iff (http.asStr n) (lowerGroups response.headers)).mp
        ?_ (Text.toAsciiLowercase e₁.1, e₁.2) (List.mem_map_of_mem he₁)
        (Text.toAsciiLowercase e₂.1, e₂.2) (List.mem_map_of_mem he₂) hn.symm
        (hlower.symm.trans hn.symm)
      -- an order of the lower-case groups is that of some enumeration
      intro gs₁ gs₂ hgs₁ hgs₂
      obtain ⟨ps₁, rfl, hps₁⟩ := Grouping.exists_map_of_perm hgs₁
      obtain ⟨ps₂, rfl, hps₂⟩ := Grouping.exists_map_of_perm hgs₂
      obtain ⟨headers₁, rfl, hheaders₁⟩ := HashMap.exists_enumerate_eq hps₁
      obtain ⟨headers₂, rfl, hheaders₂⟩ := HashMap.exists_enumerate_eq hps₂
      obtain ⟨r₁, r₂, hr₁, hr₂, heq⟩ := hall headers₁ headers₂ hheaders₁ hheaders₂
      exact (getAll_eq_iff hr₁ hr₂ n).mp (heq n)
  · intro hcomm headers₁ headers₂ hheaders₁ hheaders₂
    obtain ⟨r₁, hr₁⟩ := exists_intoResponse_of_perm hr hheaders₁
    obtain ⟨r₂, hr₂⟩ := exists_intoResponse_of_perm hr hheaders₂
    refine ⟨r₁, r₂, hr₁, hr₂, fun n => (getAll_eq_iff hr₁ hr₂ n).mpr ?_⟩
    refine (Grouping.valuesOf_ungroup_perm_iff (http.asStr n) (lowerGroups response.headers)).mpr
      ?_ _ _ ((HashMap.perm_enumerate hheaders₁).map _)
      ((HashMap.perm_enumerate hheaders₂).map _)
    intro g hg h hh hgn hhn
    obtain ⟨e₁, he₁, rfl⟩ := List.mem_map.mp hg
    obtain ⟨e₂, he₂, rfl⟩ := List.mem_map.mp hh
    exact hcomm e₁ he₁ e₂ he₂ (hgn.trans hhn.symm)

/-! ### Two spellings of one name -/

/-- Headers with two keys, enumerated in the given order. -/
def twoHeaders (e₁ e₂ : Str × List Str) (hne : e₁.1 ≠ e₂.1) : HashMap Str (List Str) where
  entries := [⟨e₁.1, e₁.2⟩, ⟨e₂.1, e₂.2⟩]
  nodupKeys := by simp [List.NodupKeys, List.keys, hne]

/-- Two spellings with the same value: the order does not show. -/
theorem headerOrder_sameCookie :
    ∃ headers : HashMap Str (List Str),
      headers = twoHeaders ("Set-Cookie".toList, ["a".toList]) ("set-cookie".toList, ["a".toList])
        (by decide) ∧
      ∀ headers₁ headers₂ : HashMap Str (List Str),
        headers₁.entries.Perm headers.entries → headers₂.entries.Perm headers.entries →
        ∃ r₁ r₂, LambdaResponse.intoResponse Http.reference Base64.standard
            ⟨200, headers₁, none, false⟩ = .ok r₁ ∧
          LambdaResponse.intoResponse Http.reference Base64.standard
            ⟨200, headers₂, none, false⟩ = .ok r₂ ∧
          ∀ n, Http.reference.getAll r₁.headers n = Http.reference.getAll r₂.headers n :=
  ⟨_, rfl, (headerOrder_iff Http.reference Base64.standard ⟨200, _, none, false⟩ _ rfl).mpr
    (by decide)⟩

/-- **The order shows**: two spellings with different values are delivered in the order in
which the hash map enumerates the spellings. -/
theorem headerOrder_cookies :
    ¬ ∀ (http : Http) (base64 : Base64.Codec) (response : LambdaResponse) (r : Response http),
      response.intoResponse http base64 = .ok r →
      ∀ headers₁ headers₂ : HashMap Str (List Str),
        headers₁.entries.Perm response.headers.entries →
        headers₂.entries.Perm response.headers.entries →
        ∃ r₁ r₂, { response with headers := headers₁ }.intoResponse http base64 = .ok r₁ ∧
          { response with headers := headers₂ }.intoResponse http base64 = .ok r₂ ∧
          ∀ n, http.getAll r₁.headers n = http.getAll r₂.headers n := by
  intro h
  obtain ⟨r₁, r₂, hr₁, hr₂, heq⟩ := h Http.reference Base64.standard
    ⟨200, twoHeaders ("Set-Cookie".toList, ["a".toList]) ("set-cookie".toList, ["b".toList])
      (by decide), none, false⟩ _ rfl
    (twoHeaders ("Set-Cookie".toList, ["a".toList]) ("set-cookie".toList, ["b".toList])
      (by decide))
    (twoHeaders ("set-cookie".toList, ["b".toList]) ("Set-Cookie".toList, ["a".toList])
      (by decide))
    (List.Perm.refl _) (List.Perm.swap _ _ _)
  obtain rfl := Except.ok.inj hr₁
  obtain rfl := Except.ok.inj hr₂
  have hbytes := congrArg (List.map Http.reference.valueBytes) (heq Http.setCookie)
  exact absurd hbytes (by decide)

end Wgi
