import Mathlib.Data.List.Dedup
import Wgi.Basic
import Wgi.Grouping
import Wgi.Text
import Wgi.Utf8

/-!
# The HTTP Types of the `http` Crate

The server takes header names, header values, header maps and status codes from the
`http` crate. The model does not look inside them: `Http` lists the functions the server
calls and the documented laws that the proofs use, and every definition of the model is
parametric in it.

* A header name is a nonempty token; parsing one lower-cases it.
* A header value is a byte string of visible characters, tabs and opaque octets;
  `to_str` succeeds on the visible ASCII ones.
* A status code is a number from 100 to 999; its text is its decimal form.
* A header map keeps, under every name, a list of values in the order of insertion.
  `insert` replaces the list, `append` extends it. The capacity limit of the map, past
  which both panic, is outside the model.

`Http.reference` is an instance: header maps are lists of pairs. It shows that the laws
are consistent, and concrete requests and responses are built on it.
-/

namespace Wgi

/-! ### Tokens and value bytes -/

/-- The characters of an HTTP token other than letters and digits, as code points. -/
def tokenMarks : List ℕ :=
  [0x21, 0x23, 0x24, 0x25, 0x26, 0x27, 0x2A, 0x2B, 0x2D, 0x2E, 0x5E, 0x5F, 0x60, 0x7C, 0x7E]

/-- The characters of an HTTP token. -/
def isTokenChar (c : Char) : Bool :=
  ('0'.toNat ≤ c.toNat && c.toNat ≤ '9'.toNat) || ('A'.toNat ≤ c.toNat && c.toNat ≤ 'Z'.toNat) ||
    ('a'.toNat ≤ c.toNat && c.toNat ≤ 'z'.toNat) || tokenMarks.contains c.toNat

/-- An HTTP token: a nonempty string of token characters. -/
def isToken (s : Str) : Bool :=
  !s.isEmpty && s.all isTokenChar

/-- The bytes a header value may hold: 32 to 255 without 127, and the tab. -/
def isValueByte (b : UInt8) : Bool :=
  (32 ≤ b.toNat && b.toNat != 127) || b.toNat == 9

/-- The bytes `to_str` accepts: visible ASCII, the space and the tab. -/
def isVisibleByte (b : UInt8) : Bool :=
  (32 ≤ b.toNat && b.toNat < 127) || b.toNat == 9

theorem lt_of_isVisibleByte {x : UInt8} (h : isVisibleByte x = true) : x.toNat < 128 := by
  simp only [isVisibleByte, Bool.or_eq_true, Bool.and_eq_true, decide_eq_true_eq,
    beq_iff_eq] at h
  omega

theorem isAscii_of_isTokenChar {c : Char} (h : isTokenChar c = true) : c.toNat < 128 := by
  have hmarks : ∀ n ∈ tokenMarks, n < 128 := by decide
  have h9 : '9'.toNat = 57 := rfl
  have hZ : 'Z'.toNat = 90 := rfl
  have hz : 'z'.toNat = 122 := rfl
  simp only [isTokenChar, Bool.or_eq_true, Bool.and_eq_true, decide_eq_true_eq,
    List.contains_iff_mem] at h
  rcases h with ((h | h) | h) | h
  · omega
  · omega
  · omega
  · exact hmarks _ h

theorem isTokenChar_of_mem {s : Str} (h : isToken s = true) {c : Char} (hc : c ∈ s) :
    isTokenChar c = true := by
  simp only [isToken, Bool.and_eq_true, List.all_eq_true] at h
  exact h.2 c hc

/-- What holds of every token character below 128 holds of every token character. -/
theorem forall_tokenChar {P : Char → Prop}
    (h : ∀ n < 128, isTokenChar (Char.ofNat n) = true → P (Char.ofNat n)) {c : Char}
    (hc : isTokenChar c = true) : P c := by
  have hP := h c.toNat (isAscii_of_isTokenChar hc)
  rw [Char.ofNat_toNat] at hP
  exact hP hc

theorem ne_nil_of_isToken {s : Str} (h : isToken s = true) : s ≠ [] := by
  rintro rfl
  simp [isToken] at h

/-! ### The interface -/

/-- What the server uses of the `http` crate: its types, its functions, and the laws their
documentation gives. -/
structure Http where
  HeaderName : Type
  HeaderValue : Type
  HeaderMap : Type
  StatusCode : Type
  /-- Header names are compared for equality. -/
  decEqName : DecidableEq HeaderName
  /-- `HeaderName::from_str`. -/
  nameFromStr : Str → Option HeaderName
  /-- `HeaderName::from_bytes`. -/
  nameFromBytes : Bytes → Option HeaderName
  /-- `HeaderName::as_str`. -/
  asStr : HeaderName → Str
  /-- `HeaderValue::from_str`. -/
  valueFromStr : Str → Option HeaderValue
  /-- `HeaderValue::from_bytes`. -/
  valueFromBytes : Bytes → Option HeaderValue
  /-- `HeaderValue::as_bytes`. -/
  valueBytes : HeaderValue → Bytes
  /-- `HeaderValue::to_str`. -/
  toStr : HeaderValue → Option Str
  /-- `StatusCode::OK`. -/
  statusOk : StatusCode
  /-- `StatusCode::from_u16`. -/
  statusFromU16 : UInt16 → Option StatusCode
  /-- `StatusCode::from_str`. -/
  statusFromStr : Str → Option StatusCode
  /-- `StatusCode::as_u16`. -/
  asU16 : StatusCode → UInt16
  /-- `HeaderMap::new`. -/
  emptyMap : HeaderMap
  /-- `HeaderMap::insert`. -/
  insert : HeaderMap → HeaderName → HeaderValue → HeaderMap
  /-- `HeaderMap::append`. -/
  append : HeaderMap → HeaderName → HeaderValue → HeaderMap
  /-- `HeaderMap::get_all`. -/
  getAll : HeaderMap → HeaderName → List HeaderValue
  /-- `HeaderMap::keys`. -/
  keys : HeaderMap → List HeaderName
  /-- `HeaderMap::iter`. -/
  iter : HeaderMap → List (HeaderName × HeaderValue)
  /-- A string is parsed as a name through its bytes. -/
  nameFromStr_eq : ∀ s, nameFromStr s = nameFromBytes (Utf8.encode s)
  /-- Only tokens are names, and a name is kept in lower case. -/
  token_of_nameFromStr : ∀ {s n}, nameFromStr s = some n →
    isToken s = true ∧ asStr n = Text.toAsciiLowercase s
  /-- The text of a name parses back to it. -/
  nameFromStr_asStr : ∀ n, nameFromStr (asStr n) = some n
  /-- A value keeps its bytes, which all are value bytes. -/
  valueBytes_of_valueFromBytes : ∀ {b v}, valueFromBytes b = some v →
    valueBytes v = b ∧ ∀ x ∈ b, isValueByte x = true
  /-- The bytes of a value parse back to it. -/
  valueFromBytes_valueBytes : ∀ v, valueFromBytes (valueBytes v) = some v
  /-- A string accepted as a value is the value of its bytes. -/
  valueFromBytes_of_valueFromStr : ∀ {s v}, valueFromStr s = some v →
    valueFromBytes (Utf8.encode s) = some v
  /-- `to_str` gives the text of a value all of whose bytes are visible. -/
  toStr_eq_some_iff : ∀ {v s}, toStr v = some s ↔
    valueBytes v = Utf8.encode s ∧ ∀ x ∈ valueBytes v, isVisibleByte x = true
  asU16_statusOk : asU16 statusOk = 200
  /-- A number is a status code exactly from 100 to 999. -/
  statusFromU16_isSome_iff : ∀ {c}, (statusFromU16 c).isSome ↔ 100 ≤ c.toNat ∧ c.toNat < 1000
  asU16_of_statusFromU16 : ∀ {c s}, statusFromU16 c = some s → asU16 s = c
  statusFromU16_asU16 : ∀ s, statusFromU16 (asU16 s) = some s
  /-- The text of a status code is its decimal form. -/
  statusFromStr_eq_some_iff : ∀ {t s}, statusFromStr t = some s ↔
    t = Nat.toDigits 10 (asU16 s).toNat
  getAll_emptyMap : ∀ n, getAll emptyMap n = []
  /-- `insert` replaces all values under the name. -/
  getAll_insert : ∀ m n v k, getAll (insert m n v) k = if k = n then [v] else getAll m k
  /-- `append` adds a value behind those under the name. -/
  getAll_append : ∀ m n v k,
    getAll (append m n v) k = if k = n then getAll m k ++ [v] else getAll m k
  /-- The keys are the names that have a value, -/
  mem_keys_iff : ∀ {m n}, n ∈ keys m ↔ getAll m n ≠ []
  /-- each of them once. -/
  nodup_keys : ∀ m, (keys m).Nodup
  /-- Iteration visits the values under a name in their order. -/
  getAll_eq_iter : ∀ m n, getAll m n = Grouping.valuesOf n (iter m)

namespace Http

/-! ### Consequences of the laws -/

section Laws

variable (http : Http)

instance : DecidableEq http.HeaderName := http.decEqName

theorem asStr_injective {m n : http.HeaderName} (h : http.asStr m = http.asStr n) : m = n := by
  have hm := http.nameFromStr_asStr m
  rw [h, http.nameFromStr_asStr] at hm
  exact (Option.some.inj hm).symm

theorem valueBytes_injective {v w : http.HeaderValue} (h : http.valueBytes v = http.valueBytes w) :
    v = w := by
  have hv := http.valueFromBytes_valueBytes v
  rw [h, http.valueFromBytes_valueBytes] at hv
  exact (Option.some.inj hv).symm

/-- The name that the bytes of a string parse to is the string in lower case. -/
theorem asStr_of_nameFromBytes {s : Str} {n : http.HeaderName}
    (h : http.nameFromBytes (Utf8.encode s) = some n) :
    http.asStr n = Text.toAsciiLowercase s := by
  rw [← http.nameFromStr_eq] at h
  exact (http.token_of_nameFromStr h).2

/-- The text of a name is a token in lower case. -/
theorem isToken_asStr (n : http.HeaderName) :
    isToken (http.asStr n) = true ∧ Text.toAsciiLowercase (http.asStr n) = http.asStr n := by
  obtain ⟨htoken, hlower⟩ := http.token_of_nameFromStr (http.nameFromStr_asStr n)
  exact ⟨htoken, hlower.symm⟩

/-- Two strings name the same header exactly when they agree in lower case. -/
theorem nameFromStr_eq_iff {s t : Str} {m n : http.HeaderName}
    (hs : http.nameFromStr s = some m) (ht : http.nameFromStr t = some n) :
    m = n ↔ Text.toAsciiLowercase s = Text.toAsciiLowercase t := by
  obtain ⟨-, hm⟩ := http.token_of_nameFromStr hs
  obtain ⟨-, hn⟩ := http.token_of_nameFromStr ht
  rw [← hm, ← hn]
  exact ⟨fun h => by rw [h], http.asStr_injective⟩

/-- A string accepted as a value has no control character but the tab. -/
theorem isValueByte_of_valueFromStr {s : Str} {v : http.HeaderValue}
    (h : http.valueFromStr s = some v) : ∀ x ∈ Utf8.encode s, isValueByte x = true :=
  (http.valueBytes_of_valueFromBytes (http.valueFromBytes_of_valueFromStr h)).2

/-- The text `to_str` gives for a value parses back to that value. -/
theorem valueFromBytes_of_toStr {v : http.HeaderValue} {s : Str} (h : http.toStr v = some s) :
    http.valueFromBytes (Utf8.encode s) = some v := by
  rw [← (http.toStr_eq_some_iff.mp h).1]
  exact http.valueFromBytes_valueBytes v

/-- `to_str` succeeds exactly on the values whose bytes are all visible. -/
theorem toStr_isSome_iff {v : http.HeaderValue} :
    (http.toStr v).isSome ↔ ∀ x ∈ http.valueBytes v, isVisibleByte x = true := by
  rw [Option.isSome_iff_exists]
  constructor
  · rintro ⟨s, hs⟩
    exact (http.toStr_eq_some_iff.mp hs).2
  · intro h
    have hbytes := Utf8.encode_ofAscii fun x hx => lt_of_isVisibleByte (h x hx)
    exact ⟨_, http.toStr_eq_some_iff.mpr ⟨hbytes.symm, h⟩⟩

/-- What holds of every value under every name holds of every entry, and conversely. -/
theorem forall_getAll_iff {m : http.HeaderMap} {P : http.HeaderValue → Prop} :
    (∀ n, ∀ v ∈ http.getAll m n, P v) ↔ ∀ entry ∈ http.iter m, P entry.2 := by
  constructor
  · intro h entry hentry
    refine h entry.1 entry.2 ?_
    rw [http.getAll_eq_iter]
    exact Grouping.mem_valuesOf.mpr hentry
  · intro h n v hv
    rw [http.getAll_eq_iter] at hv
    exact h (n, v) (Grouping.mem_valuesOf.mp hv)

/-! ### Names that are repeated -/

/-- The keys are the names of the entries. -/
theorem mem_keys_iff_mem_iter {m : http.HeaderMap} {n : http.HeaderName} :
    n ∈ http.keys m ↔ n ∈ (http.iter m).map Prod.fst := by
  rw [http.mem_keys_iff, ← List.length_pos_iff, http.getAll_eq_iter, Grouping.length_valuesOf,
    List.count_pos_iff]

/-- The names of the entries are distinct exactly when no name has two values. -/
theorem nodup_iter_iff {m : http.HeaderMap} :
    ((http.iter m).map Prod.fst).Nodup ↔ ∀ n, (http.getAll m n).length ≤ 1 := by
  rw [Grouping.nodup_iff_length_valuesOf]
  exact forall_congr' fun n => by rw [http.getAll_eq_iter]

/-- The keys are the distinct names of the entries, in some order. -/
theorem perm_keys (m : http.HeaderMap) :
    (http.keys m).Perm ((http.iter m).map Prod.fst).dedup := by
  refine (List.perm_ext_iff_of_nodup (http.nodup_keys m) (List.nodup_dedup _)).mpr fun n => ?_
  rw [mem_keys_iff_mem_iter, List.mem_dedup]

/-- There are as many keys as entries exactly when no name is repeated. -/
theorem length_keys_eq_iff {m : http.HeaderMap} :
    (http.keys m).length = (http.iter m).length ↔ ((http.iter m).map Prod.fst).Nodup := by
  have hlen : ((http.iter m).map Prod.fst).length = (http.iter m).length := List.length_map _
  rw [(http.perm_keys m).length_eq, ← hlen, ← List.dedup_eq_self]
  exact ⟨(List.dedup_sublist _).eq_of_length, congrArg List.length⟩

/-- A number in range has a status code. -/
theorem exists_status {code : UInt16} (hcode : 100 ≤ code.toNat ∧ code.toNat ≤ 999) :
    ∃ status, http.statusFromU16 code = some status ∧ http.asU16 status = code := by
  obtain ⟨status, hstatus⟩ := Option.isSome_iff_exists.mp
    (http.statusFromU16_isSome_iff.mpr (show 100 ≤ code.toNat ∧ code.toNat < 1000 by omega))
  exact ⟨status, hstatus, http.asU16_of_statusFromU16 hstatus⟩

/-! ### Insertions and appends in a row -/

/-- Inserting pairs in order. -/
def insertPairs (m : http.HeaderMap) (ps : List (http.HeaderName × http.HeaderValue)) :
    http.HeaderMap :=
  ps.foldl (fun m p => http.insert m p.1 p.2) m

/-- Appending pairs in order. -/
def appendPairs (m : http.HeaderMap) (ps : List (http.HeaderName × http.HeaderValue)) :
    http.HeaderMap :=
  ps.foldl (fun m p => http.append m p.1 p.2) m

/-- **Inserting keeps the last**: under every name the map ends with the last value
inserted there, or with what it held before. -/
theorem getAll_insertPairs (ps : List (http.HeaderName × http.HeaderValue))
    (m : http.HeaderMap) (n : http.HeaderName) :
    http.getAll (http.insertPairs m ps) n =
      match (Grouping.valuesOf n ps).getLast? with
      | some v => [v]
      | none => http.getAll m n := by
  induction ps generalizing m with
  | nil => rfl
  | cons p ps ih =>
      have hcons : http.insertPairs m (p :: ps) =
          http.insertPairs (http.insert m p.1 p.2) ps := rfl
      rw [hcons, ih, http.getAll_insert, Grouping.valuesOf_cons]
      cases hlast : (Grouping.valuesOf n ps).getLast? with
      | some v =>
          by_cases hp : p.1 = n
          · simp [hp, List.getLast?_cons, hlast]
          · simp [hp, hlast]
      | none =>
          rw [List.getLast?_eq_none_iff.mp hlast]
          by_cases hp : p.1 = n
          · simp [hp]
          · simp [hp, Ne.symm hp]

/-- **Appending keeps all**: under every name the appended values follow what the map held
before, in order. -/
theorem getAll_appendPairs (ps : List (http.HeaderName × http.HeaderValue))
    (m : http.HeaderMap) (n : http.HeaderName) :
    http.getAll (http.appendPairs m ps) n = http.getAll m n ++ Grouping.valuesOf n ps := by
  induction ps generalizing m with
  | nil => exact (List.append_nil _).symm
  | cons p ps ih =>
      have hcons : http.appendPairs m (p :: ps) =
          http.appendPairs (http.append m p.1 p.2) ps := rfl
      rw [hcons, ih, http.getAll_append, Grouping.valuesOf_cons]
      by_cases hp : p.1 = n
      · simp [hp]
      · simp [hp, Ne.symm hp]

end Laws

/-! ### A reference instance -/

/-- Lower-casing a character of a token gives a character of a token, in lower case. -/
theorem lowerChar_token {c : Char} (h : isTokenChar c = true) :
    isTokenChar (Text.lowerChar c) = true ∧
      Text.lowerChar (Text.lowerChar c) = Text.lowerChar c :=
  forall_tokenChar (P := fun c => isTokenChar (Text.lowerChar c) = true ∧
    Text.lowerChar (Text.lowerChar c) = Text.lowerChar c) (by decide) h

theorem isToken_lower {s : Str} (h : isToken s = true) :
    isToken (Text.toAsciiLowercase s) = true ∧
      Text.toAsciiLowercase (Text.toAsciiLowercase s) = Text.toAsciiLowercase s := by
  constructor
  · have hne : (Text.toAsciiLowercase s).isEmpty = false := by
      rw [List.isEmpty_eq_false_iff, Text.toAsciiLowercase, Ne, List.map_eq_nil_iff]
      exact ne_nil_of_isToken h
    rw [isToken, hne, Bool.not_false, Bool.true_and, List.all_eq_true]
    intro c hc
    obtain ⟨d, hd, rfl⟩ := List.mem_map.mp hc
    exact (lowerChar_token (isTokenChar_of_mem h hd)).1
  · rw [Text.toAsciiLowercase, Text.toAsciiLowercase, List.map_map]
    refine List.map_congr_left fun d hd => ?_
    exact (lowerChar_token (isTokenChar_of_mem h hd)).2

/-- A header name of the reference instance: a token in lower case. -/
abbrev RefName := { s : Str // isToken s = true ∧ Text.toAsciiLowercase s = s }

/-- A header value of the reference instance: value bytes. -/
abbrev RefValue := { b : Bytes // b.all isValueByte = true }

/-- A status code of the reference instance. -/
abbrev RefStatus := { c : UInt16 // 100 ≤ c.toNat ∧ c.toNat < 1000 }

/-- A token, in lower case. -/
def refName (s : Str) : Option RefName :=
  if h : isToken s = true then some ⟨Text.toAsciiLowercase s, isToken_lower h⟩ else none

/-- ASCII bytes, read as a token. -/
def refNameFromBytes (b : Bytes) : Option RefName :=
  if b.all fun x => x.toNat < 128 then refName (Utf8.ofAscii b) else none

/-- Value bytes. -/
def refValue (b : Bytes) : Option RefValue :=
  if h : b.all isValueByte = true then some ⟨b, h⟩ else none

/-- The text of a value whose bytes are all visible. -/
def refToStr (v : RefValue) : Option Str :=
  if v.1.all isVisibleByte then some (Utf8.ofAscii v.1) else none

/-- A number in the range of status codes. -/
def refStatus (c : UInt16) : Option RefStatus :=
  if h : 100 ≤ c.toNat ∧ c.toNat < 1000 then some ⟨c, h⟩ else none

/-- The decimal form of a number in the range of status codes. -/
def refStatusFromStr (t : Str) : Option RefStatus :=
  if Nat.toDigits 10 (UInt16.ofNat (Nat.ofDigitChars 10 t 0)).toNat = t then
    refStatus (UInt16.ofNat (Nat.ofDigitChars 10 t 0))
  else none

theorem refNameFromBytes_encode (s : Str) : refName s = refNameFromBytes (Utf8.encode s) := by
  by_cases h : ∀ c ∈ s, c.toNat < 128
  · have hall : (Utf8.encode s).all (fun x => x.toNat < 128) = true := by
      rw [Utf8.encode_ascii h, List.all_eq_true]
      intro x hx
      obtain ⟨c, hc, rfl⟩ := List.mem_map.mp hx
      have hlt := h c hc
      rw [decide_eq_true_eq, UInt8.toNat_ofNat', Nat.mod_eq_of_lt (by omega)]
      exact hlt
    rw [refNameFromBytes, hall, if_pos rfl, Utf8.ofAscii_encode h]
  · have hall : (Utf8.encode s).all (fun x => x.toNat < 128) = false := by
      rw [Bool.eq_false_iff]
      intro hall
      refine h (Utf8.ascii_of_encode fun b hb => ?_)
      simpa using List.all_eq_true.mp hall b hb
    have htoken : ¬ isToken s = true := fun ht =>
      h fun c hc => isAscii_of_isTokenChar (isTokenChar_of_mem ht hc)
    rw [refNameFromBytes, hall, refName, dif_neg htoken]
    rfl

theorem refToStr_eq_some_iff {v : RefValue} {s : Str} :
    refToStr v = some s ↔ v.1 = Utf8.encode s ∧ ∀ x ∈ v.1, isVisibleByte x = true := by
  rw [refToStr]
  by_cases hall : v.1.all isVisibleByte = true
  · have hvis := List.all_eq_true.mp hall
    have hbytes : Utf8.encode (Utf8.ofAscii v.1) = v.1 :=
      Utf8.encode_ofAscii fun x hx => lt_of_isVisibleByte (hvis x hx)
    rw [if_pos hall, Option.some.injEq]
    constructor
    · rintro rfl
      exact ⟨hbytes.symm, hvis⟩
    · rintro ⟨hs, -⟩
      exact Utf8.encode_injective (hbytes.trans hs)
  · rw [if_neg hall]
    constructor
    · intro h
      simp at h
    · rintro ⟨-, hvis⟩
      exact absurd (List.all_eq_true.mpr hvis) hall

theorem refStatusFromStr_eq_some_iff {t : Str} {s : RefStatus} :
    refStatusFromStr t = some s ↔ t = Nat.toDigits 10 s.1.toNat := by
  rw [refStatusFromStr]
  constructor
  · intro h
    by_cases ht : Nat.toDigits 10 (UInt16.ofNat (Nat.ofDigitChars 10 t 0)).toNat = t
    · rw [if_pos ht, refStatus] at h
      by_cases hr : 100 ≤ (UInt16.ofNat (Nat.ofDigitChars 10 t 0)).toNat ∧
          (UInt16.ofNat (Nat.ofDigitChars 10 t 0)).toNat < 1000
      · rw [dif_pos hr, Option.some.injEq] at h
        rw [← h]
        exact ht.symm
      · rw [dif_neg hr] at h
        simp at h
    · rw [if_neg ht] at h
      simp at h
  · rintro rfl
    rw [Nat.ofDigitChars_ten_toDigits, UInt16.ofNat_toNat, if_pos rfl, refStatus,
      dif_pos s.2]

/-- **The laws are consistent**: header maps as lists of pairs, in order of insertion. -/
def reference : Http where
  HeaderName := RefName
  HeaderValue := RefValue
  HeaderMap := List (RefName × RefValue)
  StatusCode := RefStatus
  decEqName := inferInstance
  nameFromStr := refName
  nameFromBytes := refNameFromBytes
  asStr n := n.1
  valueFromStr s := refValue (Utf8.encode s)
  valueFromBytes := refValue
  valueBytes v := v.1
  toStr := refToStr
  statusOk := ⟨200, by decide⟩
  statusFromU16 := refStatus
  statusFromStr := refStatusFromStr
  asU16 s := s.1
  emptyMap := []
  insert m n v := m.filter (fun p => p.1 ≠ n) ++ [(n, v)]
  append m n v := m ++ [(n, v)]
  getAll m n := (m.filter fun p => p.1 = n).map Prod.snd
  keys m := (m.map Prod.fst).dedup
  iter m := m
  nameFromStr_eq := refNameFromBytes_encode
  token_of_nameFromStr := by
    intro s n h
    by_cases ht : isToken s = true
    · rw [refName, dif_pos ht, Option.some.injEq] at h
      exact ⟨ht, by rw [← h]⟩
    · rw [refName, dif_neg ht] at h
      simp at h
  nameFromStr_asStr := by
    intro n
    rw [refName, dif_pos n.2.1, Option.some.injEq]
    exact Subtype.ext n.2.2
  valueBytes_of_valueFromBytes := by
    intro b v h
    by_cases hb : b.all isValueByte = true
    · rw [refValue, dif_pos hb, Option.some.injEq] at h
      exact ⟨by rw [← h], List.all_eq_true.mp hb⟩
    · rw [refValue, dif_neg hb] at h
      simp at h
  valueFromBytes_valueBytes := by
    intro v
    rw [refValue, dif_pos v.2]
  valueFromBytes_of_valueFromStr := by
    intro s v h
    exact h
  toStr_eq_some_iff := refToStr_eq_some_iff
  asU16_statusOk := rfl
  statusFromU16_isSome_iff := by
    intro c
    by_cases hc : 100 ≤ c.toNat ∧ c.toNat < 1000
    · simp [refStatus, hc]
    · rw [refStatus, dif_neg hc]
      simp [hc]
  asU16_of_statusFromU16 := by
    intro c s h
    by_cases hc : 100 ≤ c.toNat ∧ c.toNat < 1000
    · rw [refStatus, dif_pos hc, Option.some.injEq] at h
      rw [← h]
    · rw [refStatus, dif_neg hc] at h
      simp at h
  statusFromU16_asU16 := by
    intro s
    rw [refStatus, dif_pos s.2]
  statusFromStr_eq_some_iff := refStatusFromStr_eq_some_iff
  getAll_emptyMap := by
    intro n
    rfl
  getAll_insert := by
    intro m n v k
    rw [List.filter_append, List.filter_filter, List.map_append]
    by_cases hk : k = n
    · subst hk
      have hnone : m.filter (fun p => decide (p.1 = k) && decide (p.1 ≠ k)) = [] := by
        refine List.filter_eq_nil_iff.mpr fun p _ => ?_
        simp
      rw [hnone, if_pos rfl]
      simp
    · have hsame : m.filter (fun p => decide (p.1 = k) && decide (p.1 ≠ n)) =
          m.filter fun p => decide (p.1 = k) := by
        refine List.filter_congr fun p _ => ?_
        by_cases hp : p.1 = k
        · simp [hp, hk]
        · simp [hp]
      rw [hsame, if_neg hk]
      simp [Ne.symm hk]
  getAll_append := by
    intro m n v k
    by_cases hk : k = n
    · simp [hk]
    · simp [hk, Ne.symm hk]
  mem_keys_iff := by
    intro m n
    rw [List.mem_dedup, Ne, List.map_eq_nil_iff, List.filter_eq_nil_iff, List.mem_map]
    constructor
    · rintro ⟨p, hp, rfl⟩ hnone
      exact hnone p hp (decide_eq_true rfl)
    · intro hsome
      by_contra hnone
      refine hsome fun p hp hpn => hnone ⟨p, hp, of_decide_eq_true hpn⟩
  nodup_keys := by
    intro m
    exact List.nodup_dedup _
  getAll_eq_iter := by
    intro m n
    rfl

/-- The header name `set-cookie`, which responses often repeat. -/
def setCookie : RefName := ⟨"set-cookie".toList, by decide⟩

end Http

end Wgi
