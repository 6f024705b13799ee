import Wgi.Fallible
import Wgi.Lossy
import Wgi.Text

/-!
# Form-Urlencoded Queries

A query is a sequence of parts joined by `&`; a part is a name and a value joined by its
first `=`. In either of them `+` stands for a space and `%` with two hexadecimal digits
for a byte.

The decoder is a crate and a parameter; `Urlencoded` is what is relied on. A name or a value
that has nothing to decode is handed out as a borrowed string, and any other one as an owned
string, the bytes of which are decoded lossily. A target that can only borrow, such as `&str`,
rejects owned strings.

## Main results

* `unescape_of_not_hasEscape`: a part that is borrowed is its own decoding.
* `fromStr_eq_some_iff`: a query is read exactly when no name in it has something escaped,
  and then every name and every value is decoded.
-/

/-- A string that is borrowed from the text it was found in, or owned. -/
inductive Cow where
  | borrowed (text : List Char)
  | owned (text : List Char)
  deriving DecidableEq, Repr

namespace Cow

/-- The text of a string, borrowed or owned. -/
def text : Cow → List Char
  | borrowed text => text
  | owned text => text

/-- The text as a `&str`: only a borrowed string has one. -/
def asBorrowed : Cow → Option (List Char)
  | borrowed text => some text
  | owned _ => none

end Cow

namespace Urlencoded

/-- A hexadecimal digit. -/
def isHexDigit (c : Char) : Bool :=
  (48 ≤ c.toNat && c.toNat ≤ 57) || (65 ≤ c.toNat && c.toNat ≤ 70) ||
    (97 ≤ c.toNat && c.toNat ≤ 102)

/-- A text begins with two hexadecimal digits. -/
def startsWithHex : List Char → Bool
  | a :: b :: _ => isHexDigit a && isHexDigit b
  | _ => false

/-- Something in the text is escaped: it has a `+`, or a `%` before two hexadecimal
digits. -/
def hasEscape : List Char → Bool
  | [] => false
  | c :: s => c == '+' || (c == '%' && startsWithHex s) || hasEscape s

/-! ### What a query stands for -/

/-- The nonempty parts of a query. -/
def parts (query : List Char) : List (List Char) :=
  (query.splitOn '&').filter fun s => !s.isEmpty

/-- The name and the value of one part, as they are written. -/
def nameValue (s : List Char) : List Char × List Char :=
  (Text.splitOnce '=' s).getD (s, [])

/-- The names of a query, as they are written. -/
def names (query : List Char) : List (List Char) :=
  (parts query).map fun s => (nameValue s).1

/-- The value of a hexadecimal digit. -/
def hexValue (c : Char) : ℕ :=
  if c.toNat ≤ 57 then c.toNat - 48 else if c.toNat ≤ 70 then c.toNat - 55 else c.toNat - 87

/-- The bytes a name or a value stands for. -/
def unescape : List Char → List UInt8
  | [] => []
  | '+' :: s => 32 :: unescape s
  | '%' :: a :: b :: s =>
      if isHexDigit a && isHexDigit b then
        UInt8.ofNat (16 * hexValue a + hexValue b) :: unescape s
      else 37 :: unescape (a :: b :: s)
  | c :: s => String.utf8EncodeChar c ++ unescape s

/-- **Nothing escaped, nothing to decode**: the bytes are those of the text. -/
theorem unescape_of_not_hasEscape {s : List Char} (h : hasEscape s = false) :
    unescape s = Utf8.encode s := by
  fun_induction unescape s with
  | case1 => rfl
  | case2 s ih => simp [hasEscape] at h
  | case3 a b s hx ih => simp [hasEscape, startsWithHex, hx] at h
  | case4 a b s hx ih =>
      rw [hasEscape, Bool.or_eq_false_iff] at h
      rw [ih h.2]
      rfl
  | case5 c s h1 h2 ih =>
      rw [hasEscape, Bool.or_eq_false_iff] at h
      rw [ih h.2]
      rfl

/-- The decoding of a name or a value. -/
def decode (s : List Char) : List Char :=
  Utf8.lossy (unescape s)

theorem decode_of_not_hasEscape {s : List Char} (h : hasEscape s = false) : decode s = s := by
  rw [decode, unescape_of_not_hasEscape h, Utf8.lossy_encode]

/-- The form-urlencoded decoding of a query: the decoded name and the decoded value of
every nonempty part. -/
def decoding (query : List Char) : List (List Char × List Char) :=
  (parts query).map fun s => (decode (nameValue s).1, decode (nameValue s).2)

end Urlencoded

/-! ### The decoder -/

open Urlencoded in
/-- `form_urlencoded` and `serde_urlencoded`. -/
structure Urlencoded where
  /-- A name or a value, decoded. -/
  part : List Char → Cow
  /-- `serde_urlencoded::from_str::<Vec<(&str, Cow<str>)>>`. -/
  fromStr : List Char → Option (List (List Char × List Char))
  part_plain {s : List Char} : hasEscape s = false → part s = .borrowed s
  part_escaped {s : List Char} : hasEscape s = true → part s = .owned (decode s)
  /-- The pairs of a query, each with a name that is borrowed and a value of either kind. -/
  fromStr_eq (query : List Char) : fromStr query = (parts query).mapM fun s =>
    (part (nameValue s).1).asBorrowed.map fun key => (key, (part (nameValue s).2).text)

namespace Urlencoded

/-- The decoder that does no more than that. -/
def reference : Urlencoded where
  part s := if hasEscape s then .owned (decode s) else .borrowed s
  fromStr query := (parts query).mapM fun s =>
    (if hasEscape (nameValue s).1 then Cow.owned (decode (nameValue s).1)
      else .borrowed (nameValue s).1).asBorrowed.map fun key =>
        (key, (if hasEscape (nameValue s).2 then Cow.owned (decode (nameValue s).2)
          else .borrowed (nameValue s).2).text)
  part_plain h := by rw [h, if_neg Bool.false_ne_true]
  part_escaped h := by rw [h, if_pos rfl]
  fromStr_eq _ := rfl

variable {form : Urlencoded}

/-- Borrowed or owned, a part has the text it stands for. -/
theorem text_part (form : Urlencoded) (s : List Char) : (form.part s).text = decode s := by
  cases h : hasEscape s with
  | true => rw [form.part_escaped h, Cow.text]
  | false => rw [form.part_plain h, Cow.text, decode_of_not_hasEscape h]

/-- A `&str` takes a part exactly when nothing in it is escaped. -/
theorem asBorrowed_part_eq_some_iff {s t : List Char} :
    (form.part s).asBorrowed = some t ↔ hasEscape s = false ∧ s = t := by
  cases h : hasEscape s with
  | true => simp [form.part_escaped h, Cow.asBorrowed]
  | false => simp [form.part_plain h, Cow.asBorrowed]

/-- One part of a query is read exactly when nothing in its name is escaped, and it is read
as it is decoded. -/
theorem readPair_eq_some_iff {s : List Char} {q : List Char × List Char} :
    ((form.part (nameValue s).1).asBorrowed.map
        fun key => (key, (form.part (nameValue s).2).text)) = some q ↔
      hasEscape (nameValue s).1 = false ∧
        q = (decode (nameValue s).1, decode (nameValue s).2) := by
  rw [text_part, Option.map_eq_some_iff]
  constructor
  · rintro ⟨key, hkey, rfl⟩
    obtain ⟨hname, rfl⟩ := asBorrowed_part_eq_some_iff.mp hkey
    rw [decode_of_not_hasEscape hname]
    exact ⟨hname, rfl⟩
  · rintro ⟨hname, rfl⟩
    refine ⟨_, asBorrowed_part_eq_some_iff.mpr ⟨hname, rfl⟩, ?_⟩
    rw [decode_of_not_hasEscape hname]

/-- **Which queries are read**: those whose names have nothing escaped, and they are read
as they are decoded. -/
theorem fromStr_eq_some_iff {query : List Char} {qs : List (List Char × List Char)} :
    form.fromStr query = some qs ↔
      (∀ name ∈ names query, hasEscape name = false) ∧ qs = decoding query := by
  rw [form.fromStr_eq, Fallible.mapM_eq_some_iff, names, decoding, List.forall_mem_map]
  induction parts query generalizing qs with
  | nil => simp
  | cons s ss ih =>
      rw [List.forall₂_cons_left_iff, List.forall_mem_cons, List.map_cons]
      constructor
      · rintro ⟨q, qs, hq, hqs, rfl⟩
        obtain ⟨hname, rfl⟩ := readPair_eq_some_iff.mp hq
        obtain ⟨hnames, rfl⟩ := ih.mp hqs
        exact ⟨⟨hname, hnames⟩, rfl⟩
      · rintro ⟨⟨hname, hnames⟩, rfl⟩
        exact ⟨_, _, readPair_eq_some_iff.mpr ⟨hname, rfl⟩, ih.mpr ⟨hnames, rfl⟩, rfl⟩

end Urlencoded
