import Wgi.Segments

/-!
# String Functions of the Rust Standard Library

The functions of `str` that the programs modelled here call, on texts given as lists of
characters and following the library's documentation: `split_once` by a character and by a
string, `lines`, `trim_start`, and the ASCII case mappings.

## Main results

* `splitOnce_append`: the first occurrence decides where a text is split.
* `splitOnceList_append_block`: a block of nonempty lines holds no two adjacent delimiters.
* `splitOnceList_block`: in a block of nonempty lines closed by an empty one, the first
  pair of adjacent delimiters is the one that ends the block.
* `lines_intercalate`: joining lines and splitting them again is the identity.
-/

namespace Text

/-! ### Splitting once -/

section SplitOnce

variable {α : Type*}

/-- Lines, each ended by the delimiter. -/
def block (d : α) (ls : List (List α)) : List α :=
  ls.flatMap fun l => l ++ [d]

theorem block_cons (d : α) (l : List α) (ls : List (List α)) (s : List α) :
    block d (l :: ls) ++ s = l ++ d :: (block d ls ++ s) := by
  simp [block]

/-- A block of nonempty lines does not begin with the delimiter. -/
theorem head_block {d : α} {l : List α} {ls : List (List α)} (hne : l ≠ []) (hd : d ∉ l)
    (s : List α) : (block d (l :: ls) ++ s).head? ≠ some d := by
  rw [block_cons]
  rcases l with - | ⟨c, l⟩
  · exact absurd rfl hne
  · rw [List.cons_append, List.head?_cons, Ne, Option.some.injEq]
    rintro rfl
    exact hd List.mem_cons_self

variable [DecidableEq α]

/-- `split_once` by a character: what precedes and what follows its first occurrence. -/
def splitOnce (d : α) : List α → Option (List α × List α)
  | [] => none
  | c :: s => if c = d then some ([], s) else (splitOnce d s).map fun p => (c :: p.1, p.2)

/-- `split_once` by a string. -/
def splitOnceList (pat : List α) : List α → Option (List α × List α)
  | [] => if pat.isPrefixOf [] then some ([], []) else none
  | c :: s =>
      if pat.isPrefixOf (c :: s) then some ([], (c :: s).drop pat.length)
      else (splitOnceList pat s).map fun p => (c :: p.1, p.2)

/-- The first occurrence decides the split. -/
theorem splitOnce_append {d : α} {l : List α} (h : d ∉ l) (r : List α) :
    splitOnce d (l ++ d :: r) = some (l, r) := by
  induction l with
  | nil => simp [splitOnce]
  | cons c l ih =>
      rw [List.mem_cons, not_or] at h
      rw [List.cons_append, splitOnce, if_neg (Ne.symm h.1), ih h.2]
      rfl

/-- Looking for two adjacent delimiters, a delimiter-free line is passed over, together
with its delimiter unless another one follows. -/
theorem splitOnceList_line {d : α} {l : List α} (h : d ∉ l) (s : List α) :
    splitOnceList [d, d] (l ++ d :: s) =
      if s.head? = some d then some (l, s.tail)
      else (splitOnceList [d, d] s).map fun p => (l ++ d :: p.1, p.2) := by
  induction l with
  | nil =>
      rw [List.nil_append, splitOnceList]
      rcases s with - | ⟨c, s⟩
      · simp [List.isPrefixOf]
      · by_cases hc : c = d
        · simp [List.isPrefixOf, hc]
        · simp [List.isPrefixOf, hc, Ne.symm hc]
  | cons c l ih =>
      rw [List.mem_cons, not_or] at h
      have hpre : List.isPrefixOf [d, d] (c :: (l ++ d :: s)) = false := by
        simp [List.isPrefixOf, h.1]
      rw [List.cons_append, splitOnceList, hpre, ih h.2]
      by_cases hs : s.head? = some d
      · simp [hs]
      · simp [hs, Option.map_map, Function.comp_def]

/-- **Behind a block**: a nonempty list of nonempty lines holds no two adjacent delimiters,
so that the first pair of them is the end of the last line with what follows it, or lies in
what follows. -/
theorem splitOnceList_append_block {d : α} {ls : List (List α)} (hls : ls ≠ [])
    (hlines : ∀ l ∈ ls, l ≠ [] ∧ d ∉ l) (s : List α) :
    splitOnceList [d, d] (block d ls ++ s) =
      if s.head? = some d then some ([d].intercalate ls, s.tail)
      else (splitOnceList [d, d] s).map fun p => (block d ls ++ p.1, p.2) := by
  induction ls with
  | nil => exact absurd rfl hls
  | cons l ls ih =>
      obtain ⟨-, hd⟩ := hlines l List.mem_cons_self
      rw [block_cons, splitOnceList_line hd]
      rcases ls with - | ⟨m, ls⟩
      · simp [block]
      · obtain ⟨hm, hmd⟩ := hlines m (List.mem_cons_of_mem l List.mem_cons_self)
        rw [if_neg (head_block hm hmd s),
          ih (List.cons_ne_nil m ls) fun k hk => hlines k (List.mem_cons_of_mem l hk)]
        by_cases hs : s.head? = some d
        · simp [hs, List.intercalate_cons_cons]
        · simp [hs, Option.map_map, Function.comp_def, block_cons]

/-- **The end of a block**: after a nonempty list of nonempty lines, the first pair of
adjacent delimiters is the end of the last line and the empty line after it, whatever
follows. -/
theorem splitOnceList_block {d : α} {ls : List (List α)} (hls : ls ≠ [])
    (hlines : ∀ l ∈ ls, l ≠ [] ∧ d ∉ l) (s : List α) :
    splitOnceList [d, d] (block d ls ++ d :: s) = some ([d].intercalate ls, s) := by
  rw [splitOnceList_append_block hls hlines, List.head?_cons, if_pos rfl, List.tail_cons]

/-- The parts of a split make up the text. -/
theorem eq_of_splitOnceList {pat s a b : List α} (h : splitOnceList pat s = some (a, b)) :
    s = a ++ pat ++ b := by
  induction s generalizing a with
  | nil =>
      rw [splitOnceList] at h
      split at h
      · rename_i hpat
        obtain ⟨rfl, rfl⟩ := Prod.mk.inj (Option.some.inj h)
        rw [List.prefix_nil.mp (List.isPrefixOf_iff_prefix.mp hpat)]
        rfl
      · exact absurd h (by simp)
  | cons c s ih =>
      rw [splitOnceList] at h
      split at h
      · rename_i hpat
        obtain ⟨rfl, rfl⟩ := Prod.mk.inj (Option.some.inj h)
        obtain ⟨t, ht⟩ := List.isPrefixOf_iff_prefix.mp hpat
        rw [← ht, List.drop_left, List.nil_append]
      · obtain ⟨p, hp, heq⟩ := Option.map_eq_some_iff.mp h
        obtain ⟨rfl, rfl⟩ := Prod.mk.inj heq
        rw [ih hp]
        rfl

end SplitOnce

/-! ### Lines -/

/-- A line without the carriage return before its line feed. -/
def stripCr (l : List Char) : List Char :=
  if l.getLast? = some '\r' then l.dropLast else l

/-- `lines`: the lines of a text, which end in `\n` or `\r\n`; the last line ending is
optional, and a carriage return that no line feed follows belongs to its line. -/
def lines (s : List Char) : List (List Char) :=
  (Segments.complete '\n' s).map stripCr ++
    if (Segments.rest '\n' s).isEmpty then [] else [Segments.rest '\n' s]

theorem stripCr_of_notMem {l : List Char} (h : '\r' ∉ l) : stripCr l = l := by
  rw [stripCr, if_neg fun hl => h (List.mem_of_getLast? hl)]

/-- **Lines round trip**: nonempty lines without line feeds or carriage returns are the
lines of their join. -/
theorem lines_intercalate {ls : List (List Char)}
    (hlines : ∀ l ∈ ls, l ≠ [] ∧ '\n' ∉ l ∧ '\r' ∉ l) :
    lines (['\n'].intercalate ls) = ls := by
  rcases List.eq_nil_or_concat' ls with rfl | ⟨init, last, rfl⟩
  · rfl
  · have hlast := hlines last (List.mem_append_right _ List.mem_cons_self)
    have hinit : init.map stripCr = init := by
      refine (List.map_congr_left fun l hl => ?_).trans (List.map_id init)
      exact stripCr_of_notMem (hlines l (List.mem_append_left _ hl)).2.2
    obtain ⟨hc, hr⟩ := Segments.complete_rest_of_splitOn '\n'
      (List.splitOn_intercalate '\n' (fun l hl => (hlines l hl).2.1)
        (List.append_ne_nil_of_right_ne_nil init (List.cons_ne_nil last [])))
    have hempty : last.isEmpty = false := by
      rw [List.isEmpty_eq_false_iff]
      exact hlast.1
    rw [lines, hc, hr, hinit, hempty]
    rfl

/-! ### White space and ASCII case -/

/-- `char::is_whitespace`: the characters with the Unicode property `White_Space`. -/
def isWhitespace (c : Char) : Bool :=
  (9 ≤ c.toNat && c.toNat ≤ 13) || c.toNat == 0x20 || c.toNat == 0x85 || c.toNat == 0xA0 ||
    c.toNat == 0x1680 || (0x2000 ≤ c.toNat && c.toNat ≤ 0x200A) || c.toNat == 0x2028 ||
    c.toNat == 0x2029 || c.toNat == 0x202F || c.toNat == 0x205F || c.toNat == 0x3000

/-- `trim_start`. -/
def trimStart (s : List Char) : List Char :=
  s.dropWhile isWhitespace

/-- A space in front of a text that does not begin with white space is what `trim_start`
removes. -/
theorem trimStart_space {s : List Char} (h : ∀ c, s.head? = some c → isWhitespace c = false) :
    trimStart (' ' :: s) = s := by
  have hspace : isWhitespace ' ' = true := by decide
  rw [trimStart, List.dropWhile_cons_of_pos hspace]
  rcases s with - | ⟨c, s⟩
  · rfl
  · rw [List.dropWhile_cons_of_neg]
    rw [h c rfl]
    exact Bool.false_ne_true

/-- `char::is_ascii`. -/
def isAscii (c : Char) : Bool :=
  c.toNat < 128

theorem lt_of_isAscii {s : List Char} (h : s.all isAscii = true) : ∀ c ∈ s, c.toNat < 128 := by
  intro c hc
  exact of_decide_eq_true (List.all_eq_true.mp h c hc)

/-- `char::to_ascii_lowercase`. -/
def lowerChar (c : Char) : Char :=
  if 'A'.toNat ≤ c.toNat ∧ c.toNat ≤ 'Z'.toNat then Char.ofNat (c.toNat + 32) else c

/-- `char::to_ascii_uppercase`. -/
def upperChar (c : Char) : Char :=
  if 'a'.toNat ≤ c.toNat ∧ c.toNat ≤ 'z'.toNat then Char.ofNat (c.toNat - 32) else c

/-- `to_ascii_lowercase`. -/
def toAsciiLowercase (s : List Char) : List Char :=
  s.map lowerChar

/-- `to_ascii_uppercase`. -/
def toAsciiUppercase (s : List Char) : List Char :=
  s.map upperChar

/-- The case tables of Unicode, of which only the ASCII part is fixed here:
`to_lowercase` maps ASCII letters as `to_ascii_lowercase` does. -/
structure Unicode where
  toLowercase : List Char → List Char
  toLowercase_ascii : ∀ s, (∀ c ∈ s, c.toNat < 128) → toLowercase s = toAsciiLowercase s

/-- Case tables that leave every character outside ASCII alone. -/
def Unicode.ascii : Unicode where
  toLowercase := toAsciiLowercase
  toLowercase_ascii _ _ := rfl

end Text
