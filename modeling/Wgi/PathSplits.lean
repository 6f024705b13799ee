import Wgi.Basic
import Wgi.Utf8

/-!
# Splitting a Request Path into Script and Rest

`iter_path_splits` enumerates the ways a request path can name a script followed by extra
path: at every `/` after the leading one, and once with the whole path as the script. It
works on bytes: it looks for the byte `b'/'` and slices the string at that offset, so each
of its slices could panic if the offset were inside a character.

The source has the function twice, once in each handler module, with the same body.

## Main results

* `iterPathSplits_eq`: no slice panics, and the items are the splits of the path without
  its leading slash.
* `mem_splits`, `pairwise_splits`: which pairs are enumerated, and in which order.
* `iterPathSplits_enumerates`: the whole enumeration, for both copies of the function.
-/

namespace Wgi

/-- The byte `b'/'`. -/
def slash : UInt8 := 47

/-- `&s[..i]`. -/
def sliceTo (s : Str) (i : ℕ) : Except Panic Str :=
  unwrapAt .strSlice ((Utf8.splitAtByte s i).map Prod.fst)

/-- `&s[i..]`. -/
def sliceFrom (s : Str) (i : ℕ) : Except Panic Str :=
  unwrapAt .strSlice ((Utf8.splitAtByte s i).map Prod.snd)

/-- The first statement of `iter_path_splits`: `path = &path[1..]` when the first byte is
a slash. -/
def stripSlash (path : Str) : Except Panic Str :=
  if (Utf8.encode path)[0]? = some slash then sliceFrom path 1 else .ok path

/-- `iter_path_splits`. The outer result is the slice that drops the leading slash; the
iterator then slices lazily, so every item has a result of its own. -/
def iterPathSplits (path : Str) : Except Panic (List (Except Panic (Str × Str))) := do
  let path ← stripSlash path
  let items := ((Utf8.encode path).zipIdx.filter fun (b, _) => b == slash).map
    fun (_, i) => do
      let script ← sliceTo path i
      let rest ← sliceFrom path i
      pure (script, rest)
  pure (items ++ [.ok (path, [])])

/-- `iter_path_splits` of `cgi.rs`. -/
def Cgi.iterPathSplits (path : Str) : Except Panic (List (Except Panic (Str × Str))) :=
  Wgi.iterPathSplits path

/-- `iter_path_splits` of `lambda.rs`. -/
def Lambda.iterPathSplits (path : Str) : Except Panic (List (Except Panic (Str × Str))) :=
  Wgi.iterPathSplits path

/-! ### What the iterator enumerates -/

/-- The path without its leading slash, if it has one. -/
def dropSlash : Str → Str
  | [] => []
  | c :: path => if c = '/' then path else c :: path

/-- The splits of a path before each slash, and the split with nothing after the script. -/
def splits (path : Str) : List (Str × Str) :=
  Utf8.splitsBefore '/' path ++ [(path, [])]

/-- The candidates a handler tries for a request path, in order. -/
def candidates (path : Str) : List (Str × Str) :=
  splits (dropSlash path)

/-- The first byte of a path is the slash exactly when its first character is. -/
theorem encode_head_eq_slash_iff (c : Char) (path : Str) :
    (Utf8.encode (c :: path))[0]? = some slash ↔ c = '/' := by
  constructor
  · intro h
    refine Utf8.byte_of_mem_encodeChar (a := '/') (by decide) ?_
    rw [Utf8.encode_cons, List.getElem?_append_left
      (by rw [String.length_utf8EncodeChar]; exact c.utf8Size_pos)] at h
    exact List.mem_of_getElem? h
  · rintro rfl
    rfl

/-- Dropping the leading slash never slices inside a character. -/
theorem stripSlash_eq (path : Str) : stripSlash path = .ok (dropSlash path) := by
  cases path with
  | nil => rfl
  | cons c path =>
      by_cases hc : c = '/'
      · have hcut := Utf8.splitAtByte_cons_add '/' path 0
        have hsize : 0 + '/'.utf8Size = 1 := rfl
        rw [hsize, Utf8.splitAtByte_zero] at hcut
        rw [stripSlash, if_pos ((encode_head_eq_slash_iff c path).mpr hc), hc, sliceFrom, hcut,
          dropSlash, if_pos rfl]
        rfl
      · rw [stripSlash, if_neg fun h => hc ((encode_head_eq_slash_iff c path).mp h), dropSlash,
          if_neg hc]

/-- The items of the iterator, before the last one, are the splits before each slash. -/
theorem items_eq (path : Str) :
    ((Utf8.encode path).zipIdx.filter fun (b, _) => b == slash).map
        (fun (_, i) => do
          let script ← sliceTo path i
          let rest ← sliceFrom path i
          pure (script, rest)) =
      (Utf8.splitsBefore '/' path).map (Except.ok (ε := Panic)) := by
  have hcut : ∀ i, (do
      let script ← sliceTo path i
      let rest ← sliceFrom path i
      pure (script, rest) : Except Panic (Str × Str)) =
        unwrapAt .strSlice (Utf8.splitAtByte path i) := by
    intro i
    rw [sliceTo, sliceFrom]
    cases Utf8.splitAtByte path i <;> rfl
  have hmap := congrArg (List.map (unwrapAt .strSlice))
    (Utf8.splitAtByte_offsets (a := '/') (by decide) path)
  simp only [hcut]
  rw [List.map_map, List.map_map, Utf8.offsets, List.map_map] at hmap
  exact hmap

/-- **No slice panics**: the iterator yields the candidates of the path. -/
theorem iterPathSplits_eq (path : Str) :
    iterPathSplits path = .ok ((candidates path).map .ok) := by
  rw [iterPathSplits, stripSlash_eq]
  simp only [bind, Except.bind, pure, Except.pure]
  have hitems := items_eq (dropSlash path)
  simp only [bind, Except.bind, pure, Except.pure] at hitems
  rw [hitems, candidates, splits, List.map_append, List.map_singleton]

/-- **Which splits there are**: the script and the rest make up the path, and the rest is
empty or starts at a slash. -/
theorem mem_splits {path script rest : Str} :
    (script, rest) ∈ splits path ↔
      script ++ rest = path ∧ (rest = [] ∨ rest.head? = some '/') := by
  rw [splits, List.mem_append, List.mem_singleton, Utf8.mem_splitsBefore, Prod.mk.injEq]
  constructor
  · rintro (⟨h, hr⟩ | ⟨rfl, rfl⟩)
    · exact ⟨h, Or.inr hr⟩
    · exact ⟨List.append_nil _, Or.inl rfl⟩
  · rintro ⟨h, rfl | hr⟩
    · exact Or.inr ⟨by rw [← h, List.append_nil], rfl⟩
    · exact Or.inl ⟨h, hr⟩

/-- The scripts come in strictly increasing length. -/
theorem pairwise_splits (path : Str) :
    (splits path).Pairwise fun p q => p.1.length < q.1.length := by
  refine List.pairwise_append.mpr
    ⟨Utf8.pairwise_splitsBefore '/' path, List.pairwise_singleton _ _, ?_⟩
  rintro ⟨script, rest⟩ hp q hq
  rw [List.mem_singleton.mp hq]
  obtain ⟨hsplit, hr⟩ := Utf8.mem_splitsBefore.mp hp
  have hne : rest ≠ [] := by
    rintro rfl
    simp at hr
  have hpos : 0 < rest.length := List.length_pos_iff.mpr hne
  have hlen : path.length = script.length + rest.length := by
    rw [← hsplit, List.length_append]
  change script.length < path.length
  omega

/-- So they do when their bytes are counted. -/
theorem pairwise_encode_splits (path : Str) :
    (splits path).Pairwise fun p q => (Utf8.encode p.1).length < (Utf8.encode q.1).length := by
  refine (pairwise_splits path).imp_of_mem fun hp hq hlt => ?_
  exact Utf8.length_encode_lt (mem_splits.mp hp).1 (mem_splits.mp hq).1 hlt

/-- There is always a candidate: the whole path. -/
theorem splits_ne_nil (path : Str) : splits path ≠ [] :=
  List.append_ne_nil_of_right_ne_nil _ (List.cons_ne_nil _ _)

/-- The number of splits: one for each slash, and the whole path. -/
theorem length_splits (path : Str) :
    (splits path).length = 1 + path.countP fun c => c = '/' := by
  rw [splits, List.length_append, Utf8.length_splitsBefore, List.length_singleton, Nat.add_comm]

/-- **The enumeration of a path.** Both copies of `iter_path_splits` return, and none of
the items they yield is a panic. The items are the pairs that make up the path without its
leading slash and whose second part is empty or begins with a slash. Each is yielded once,
a shorter first part, in characters and in bytes, before a longer one, and the whole path
last. There is one more than there are slashes. -/
theorem iterPathSplits_enumerates (path : Str) :
    ∃ items : List (Str × Str),
      Cgi.iterPathSplits path = .ok (items.map .ok) ∧
      Lambda.iterPathSplits path = .ok (items.map .ok) ∧
      (∀ a b, (a, b) ∈ items ↔ a ++ b = dropSlash path ∧ (b = [] ∨ b.head? = some '/')) ∧
      items.Nodup ∧
      items.Pairwise (fun p q => p.1.length < q.1.length) ∧
      items.Pairwise (fun p q => (Utf8.encode p.1).length < (Utf8.encode q.1).length) ∧
      items.getLast? = some (dropSlash path, []) ∧
      items.length = 1 + (dropSlash path).countP fun c => c = '/' := by
  have hnodup : (candidates path).Nodup := by
    refine (pairwise_splits (dropSlash path)).imp ?_
    rintro p q hlt rfl
    exact Nat.lt_irrefl _ hlt
  have hlast : (candidates path).getLast? = some (dropSlash path, []) := by
    rw [candidates, splits, List.getLast?_concat]
  exact ⟨candidates path, iterPathSplits_eq path, iterPathSplits_eq path, fun _ _ => mem_splits,
    hnodup, pairwise_splits _, pairwise_encode_splits _, hlast, length_splits _⟩

end Wgi
