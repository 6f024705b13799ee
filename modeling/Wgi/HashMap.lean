import Mathlib.Data.List.AList
import Wgi.Grouping

/-!
# Hash Maps

A hash map has distinct keys and an enumeration order that the program cannot rely on.
`HashMap` is Mathlib's `AList`: its list of entries is *one* order in which the map may be
enumerated, and two hash maps whose entries are permutations of each other are the same
map enumerated twice. A statement about every enumeration order is a statement about
every hash map with the same entries up to `List.Perm`.

## Main results

* `exists_enumerate_eq`: every order of the entries is an enumeration order.
* `perm_insertAll`: inserting pairs with new and distinct keys adds exactly those pairs.
* `lookup_orInsertAll`: inserting only where a key is absent keeps the first value of every
  key.
* `Groups.isGrouping`: a map that holds the values of every key groups the pairs.
-/

/-- A hash map together with an enumeration order. -/
abbrev HashMap (κ ν : Type*) := AList fun _ : κ => ν

namespace HashMap

variable {κ ν : Type*}

/-- The key-value pairs, in the enumeration order. -/
def enumerate (m : HashMap κ ν) : List (κ × ν) :=
  m.entries.map fun e => (e.1, e.2)

@[simp] theorem enumerate_empty : (∅ : HashMap κ ν).enumerate = [] := rfl

/-- Reordering the entries reorders the enumeration. -/
theorem perm_enumerate {m n : HashMap κ ν} (h : m.entries.Perm n.entries) :
    m.enumerate.Perm n.enumerate :=
  h.map _

/-- **Every order of the entries is an enumeration order** of the map. -/
theorem exists_enumerate_eq {m : HashMap κ ν} {ps : List (κ × ν)} (h : ps.Perm m.enumerate) :
    ∃ n : HashMap κ ν, n.enumerate = ps ∧ n.entries.Perm m.entries := by
  obtain ⟨entries, rfl, hperm⟩ := Grouping.exists_map_of_perm h
  exact ⟨⟨entries, (List.perm_nodupKeys hperm).mpr m.nodupKeys⟩, rfl, hperm⟩

variable [DecidableEq κ]

/-- Inserting pairs in order. -/
def insertAll (m : HashMap κ ν) (ps : List (κ × ν)) : HashMap κ ν :=
  ps.foldl (fun m p => AList.insert p.1 p.2 m) m

/-- `entry(key).or_insert_with(|| value)`: insert unless the key is present. -/
def orInsert (m : HashMap κ ν) (key : κ) (value : ν) : HashMap κ ν :=
  if key ∈ m then m else AList.insert key value m

/-- **Inserting new keys** adds the pairs, and nothing else changes. -/
theorem perm_insertAll {ps : List (κ × ν)} {m : HashMap κ ν}
    (hnodup : (ps.map Prod.fst).Nodup) (hnew : ∀ p ∈ ps, p.1 ∉ m) :
    (m.insertAll ps).enumerate.Perm (ps ++ m.enumerate) := by
  induction ps generalizing m with
  | nil => exact List.Perm.refl _
  | cons p ps ih =>
      rw [List.map_cons, List.nodup_cons] at hnodup
      have hp : p.1 ∉ m := hnew p List.mem_cons_self
      have hentries : enumerate (AList.insert p.1 p.2 m) = p :: m.enumerate := by
        rw [enumerate, AList.entries_insert_of_notMem hp]
        rfl
      have hrest : ∀ q ∈ ps, q.1 ∉ (AList.insert p.1 p.2 m : HashMap κ ν) := by
        intro q hq hmem
        rcases (AList.mem_insert m).mp hmem with heq | hold
        · rw [← heq] at hnodup
          exact hnodup.1 (List.mem_map_of_mem hq)
        · exact hnew q (List.mem_cons_of_mem p hq) hold
      have hperm := ih hnodup.2 hrest
      rw [hentries] at hperm
      exact hperm.trans List.perm_middle

/-! ### The first value wins -/

/-- Inserting pairs in order, each unless its key is present. -/
def orInsertAll (m : HashMap κ ν) (ps : List (κ × ν)) : HashMap κ ν :=
  ps.foldl (fun m p => m.orInsert p.1 p.2) m

/-- Under its own key a value is inserted only if there was none; other keys are kept. -/
theorem lookup_orInsert (m : HashMap κ ν) (key : κ) (value : ν) (k : κ) :
    (m.orInsert key value).lookup k =
      if key = k then (m.lookup k).or (some value) else m.lookup k := by
  rw [orInsert]
  by_cases hk : key = k
  · subst hk
    rw [if_pos rfl]
    by_cases hmem : key ∈ m
    · obtain ⟨old, hold⟩ := Option.isSome_iff_exists.mp (AList.lookup_isSome.mpr hmem)
      rw [if_pos hmem, hold]
      rfl
    · rw [if_neg hmem, AList.lookup_insert, AList.lookup_eq_none.mpr hmem]
      rfl
  · rw [if_neg hk]
    by_cases hmem : key ∈ m
    · rw [if_pos hmem]
    · rw [if_neg hmem, AList.lookup_insert_ne (Ne.symm hk)]

/-- **The first value wins**: what was there stays, and otherwise a key gets its first
value. -/
theorem lookup_orInsertAll (ps : List (κ × ν)) (m : HashMap κ ν) (k : κ) :
    (m.orInsertAll ps).lookup k = (m.lookup k).or (Grouping.valuesOf k ps).head? := by
  induction ps generalizing m with
  | nil => exact (Option.or_none).symm
  | cons p ps ih =>
      have hcons : m.orInsertAll (p :: ps) = (m.orInsert p.1 p.2).orInsertAll ps := rfl
      rw [hcons, ih, lookup_orInsert, Grouping.valuesOf_cons]
      by_cases hp : p.1 = k
      · rw [if_pos hp, if_pos hp, Option.or_assoc]
        rfl
      · rw [if_neg hp, if_neg hp]

/-! ### Maps of groups -/

/-- A map holds, under every key of the pairs, all values of the key in order, and has no
other key. -/
def Groups (m : HashMap κ (List ν)) (ps : List (κ × ν)) : Prop :=
  ∀ k, m.lookup k =
    if Grouping.valuesOf k ps = [] then none else some (Grouping.valuesOf k ps)

theorem mem_enumerate_iff {m : HashMap κ ν} {p : κ × ν} :
    p ∈ m.enumerate ↔ m.lookup p.1 = some p.2 := by
  rw [← Option.mem_def, AList.mem_lookup_iff, enumerate, List.mem_map]
  constructor
  · rintro ⟨e, he, rfl⟩
    exact he
  · intro he
    exact ⟨⟨p.1, p.2⟩, he, rfl⟩

/-- The enumeration of a map of groups groups the pairs. -/
theorem Groups.isGrouping {m : HashMap κ (List ν)} {ps : List (κ × ν)} (h : m.Groups ps) :
    Grouping.IsGrouping m.enumerate ps := by
  refine ⟨?_, fun g hg => ?_, fun p hp => ?_⟩
  · have hkeys : m.enumerate.map Prod.fst = m.keys := by
      rw [enumerate, List.map_map]
      rfl
    rw [hkeys]
    exact m.nodupKeys
  · rw [mem_enumerate_iff, h] at hg
    by_cases hnil : Grouping.valuesOf g.1 ps = []
    · rw [if_pos hnil] at hg
      exact absurd hg (by simp)
    · rw [if_neg hnil, Option.some.injEq] at hg
      exact hg.symm
  · have hne : Grouping.valuesOf p.1 ps ≠ [] :=
      List.ne_nil_of_mem (Grouping.mem_valuesOf.mpr hp)
    refine ⟨(p.1, Grouping.valuesOf p.1 ps), mem_enumerate_iff.mpr ?_, rfl⟩
    rw [h, if_neg hne]

end HashMap
