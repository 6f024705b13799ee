import Mathlib.Data.List.Perm.Basic
import Mathlib.Data.List.Nodup

/-!
# Grouping Pairs by Key

A list of key-value pairs in which keys may repeat is a multimap: under every key it keeps
the values in their order. `valuesOf` reads the values of one key, `ungroup` flattens a
list of groups back into pairs, and `IsGrouping` says that a list of groups collects the
pairs of a list under their keys.

## Main results

* `valuesOf_ungroup_of_mem`: flattening groups with distinct keys keeps every group.
* `IsGrouping.perm`: grouping only reorders; no pair is lost and none is added.
* `IsGrouping.length_values`: so the groups hold as many values as there are pairs.
* `valuesOf_ungroup_perm_iff`: when groups that share a key can be flattened in any order.
-/

namespace Grouping

variable {κ ν : Type*}

/-- An order of the images of a list comes from an order of the list. -/
theorem exists_map_of_perm {α β : Type*} {f : α → β} {l : List β} {as : List α}
    (h : l.Perm (as.map f)) : ∃ bs : List α, l = bs.map f ∧ bs.Perm as := by
  have hcomp : Relation.Comp (· = List.map f ·) List.Perm l as := by
    rw [List.eq_map_comp_perm]
    exact h
  exact hcomp

/-- The pairs of a list of groups. -/
def ungroup (gs : List (κ × List ν)) : List (κ × ν) :=
  gs.flatMap fun g => g.2.map fun v => (g.1, v)

theorem ungroup_cons (g : κ × List ν) (gs : List (κ × List ν)) :
    ungroup (g :: gs) = (g.2.map fun v => (g.1, v)) ++ ungroup gs := rfl

variable [DecidableEq κ]

/-- The values under a key, in order. -/
def valuesOf (k : κ) (ps : List (κ × ν)) : List ν :=
  (ps.filter fun p => p.1 = k).map Prod.snd

@[simp] theorem valuesOf_nil (k : κ) : valuesOf k ([] : List (κ × ν)) = [] := rfl

theorem valuesOf_cons (k : κ) (p : κ × ν) (ps : List (κ × ν)) :
    valuesOf k (p :: ps) = if p.1 = k then p.2 :: valuesOf k ps else valuesOf k ps := by
  rw [valuesOf, List.filter_cons]
  by_cases hp : p.1 = k
  · simp [hp, valuesOf]
  · simp [hp, valuesOf]

@[simp] theorem valuesOf_append (k : κ) (ps qs : List (κ × ν)) :
    valuesOf k (ps ++ qs) = valuesOf k ps ++ valuesOf k qs := by
  rw [valuesOf, List.filter_append, List.map_append]
  rfl

theorem mem_valuesOf {k : κ} {v : ν} {ps : List (κ × ν)} :
    v ∈ valuesOf k ps ↔ (k, v) ∈ ps := by
  rw [valuesOf, List.mem_map]
  constructor
  · rintro ⟨⟨k', v'⟩, hp, rfl⟩
    obtain ⟨hmem, hkey⟩ := List.mem_filter.mp hp
    rw [← of_decide_eq_true hkey]
    exact hmem
  · intro hp
    exact ⟨(k, v), List.mem_filter.mpr ⟨hp, decide_eq_true rfl⟩, rfl⟩

/-- A key has no values exactly when it is the key of no pair. -/
theorem valuesOf_eq_nil_iff {k : κ} {ps : List (κ × ν)} :
    valuesOf k ps = [] ↔ ∀ p ∈ ps, p.1 ≠ k := by
  rw [valuesOf, List.map_eq_nil_iff, List.filter_eq_nil_iff]
  refine forall₂_congr fun p _ => ?_
  rw [decide_eq_true_eq]

/-- A key has as many values as it has occurrences. -/
theorem length_valuesOf (k : κ) (ps : List (κ × ν)) :
    (valuesOf k ps).length = (ps.map Prod.fst).count k := by
  induction ps with
  | nil => rfl
  | cons p ps ih =>
      rw [valuesOf_cons, List.map_cons, List.count_cons, ← ih]
      by_cases hp : p.1 = k
      · simp [hp]
      · simp [hp]

/-- The keys are distinct exactly when none of them has two values. -/
theorem nodup_iff_length_valuesOf {ps : List (κ × ν)} :
    (ps.map Prod.fst).Nodup ↔ ∀ k, (valuesOf k ps).length ≤ 1 := by
  rw [List.nodup_iff_count_le_one]
  exact forall_congr' fun k => by rw [length_valuesOf]

/-- With distinct keys every pair is alone under its key. -/
theorem valuesOf_of_nodup {ps : List (κ × ν)} (hnodup : (ps.map Prod.fst).Nodup) {p : κ × ν}
    (hp : p ∈ ps) : valuesOf p.1 ps = [p.2] := by
  induction ps with
  | nil => exact absurd hp List.not_mem_nil
  | cons q ps ih =>
      rw [List.map_cons, List.nodup_cons] at hnodup
      rw [valuesOf_cons]
      rcases List.mem_cons.mp hp with rfl | hmem
      · have hrest : valuesOf p.1 ps = [] := by
          refine valuesOf_eq_nil_iff.mpr fun r hr heq => hnodup.1 ?_
          rw [← heq]
          exact List.mem_map_of_mem hr
        rw [if_pos rfl, hrest]
      · have hne : ¬ q.1 = p.1 := by
          intro heq
          rw [heq] at hnodup
          exact hnodup.1 (List.mem_map_of_mem hmem)
        rw [if_neg hne, ih hnodup.2 hmem]

/-- The pairs with one key have the values of that key. -/
theorem filter_eq_map_valuesOf (k : κ) (ps : List (κ × ν)) :
    (ps.filter fun p => p.1 = k) = (valuesOf k ps).map fun v => (k, v) := by
  induction ps with
  | nil => rfl
  | cons p ps ih =>
      rw [List.filter_cons, valuesOf_cons]
      by_cases hp : p.1 = k
      · subst hp
        simp [ih]
      · simp [hp, ih]

/-- Values under one key: all of them for that key, none for another. -/
theorem valuesOf_map_mk (k l : κ) (vs : List ν) :
    valuesOf k (vs.map fun v => (l, v)) = if l = k then vs else [] := by
  induction vs with
  | nil => simp
  | cons v vs ih =>
      rw [List.map_cons, valuesOf_cons, ih]
      by_cases hl : l = k
      · simp [hl]
      · simp [hl]

/-- Mapping the values maps those of every key. -/
theorem valuesOf_map_snd {μ : Type*} (f : ν → μ) (k : κ) (ps : List (κ × ν)) :
    valuesOf k (ps.map fun p => (p.1, f p.2)) = (valuesOf k ps).map f := by
  induction ps with
  | nil => rfl
  | cons p ps ih =>
      rw [List.map_cons, valuesOf_cons, valuesOf_cons, ih]
      by_cases hp : p.1 = k
      · simp [hp]
      · simp [hp]

/-- The values under a key, group by group. -/
theorem valuesOf_ungroup (k : κ) (gs : List (κ × List ν)) :
    valuesOf k (ungroup gs) = (valuesOf k gs).flatten := by
  induction gs with
  | nil => rfl
  | cons g gs ih =>
      rw [ungroup_cons, valuesOf_append, valuesOf_map_mk, ih, valuesOf_cons]
      by_cases hg : g.1 = k
      · rw [if_pos hg, if_pos hg, List.flatten_cons]
      · rw [if_neg hg, if_neg hg, List.nil_append]

/-- **Flattening keeps every group** when the keys are distinct. -/
theorem valuesOf_ungroup_of_mem {gs : List (κ × List ν)} (hnodup : (gs.map Prod.fst).Nodup)
    {g : κ × List ν} (hg : g ∈ gs) : valuesOf g.1 (ungroup gs) = g.2 := by
  rw [valuesOf_ungroup, valuesOf_of_nodup hnodup hg, List.flatten_singleton]

/-- A key of no group has no values. -/
theorem valuesOf_ungroup_of_notMem {k : κ} {gs : List (κ × List ν)}
    (h : ∀ g ∈ gs, g.1 ≠ k) : valuesOf k (ungroup gs) = [] := by
  rw [valuesOf_ungroup, valuesOf_eq_nil_iff.mpr h, List.flatten_nil]

/-- Groups that collect the pairs of a list: the keys are distinct, every group holds all
values of its key in order, and every pair has its group. -/
structure IsGrouping (gs : List (κ × List ν)) (ps : List (κ × ν)) : Prop where
  nodup : (gs.map Prod.fst).Nodup
  values : ∀ g ∈ gs, g.2 = valuesOf g.1 ps
  covers : ∀ p ∈ ps, ∃ g ∈ gs, g.1 = p.1

/-- **Grouping only reorders**: the pairs of the groups are those of the list. -/
theorem IsGrouping.perm {gs : List (κ × List ν)} {ps : List (κ × ν)} (h : IsGrouping gs ps) :
    (ungroup gs).Perm ps := by
  induction gs generalizing ps with
  | nil =>
      have hps : ps = [] := by
        refine List.eq_nil_iff_forall_not_mem.mpr fun p hp => ?_
        obtain ⟨g, hg, -⟩ := h.covers p hp
        exact absurd hg List.not_mem_nil
      rw [hps]
      exact List.Perm.nil
  | cons g gs ih =>
      have hnodup := h.nodup
      rw [List.map_cons, List.nodup_cons] at hnodup
      -- the pairs with the key of `g` form its group; the other groups collect the rest
      have hgroup : (g.2.map fun v => (g.1, v)) = ps.filter fun p => p.1 = g.1 := by
        rw [filter_eq_map_valuesOf, h.values g List.mem_cons_self]
      have hrest : IsGrouping gs (ps.filter fun p => !decide (p.1 = g.1)) := by
        refine ⟨hnodup.2, fun k hk => ?_, fun p hp => ?_⟩
        · have hne : k.1 ≠ g.1 := fun heq =>
            hnodup.1 (heq ▸ List.mem_map_of_mem hk)
          rw [h.values k (List.mem_cons_of_mem g hk), valuesOf, valuesOf, List.filter_filter]
          congr 1
          refine List.filter_congr fun p _ => ?_
          by_cases hp : p.1 = k.1
          · simp [hp, hne]
          · simp [hp]
        · obtain ⟨hmem, hne⟩ := List.mem_filter.mp hp
          obtain ⟨k, hk, hkey⟩ := h.covers p hmem
          rcases List.mem_cons.mp hk with rfl | hk'
          · simp [hkey] at hne
          · exact ⟨k, hk', hkey⟩
      rw [ungroup_cons, hgroup]
      exact ((ih hrest).append_left _).trans (List.filter_append_perm _ ps)

/-- The groups hold as many values as there are pairs. -/
theorem IsGrouping.length_values {gs : List (κ × List ν)} {ps : List (κ × ν)}
    (h : IsGrouping gs ps) : (gs.flatMap Prod.snd).length = ps.length := by
  have hvalues : (ungroup gs).map Prod.snd = gs.flatMap Prod.snd := by
    rw [ungroup, List.map_flatMap]
    simp only [List.map_map, Function.comp_def, List.map_id']
  rw [← hvalues, List.length_map, h.perm.length_eq]

/-- Reordering pairs reorders the values of every key. -/
theorem perm_valuesOf {ps qs : List (κ × ν)} (h : ps.Perm qs) (k : κ) :
    (valuesOf k ps).Perm (valuesOf k qs) :=
  (h.filter _).map _

/-! ### Groups that share a key -/

/-- Lists that commute with each other can be concatenated in any order. -/
theorem flatten_perm_of_commute {ls ms : List (List ν)} (h : ls.Perm ms)
    (hcomm : ∀ l ∈ ls, ∀ m ∈ ls, l ++ m = m ++ l) : ls.flatten = ms.flatten := by
  induction h with
  | nil => rfl
  | cons l _ ih =>
      rw [List.flatten_cons, List.flatten_cons, ih fun m hm n hn =>
        hcomm m (List.mem_cons_of_mem l hm) n (List.mem_cons_of_mem l hn)]
  | swap l m ls =>
      have hlm := hcomm l (List.mem_cons_of_mem m List.mem_cons_self) m List.mem_cons_self
      rw [List.flatten_cons, List.flatten_cons, List.flatten_cons, List.flatten_cons,
        ← List.append_assoc, ← List.append_assoc, hlm]
  | trans hp _ ih₁ ih₂ =>
      rw [ih₁ hcomm]
      exact ih₂ fun l hl m hm => hcomm l (hp.mem_iff.mpr hl) m (hp.mem_iff.mpr hm)

/-- Two different members can be moved to the front. -/
theorem exists_perm_cons_cons {α : Type*} {a b : α} {as : List α} (ha : a ∈ as) (hb : b ∈ as)
    (hne : a ≠ b) : ∃ cs, (a :: b :: cs).Perm as := by
  obtain ⟨s, t, rfl⟩ := List.append_of_mem ha
  have hfront : (a :: (s ++ t)).Perm (s ++ a :: t) := List.perm_middle.symm
  have hrest : b ∈ s ++ t :=
    (List.mem_cons.mp (hfront.mem_iff.mpr hb)).resolve_left (Ne.symm hne)
  obtain ⟨s', t', heq⟩ := List.append_of_mem hrest
  refine ⟨s' ++ t', List.Perm.trans (List.Perm.cons a ?_) hfront⟩
  rw [heq]
  exact List.perm_middle.symm

/-- **When the order of the groups does not matter**: the values under a key are the same
for all orders of the groups exactly when the groups with that key commute. -/
theorem valuesOf_ungroup_perm_iff (k : κ) (gs : List (κ × List ν)) :
    (∀ gs₁ gs₂, gs₁.Perm gs → gs₂.Perm gs →
        valuesOf k (ungroup gs₁) = valuesOf k (ungroup gs₂)) ↔
      ∀ g ∈ gs, ∀ h ∈ gs, g.1 = k → h.1 = k → g.2 ++ h.2 = h.2 ++ g.2 := by
  constructor
  · intro hall g hg h hh hgk hhk
    by_cases heq : g = h
    · rw [heq]
    · obtain ⟨rest, hperm⟩ := exists_perm_cons_cons hg hh heq
      have hswap := hall _ _ hperm ((List.Perm.swap g h rest).trans hperm)
      simp only [valuesOf_ungroup, valuesOf_cons, if_pos hgk, if_pos hhk, List.flatten_cons,
        ← List.append_assoc] at hswap
      exact List.append_cancel_right hswap
  · intro hcomm gs₁ gs₂ h₁ h₂
    rw [valuesOf_ungroup, valuesOf_ungroup]
    refine flatten_perm_of_commute (perm_valuesOf (h₁.trans h₂.symm) k) fun l hl m hm => ?_
    exact hcomm (k, l) (h₁.mem_iff.mp (mem_valuesOf.mp hl)) (k, m)
      (h₁.mem_iff.mp (mem_valuesOf.mp hm)) rfl rfl

end Grouping
