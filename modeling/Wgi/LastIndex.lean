import Mathlib.Data.Nat.Notation

/-!
# The Last Index with a Property

`lastIdx p l` is the index of the last element of `l` that satisfies `p`: what a loop that
scans an array from its end finds.

## Main results

* `lastIdx_eq_none_iff`, `lastIdx_split`: what the scan passed over.
* `lastIdx_append`: the scan of a list that was appended to another.
-/

namespace LastIndex

variable {α : Type*} (p : α → Bool)

/-- The index of the last element that satisfies `p`. -/
def lastIdx : List α → Option ℕ
  | [] => none
  | a :: l =>
      match lastIdx l with
      | some i => some (i + 1)
      | none => if p a then some 0 else none

variable {p}

/-- Nothing is found exactly if nothing satisfies `p`. -/
theorem lastIdx_eq_none_iff {l : List α} : lastIdx p l = none ↔ ∀ a ∈ l, p a = false := by
  induction l with
  | nil => simp [lastIdx]
  | cons a l ih =>
      rw [List.forall_mem_cons, ← ih, lastIdx]
      cases lastIdx p l with
      | none => cases p a <;> simp
      | some i => simp

/-- The second list is scanned first. -/
theorem lastIdx_append (l m : List α) :
    lastIdx p (l ++ m) = ((lastIdx p m).map (l.length + ·)).or (lastIdx p l) := by
  induction l with
  | nil => cases h : lastIdx p m <;> simp [h, lastIdx]
  | cons a l ih =>
      rw [List.cons_append, lastIdx, ih, lastIdx]
      cases lastIdx p m with
      | none => simp
      | some i =>
          simp only [Option.map_some, Option.some_or, List.length_cons, Option.some.injEq]
          omega

/-- The scan of the images of a list. -/
theorem lastIdx_map {β : Type*} (q : β → Bool) (f : α → β) (l : List α) :
    lastIdx q (l.map f) = lastIdx (fun a => q (f a)) l := by
  induction l with
  | nil => rfl
  | cons a l ih => rw [List.map_cons, lastIdx, ih, lastIdx]

/-- A second list without the property is passed over. -/
theorem lastIdx_append_of_none {m : List α} (h : lastIdx p m = none) (l : List α) :
    lastIdx p (l ++ m) = lastIdx p l := by
  rw [lastIdx_append, h, Option.map_none, Option.none_or]

/-- The scan stops at an element behind which nothing satisfies `p`. -/
theorem lastIdx_middle {a : α} {m : List α} (ha : p a = true) (hm : lastIdx p m = none)
    (l : List α) : lastIdx p (l ++ a :: m) = some l.length := by
  rw [lastIdx_append]
  simp [lastIdx, hm, ha]

/-- **What the scan found**: an element with the property, and none behind it. -/
theorem lastIdx_split {l : List α} {i : ℕ} (h : lastIdx p l = some i) :
    ∃ l₁ a l₂, l = l₁ ++ a :: l₂ ∧ l₁.length = i ∧ p a = true ∧ lastIdx p l₂ = none := by
  induction l generalizing i with
  | nil => simp [lastIdx] at h
  | cons a l ih =>
      rw [lastIdx] at h
      cases hl : lastIdx p l with
      | some j =>
          obtain ⟨l₁, b, l₂, hsplit, hlen, hb, hrest⟩ := ih hl
          rw [hl] at h
          refine ⟨a :: l₁, b, l₂, by rw [hsplit, List.cons_append], ?_, hb, hrest⟩
          rw [List.length_cons, hlen]
          exact Option.some.inj h
      | none =>
          rw [hl] at h
          simp only [Option.ite_none_right_eq_some, Option.some.injEq] at h
          exact ⟨[], a, l, rfl, h.2, h.1, hl⟩

end LastIndex
