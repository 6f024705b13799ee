import Mathlib.Data.List.Forall2

/-!
# Computations that May Fail

Inversion rules for programs written in `Except` and `Option`: a sequence of steps returns
exactly when every step does, and a loop that collects results returns exactly when every
result is there. A proof about such a program takes it apart with these rules instead of
unfolding it.

## Main results

* `bind_eq_ok_iff`: a sequence of two computations.
* `mapM_eq_ok_iff`, `mapM_eq_some_iff`: a collecting loop, as a relation between the list
  of arguments and the list of results.
* `exists_forall₂_iff`: such a list of results exists as soon as every result does.
* `exists_foldlM_iff`: a loop whose steps fail on some inputs only, whatever the state.
-/

namespace Fallible

variable {ε α β : Type}

@[simp] theorem ok_bind (a : α) (f : α → Except ε β) :
    ((.ok a : Except ε α) >>= f) = f a := rfl

/-- A sequence of two fallible computations returns exactly when both do. -/
theorem bind_eq_ok_iff {x : Except ε α} {f : α → Except ε β} {b : β} :
    (x >>= f) = .ok b ↔ ∃ a, x = .ok a ∧ f a = .ok b := by
  cases x with
  | error e => simp [bind, Except.bind]
  | ok a => simp [bind, Except.bind]

theorem toOption_eq_some_iff {x : Except ε α} {a : α} : x.toOption = some a ↔ x = .ok a := by
  cases x <;> simp [Except.toOption]

/-- A loop that collects results returns exactly when every result is there. -/
theorem mapM_eq_ok_iff {f : α → Except ε β} {xs : List α} {ys : List β} :
    xs.mapM f = .ok ys ↔ List.Forall₂ (fun x y => f x = .ok y) xs ys := by
  induction xs generalizing ys with
  | nil =>
      rw [List.mapM_nil, List.forall₂_nil_left_iff]
      exact ⟨fun h => (Except.ok.inj h).symm, fun h => by rw [h]; rfl⟩
  | cons x xs ih =>
      rw [List.mapM_cons, bind_eq_ok_iff, List.forall₂_cons_left_iff]
      constructor
      · rintro ⟨y, hy, h⟩
        obtain ⟨ys', hys, h⟩ := bind_eq_ok_iff.mp h
        exact ⟨y, ys', hy, ih.mp hys, (Except.ok.inj h).symm⟩
      · rintro ⟨y, ys', hy, hys, rfl⟩
        exact ⟨y, hy, bind_eq_ok_iff.mpr ⟨ys', ih.mpr hys, rfl⟩⟩

/-- The same for a loop whose results may be absent. -/
theorem mapM_eq_some_iff {f : α → Option β} {xs : List α} {ys : List β} :
    xs.mapM f = some ys ↔ List.Forall₂ (fun x y => f x = some y) xs ys := by
  induction xs generalizing ys with
  | nil =>
      rw [List.mapM_nil, List.forall₂_nil_left_iff]
      exact ⟨fun h => (Option.some.inj h).symm, fun h => by rw [h]; rfl⟩
  | cons x xs ih =>
      rw [List.mapM_cons, List.forall₂_cons_left_iff]
      constructor
      · intro h
        obtain ⟨y, hy, h⟩ := Option.bind_eq_some_iff.mp h
        obtain ⟨ys', hys, h⟩ := Option.bind_eq_some_iff.mp h
        exact ⟨y, ys', hy, ih.mp hys, (Option.some.inj h).symm⟩
      · rintro ⟨y, ys', hy, hys, rfl⟩
        exact Option.bind_eq_some_iff.mpr
          ⟨y, hy, Option.bind_eq_some_iff.mpr ⟨ys', ih.mpr hys, rfl⟩⟩

/-- Related lists exist exactly when every element has a related one. -/
theorem exists_forall₂_iff {R : α → β → Prop} {xs : List α} :
    (∃ ys, List.Forall₂ R xs ys) ↔ ∀ x ∈ xs, ∃ y, R x y := by
  induction xs with
  | nil => exact ⟨fun _ x hx => absurd hx List.not_mem_nil, fun _ => ⟨[], .nil⟩⟩
  | cons x xs ih =>
      rw [List.forall_mem_cons, ← ih]
      constructor
      · rintro ⟨ys, h⟩
        obtain ⟨y, ys', hy, hys, rfl⟩ := List.forall₂_cons_left_iff.mp h
        exact ⟨⟨y, hy⟩, ys', hys⟩
      · rintro ⟨⟨y, hy⟩, ys, hys⟩
        exact ⟨y :: ys, .cons hy hys⟩

/-- A loop over inputs, each of which a step takes or fails on whatever the state is,
returns exactly when every input is taken. -/
theorem exists_foldlM_iff {σ : Type} {f : σ → α → Except ε σ} {P : α → Prop}
    (hstep : ∀ s a, (∃ t, f s a = .ok t) ↔ P a) {xs : List α} {s : σ} :
    (∃ t, xs.foldlM f s = .ok t) ↔ ∀ x ∈ xs, P x := by
  induction xs generalizing s with
  | nil => exact ⟨fun _ x hx => absurd hx List.not_mem_nil, fun _ => ⟨s, rfl⟩⟩
  | cons x xs ih =>
      rw [List.forall_mem_cons, List.foldlM_cons]
      constructor
      · rintro ⟨t, h⟩
        obtain ⟨next, hnext, hrest⟩ := bind_eq_ok_iff.mp h
        exact ⟨(hstep s x).mp ⟨next, hnext⟩, ih.mp ⟨t, hrest⟩⟩
      · rintro ⟨hx, hxs⟩
        obtain ⟨next, hnext⟩ := (hstep s x).mpr hx
        obtain ⟨t, hrest⟩ := ih.mpr hxs
        exact ⟨t, bind_eq_ok_iff.mpr ⟨next, hnext, hrest⟩⟩

end Fallible
