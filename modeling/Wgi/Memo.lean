import Mathlib.Data.Set.Function
import Mathlib.Logic.Function.Basic

/-!
# Tables of Remembered Results

A table remembers results of a computation under a key of the argument instead of the
argument itself. It is sound for a set of arguments when every value it holds is a result
for one of them, under that argument's key. What a sound table holds under the key of an
argument is a result for that very argument as soon as no two arguments of the set share a
key.

## Main results

* `Sound.hit`: a value read from a sound table can stand in for the computation.
* `Sound.update_some`, `Sound.update_none`: remembering a result and forgetting one both
  keep a table sound.
-/

namespace Memo

variable {κ β α : Type*} [DecidableEq κ]

/-- Every value of the table is a result for some argument of `used` with that key. -/
def Sound (key : β → κ) (used : Set β) (result : β → α → Prop) (table : κ → Option α) :
    Prop :=
  ∀ k a, table k = some a → ∃ b ∈ used, key b = k ∧ result b a

variable {key : β → κ} {used : Set β} {result : β → α → Prop} {table : κ → Option α}

omit [DecidableEq κ] in
/-- A table that holds nothing is sound. -/
theorem sound_empty : Sound key used result fun _ => none :=
  fun _ _ h => nomatch h

omit [DecidableEq κ] in
/-- **A hit is right**: without collisions, what is held under the key of an argument is a
result for that argument. -/
theorem Sound.hit (h : Sound key used result table) (hinj : Set.InjOn key used) {b : β}
    (hb : b ∈ used) {a : α} (ha : table (key b) = some a) : result b a := by
  obtain ⟨b', hb', hkey, hresult⟩ := h (key b) a ha
  rw [← hinj hb' hb hkey]
  exact hresult

/-- Remembering a result under the key of its argument keeps a table sound. -/
theorem Sound.update_some (h : Sound key used result table) {b : β} (hb : b ∈ used) {a : α}
    (ha : result b a) : Sound key used result (Function.update table (key b) (some a)) := by
  intro k a' hk
  rcases eq_or_ne k (key b) with rfl | hne
  · rw [Function.update_self, Option.some.injEq] at hk
    exact ⟨b, hb, rfl, hk ▸ ha⟩
  · rw [Function.update_of_ne hne] at hk
    exact h k a' hk

/-- Forgetting what is held under a key keeps a table sound. -/
theorem Sound.update_none (h : Sound key used result table) (k : κ) :
    Sound key used result (Function.update table k none) := by
  intro k' a hk
  rcases eq_or_ne k' k with rfl | hne
  · rw [Function.update_self] at hk
    exact nomatch hk
  · rw [Function.update_of_ne hne] at hk
    exact h k' a hk

end Memo
