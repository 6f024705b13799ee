import Mathlib.Data.Nat.Notation

/-!
# Loops with a Decreasing Measure

A loop of an imperative program is a step function: from the values of its variables it
fails, leaves the loop with a result, or goes on with new values. `run` repeats the step, at
most as often as a budget allows, so that it can be evaluated; a loop that exceeds its budget
fails with a given error.

## Main results

* `run_of_leave`, `run_of_again`: one iteration.
* `run_spec`: the rule for total correctness. An invariant that every iteration keeps, with a
  measure that every iteration decreases, gives the result of the loop from any budget above
  the measure.
* `exec_eq`: a loop that keeps the value of a function computes that function.
-/

namespace Loop

/-- What one iteration of a loop does, if it does not fail. -/
inductive Flow (σ β : Type*) where
  /-- The loop is left with a result. -/
  | leave (result : β)
  /-- The loop goes on with new values of its variables. -/
  | again (vars : σ)

variable {σ β ε : Type*}

/-- The loop from the given values of its variables, within a budget of iterations. -/
def run (stuck : ε) (step : σ → Except ε (Flow σ β)) : ℕ → σ → Except ε β
  | 0, _ => .error stuck
  | budget + 1, vars =>
      match step vars with
      | .error e => .error e
      | .ok (.leave result) => .ok result
      | .ok (.again vars') => run stuck step budget vars'

variable {stuck : ε} {step : σ → Except ε (Flow σ β)}

/-- An iteration that leaves the loop. -/
theorem run_of_leave {vars : σ} {result : β} (h : step vars = .ok (.leave result))
    (budget : ℕ) : run stuck step (budget + 1) vars = .ok result := by
  simp only [run, h]

/-- An iteration that goes on. -/
theorem run_of_again {vars vars' : σ} (h : step vars = .ok (.again vars')) (budget : ℕ) :
    run stuck step (budget + 1) vars = run stuck step budget vars' := by
  simp only [run, h]

/-- **The loop rule**: if every iteration that starts with the invariant leaves the loop with
a result that `Q` accepts, or goes on with the invariant and a smaller measure, then the loop
returns such a result. -/
theorem run_spec {I : σ → Prop} {Q : β → Prop} (measure : σ → ℕ)
    (hstep : ∀ vars, I vars → (∃ result, step vars = .ok (.leave result) ∧ Q result) ∨
      ∃ vars', step vars = .ok (.again vars') ∧ I vars' ∧ measure vars' < measure vars)
    {budget : ℕ} {vars : σ} (h : I vars) (hbudget : measure vars < budget) :
    ∃ result, run stuck step budget vars = .ok result ∧ Q result := by
  induction budget generalizing vars with
  | zero => exact absurd hbudget (Nat.not_lt_zero _)
  | succ budget ih =>
      rcases hstep vars h with ⟨result, hleave, hQ⟩ | ⟨vars', hnext, hI, hlt⟩
      · exact ⟨result, run_of_leave hleave budget, hQ⟩
      · rw [run_of_again hnext]
        exact ih hI (by omega)

/-! ### Loops with a measure of their own -/

/-- The loop, with as many iterations as its measure allows. -/
def exec (measure : σ → ℕ) (stuck : ε) (step : σ → Except ε (Flow σ β)) (vars : σ) : Except ε β :=
  run stuck step (measure vars + 1) vars

/-- **Loops that compute a function**: if every iteration returns the value of `f`, or goes
on with a smaller measure and the same value of `f`, then the loop computes `f`. -/
theorem exec_eq {measure : σ → ℕ} {f : σ → β}
    (hstep : ∀ vars, step vars = .ok (.leave (f vars)) ∨
      ∃ vars', step vars = .ok (.again vars') ∧ measure vars' < measure vars ∧
        f vars' = f vars)
    (vars : σ) : exec measure stuck step vars = .ok (f vars) := by
  have hrule : ∃ result, exec measure stuck step vars = .ok result ∧ result = f vars := by
    refine run_spec (I := fun v => f v = f vars) measure ?_ rfl (Nat.lt_succ_self _)
    intro v hv
    rcases hstep v with hleave | ⟨v', hnext, hlt, hspec⟩
    · exact Or.inl ⟨f v, hleave, hv⟩
    · exact Or.inr ⟨v', hnext, hspec.trans hv, hlt⟩
  obtain ⟨result, hrun, rfl⟩ := hrule
  exact hrun

end Loop
