import Mathlib.Data.List.Forall2

/-!
# Deterministic Machines that May Fail

A `Machine` consumes one input at a time. A step either fails, and then the whole run
fails, or it returns an output together with the next state. `run` folds the step over a
list of inputs and collects the outputs.

The proofs about whole runs go through four rules, each with its induction done once:

* `Machine.run_total_or`: a machine whose steps return or fail in a permitted way returns
  from the run or fails in a permitted way, and every property that the steps hand on holds
  at the end.
* `Machine.run_total`: the same for a machine whose steps all return.
* `Machine.run_last`: a register that some steps write and the others keep holds, at the
  end, what the last write wrote.
* `Machine.run_simulates`: two machines whose steps agree from related states agree on every
  run.
-/

/-- A deterministic machine: a step takes a state and an input to a failure or to an
output and the next state. -/
structure Machine (σ ι ο ε : Type*) where
  /-- One step of the machine. -/
  step : σ → ι → Except ε (ο × σ)

namespace Machine

variable {σ ι ο ε : Type*} (M : Machine σ ι ο ε)

/-- The run of a machine over a list of inputs: the outputs in order and the last state,
or the first failure. -/
def run : σ → List ι → Except ε (List ο × σ)
  | s, [] => .ok ([], s)
  | s, i :: is =>
      match M.step s i with
      | .error e => .error e
      | .ok (o, s') =>
          match run s' is with
          | .error e => .error e
          | .ok (os, t) => .ok (o :: os, t)

@[simp] theorem run_nil (s : σ) : M.run s [] = .ok ([], s) := rfl

/-- Inversion of a nonempty run: the first step succeeds, and so does the run of the
remaining inputs from the state it reaches. -/
theorem run_cons_eq_ok_iff {s t : σ} {i : ι} {is : List ι} {os : List ο} :
    M.run s (i :: is) = .ok (os, t) ↔
      ∃ o s' os', M.step s i = .ok (o, s') ∧ M.run s' is = .ok (os', t) ∧ os = o :: os' := by
  constructor
  · intro h
    rw [run] at h
    cases hs : M.step s i with
    | error e => simp [hs] at h
    | ok p =>
        obtain ⟨o, s'⟩ := p
        cases hr : M.run s' is with
        | error e => simp [hs, hr] at h
        | ok q =>
            obtain ⟨os', t'⟩ := q
            simp only [hs, hr, Except.ok.injEq, Prod.mk.injEq] at h
            obtain ⟨rfl, rfl⟩ := h
            exact ⟨o, s', os', rfl, hr, rfl⟩
  · rintro ⟨o, s', os', hs, hr, rfl⟩
    simp [run, hs, hr]

/-- A run over more inputs goes on where the run over the first ones has ended. -/
theorem run_append (s : σ) (is js : List ι) :
    M.run s (is ++ js) = (M.run s is).bind fun first =>
      (M.run first.2 js).map fun second => (first.1 ++ second.1, second.2) := by
  induction is generalizing s with
  | nil =>
      rw [List.nil_append, run_nil]
      cases hjs : M.run s js with
      | error e => simp [Except.bind, Except.map, hjs]
      | ok second => simp [Except.bind, Except.map, hjs]
  | cons i is ih =>
      rw [List.cons_append, run, run]
      cases hs : M.step s i with
      | error e => rfl
      | ok p =>
          simp only [ih]
          cases his : M.run p.2 is with
          | error e => rfl
          | ok first =>
              cases hjs : M.run first.2 js with
              | error e => simp [Except.bind, Except.map, hjs]
              | ok second => simp [Except.bind, Except.map, hjs]

/-- **The progress rule**: let `P is s` say that the machine is ready for the inputs `is`
in the state `s`. If every step of a ready machine fails in a way that `E` permits, or
returns an output that `R` relates to the input and leaves the machine ready for the
remaining inputs, then so does the whole run. -/
theorem run_total_or {P : List ι → σ → Prop} {R : ι → ο → Prop} {E : ε → Prop}
    (hstep : ∀ i is s, P (i :: is) s → (∃ e, E e ∧ M.step s i = .error e) ∨
      ∃ o s', M.step s i = .ok (o, s') ∧ R i o ∧ P is s')
    {is : List ι} {s : σ} (h : P is s) :
    (∃ e, E e ∧ M.run s is = .error e) ∨
      ∃ os t, M.run s is = .ok (os, t) ∧ List.Forall₂ R is os ∧ P [] t := by
  induction is generalizing s with
  | nil => exact Or.inr ⟨[], s, rfl, .nil, h⟩
  | cons i is ih =>
      rcases hstep i is s h with ⟨e, he, hs⟩ | ⟨o, s', hs, hR, hP⟩
      · exact Or.inl ⟨e, he, by simp only [run, hs]⟩
      · rcases ih hP with ⟨e, he, hrun⟩ | ⟨os, t, hrun, hos, ht⟩
        · exact Or.inl ⟨e, he, by simp only [run, hs, hrun]⟩
        · exact Or.inr ⟨o :: os, t, M.run_cons_eq_ok_iff.mpr ⟨o, s', os, hs, hrun, rfl⟩,
            .cons hR hos, ht⟩

/-- The progress rule for a machine that can take every step. -/
theorem run_total {P : List ι → σ → Prop} {R : ι → ο → Prop}
    (hstep : ∀ i is s, P (i :: is) s → ∃ o s', M.step s i = .ok (o, s') ∧ R i o ∧ P is s')
    {is : List ι} {s : σ} (h : P is s) :
    ∃ os t, M.run s is = .ok (os, t) ∧ List.Forall₂ R is os ∧ P [] t := by
  rcases M.run_total_or (E := fun _ => False) (fun i is s hP => Or.inr (hstep i is s hP)) h with
    ⟨e, he, -⟩ | hrun
  · exact absurd he not_false
  · exact hrun

/-- **The last write wins**: let some outputs mark a write of a register, `value s i a`
relate the state and the input of a write to what is written, and any other step keep the
register. After a run the register holds what the last write wrote, or what it held before
when there was none. -/
theorem run_last {α : Type*} (get : σ → α) {value : σ → ι → α → Prop} {writes : ο → Prop}
    (hwrite : ∀ s i o s', M.step s i = .ok (o, s') → writes o → value s i (get s'))
    (hkeep : ∀ s i o s', M.step s i = .ok (o, s') → ¬ writes o → get s' = get s)
    {s t : σ} {is : List ι} {os : List ο} (hrun : M.run s is = .ok (os, t)) :
    ((∀ o ∈ os, ¬ writes o) ∧ get t = get s) ∨
      ∃ is₁ i is₂ os₁ o os₂ m, is = is₁ ++ i :: is₂ ∧ os = os₁ ++ o :: os₂ ∧
        M.run s is₁ = .ok (os₁, m) ∧ writes o ∧ (∀ o' ∈ os₂, ¬ writes o') ∧
        value m i (get t) := by
  induction is generalizing s os with
  | nil =>
      rw [run_nil, Except.ok.injEq, Prod.mk.injEq] at hrun
      obtain ⟨rfl, rfl⟩ := hrun
      exact Or.inl ⟨fun o ho => absurd ho List.not_mem_nil, rfl⟩
  | cons i is ih =>
      obtain ⟨o, s', os, hstep, hrest, rfl⟩ := M.run_cons_eq_ok_iff.mp hrun
      rcases ih hrest with ⟨hnone, hget⟩ | ⟨is₁, j, is₂, os₁, p, os₂, m, rfl, rfl, hm, hlast⟩
      · by_cases ho : writes o
        · refine Or.inr ⟨[], i, is, [], o, os, s, rfl, rfl, rfl, ho, hnone, ?_⟩
          rw [hget]
          exact hwrite s i o s' hstep ho
        · refine Or.inl ⟨fun p hp => ?_, hget.trans (hkeep s i o s' hstep ho)⟩
          rcases List.mem_cons.mp hp with rfl | hp
          · exact ho
          · exact hnone p hp
      · exact Or.inr ⟨i :: is₁, j, is₂, o :: os₁, p, os₂, m, rfl, rfl,
          M.run_cons_eq_ok_iff.mpr ⟨o, s', os₁, hstep, hm, rfl⟩, hlast⟩

/-! ### Simulation -/

variable {τ ε' : Type*}

/-- Two results agree: both are outputs, the same, with related states, or both are failures,
and related ones. -/
inductive Agree {β : Type*} (R : σ → τ → Prop) (E : ε → ε' → Prop) :
    Except ε (β × σ) → Except ε' (β × τ) → Prop
  | ok (o : β) {s : σ} {t : τ} : R s t → Agree R E (.ok (o, s)) (.ok (o, t))
  | error {e : ε} {e' : ε'} : E e e' → Agree R E (.error e) (.error e')

theorem Agree.exists_ok {β : Type*} {R : σ → τ → Prop} {E : ε → ε' → Prop} {o : β} {s : σ}
    {result : Except ε' (β × τ)} (h : Agree R E (.ok (o, s)) result) :
    ∃ t, result = .ok (o, t) ∧ R s t := by
  cases h with
  | ok o hR => exact ⟨_, rfl, hR⟩

theorem Agree.exists_error {β : Type*} {R : σ → τ → Prop} {E : ε → ε' → Prop} {e : ε}
    {result : Except ε' (β × τ)} (h : Agree R E (.error e) result) :
    ∃ e', result = .error e' ∧ E e e' := by
  cases h with
  | error hE => exact ⟨_, rfl, hE⟩

/-- **The simulation rule**: if the steps of two machines agree whenever their states are
related, then so do their runs. -/
theorem run_simulates (N : Machine τ ι ο ε') {R : σ → τ → Prop} {E : ε → ε' → Prop}
    (hstep : ∀ i s t, R s t → Agree R E (M.step s i) (N.step t i)) {s : σ} {t : τ} (h : R s t)
    (is : List ι) : Agree R E (M.run s is) (N.run t is) := by
  induction is generalizing s t with
  | nil => exact .ok [] h
  | cons i is ih =>
      have hfirst := hstep i s t h
      rw [run, run]
      cases hs : M.step s i with
      | error e =>
          rw [hs] at hfirst
          obtain ⟨e', ht, hE⟩ := hfirst.exists_error
          rw [ht]
          exact .error hE
      | ok p =>
          obtain ⟨o, s'⟩ := p
          rw [hs] at hfirst
          obtain ⟨t', ht, hR⟩ := hfirst.exists_ok
          have hrest := ih hR
          simp only [ht]
          cases hM : M.run s' is with
          | error e =>
              rw [hM] at hrest
              obtain ⟨e', hN, hE⟩ := hrest.exists_error
              rw [hN]
              exact .error hE
          | ok p =>
              rw [hM] at hrest
              obtain ⟨last, hN, hlast⟩ := hrest.exists_ok
              rw [hN]
              exact .ok (o :: p.1) hlast

end Machine
