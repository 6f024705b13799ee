import Mathlib.Data.List.Basic

/-!
# Processes with Standard Streams

A process reads from its standard input and writes to its standard output and its standard
error, in pieces of any size and in any order, until it ends or fails. What it writes may
depend on what it has read. Of all this only three things can be seen from outside when it is
over: whether it has failed, and all that it has written to each of the two streams.

Two processes are equivalent when one comes from the other by cutting a read or a write in
two, by leaving out an empty one, or by exchanging two operations on different streams, as a
different buffering does.

## Main results

* `Equiv.behave_eq`: equivalent processes cannot be told apart.
* `behave_readExact`: a loop that reads a given number of elements gets them, or fails at the
  end of the input.
-/

/-- A process that exchanges elements of `α` with its streams. -/
inductive Process (α : Type*) where
  /-- The process ends. -/
  | done
  /-- The process fails. -/
  | trap
  /-- A read of at most `count` elements. -/
  | read (count : ℕ) (next : List α → Process α)
  /-- A write to the standard output. -/
  | write (buf : List α) (next : Process α)
  /-- A write to the standard error. -/
  | log (buf : List α) (next : Process α)

namespace Process

variable {α : Type*}

/-- What can be seen of a process: whether it has ended, the input it has left, and what it
has written. -/
structure Behaviour (α : Type*) where
  ended : Bool
  rest : List α
  out : List α
  err : List α
  deriving DecidableEq

/-- What a process does with an input. A read returns what is there, up to its count, and
nothing at the end of the input. -/
def behave : Process α → List α → Behaviour α
  | .done, input => ⟨true, input, [], []⟩
  | .trap, input => ⟨false, input, [], []⟩
  | .read count next, input => (next (input.take count)).behave (input.drop count)
  | .write buf next, input =>
      { next.behave input with out := buf ++ (next.behave input).out }
  | .log buf next, input =>
      { next.behave input with err := buf ++ (next.behave input).err }

/-! ### Buffering -/

/-- Processes that differ in how their reads and writes are cut and ordered. -/
inductive Equiv : Process α → Process α → Prop where
  | refl (p : Process α) : Equiv p p
  | symm {p q : Process α} (h : Equiv p q) : Equiv q p
  | trans {p q r : Process α} (h₁ : Equiv p q) (h₂ : Equiv q r) : Equiv p r
  | read {count : ℕ} {next next' : List α → Process α} (h : ∀ buf, Equiv (next buf) (next' buf)) :
      Equiv (.read count next) (.read count next')
  | write {buf : List α} {p q : Process α} (h : Equiv p q) : Equiv (.write buf p) (.write buf q)
  | log {buf : List α} {p q : Process α} (h : Equiv p q) : Equiv (.log buf p) (.log buf q)
  | readSplit (m n : ℕ) (next : List α → Process α) :
      Equiv (.read (m + n) next) (.read m fun a => .read n fun b => next (a ++ b))
  | readZero (next : List α → Process α) : Equiv (.read 0 next) (next [])
  | writeSplit (a b : List α) (p : Process α) : Equiv (.write (a ++ b) p) (.write a (.write b p))
  | writeNil (p : Process α) : Equiv (.write [] p) p
  | logSplit (a b : List α) (p : Process α) : Equiv (.log (a ++ b) p) (.log a (.log b p))
  | logNil (p : Process α) : Equiv (.log [] p) p
  | writeLog (a b : List α) (p : Process α) : Equiv (.write a (.log b p)) (.log b (.write a p))
  | writeRead (a : List α) (count : ℕ) (next : List α → Process α) :
      Equiv (.write a (.read count next)) (.read count fun b => .write a (next b))
  | logRead (a : List α) (count : ℕ) (next : List α → Process α) :
      Equiv (.log a (.read count next)) (.read count fun b => .log a (next b))

/-- **Buffering does not show**: equivalent processes do the same with every input. -/
theorem Equiv.behave_eq {p q : Process α} (h : Equiv p q) (input : List α) :
    p.behave input = q.behave input := by
  induction h generalizing input with
  | refl p => rfl
  | symm h ih => exact (ih input).symm
  | trans h₁ h₂ ih₁ ih₂ => exact (ih₁ input).trans (ih₂ input)
  | read h ih => exact ih _ _
  | write h ih => simp only [behave, ih input]
  | log h ih => simp only [behave, ih input]
  | readSplit m n next =>
      simp only [behave, List.drop_drop]
      rw [← List.take_add]
  | readZero next => rfl
  | writeSplit a b p => simp only [behave, List.append_assoc]
  | writeNil p => rfl
  | logSplit a b p => simp only [behave, List.append_assoc]
  | logNil p => rfl
  | writeLog a b p => rfl
  | writeRead a count next => rfl
  | logRead a count next => rfl

/-! ### Reading a given number of elements -/

/-- A loop that reads until it has `count` elements more, and goes on with `fail` at the end of
the input. Every read that returns something brings it forward, so `count` reads are enough. -/
def readExactLoop : ℕ → ℕ → List α → Process α → (List α → Process α) → Process α
  | _, 0, acc, _, next => next acc
  | 0, _ + 1, _, fail, _ => fail
  | budget + 1, count + 1, acc, fail, next =>
      .read (count + 1) fun buf =>
        if buf.isEmpty then fail
        else readExactLoop budget (count + 1 - buf.length) (acc ++ buf) fail next

/-- A read of exactly `count` elements. -/
def readExact (count : ℕ) (fail : Process α) (next : List α → Process α) : Process α :=
  readExactLoop count count [] fail next

/-- The loop, with some elements already there. -/
theorem behave_readExactLoop {budget count : ℕ} (h : count ≤ budget) (acc : List α)
    (fail : Process α) (next : List α → Process α) (input : List α) :
    (readExactLoop budget count acc fail next).behave input =
      if count ≤ input.length then (next (acc ++ input.take count)).behave (input.drop count)
      else fail.behave [] := by
  induction budget generalizing count acc input with
  | zero =>
      obtain rfl : count = 0 := by omega
      simp [readExactLoop]
  | succ budget ih =>
      cases count with
      | zero => simp [readExactLoop]
      | succ count =>
          rw [readExactLoop, behave]
          cases input with
          | nil => simp
          | cons a input =>
              -- the read returns all that is wanted, or all that is there
              have hne : ((a :: input).take (count + 1)).isEmpty = false := rfl
              have hbudget : count + 1 - ((a :: input).take (count + 1)).length ≤ budget := by
                rw [List.length_take, List.length_cons]
                omega
              rw [hne, if_neg Bool.false_ne_true, ih hbudget]
              by_cases hle : count + 1 ≤ (a :: input).length
              · have hlen : ((a :: input).take (count + 1)).length = count + 1 := by
                  rw [List.length_take]
                  omega
                rw [if_pos hle, hlen, Nat.sub_self, if_pos (Nat.zero_le _)]
                simp
              · have hlen : ((a :: input).take (count + 1)).length = (a :: input).length := by
                  rw [List.length_take]
                  omega
                have hdrop : (a :: input).drop (count + 1) = [] :=
                  List.drop_eq_nil_of_le (by omega)
                rw [if_neg hle, hlen, hdrop, if_neg (by rw [List.length_nil]; omega)]

/-- **A read of exactly `count` elements** gets the first `count` of the input, if there are as
many, and fails at the end of the input otherwise. -/
theorem behave_readExact (count : ℕ) (fail : Process α) (next : List α → Process α)
    (input : List α) :
    (readExact count fail next).behave input =
      if count ≤ input.length then (next (input.take count)).behave (input.drop count)
      else fail.behave [] :=
  behave_readExactLoop (Nat.le_refl count) [] fail next input

end Process
