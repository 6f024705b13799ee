import Mathlib.Data.List.Basic

/-!
# Delimited Segments of a Growing List

`List.splitOn d l` cuts a list at every occurrence of the delimiter `d`. When the list is
a stream that is still growing, the cut has two parts of different standing: the segments
that a delimiter has already closed (`complete`) and the open segment after the last
delimiter (`rest`), which later input may still extend.

## Main results

* `splitOn_append`: appending to a stream leaves its closed segments alone and continues
  the open one. This is what makes an incremental reader that keeps only the open segment
  agree with cutting the whole stream at once.
* `complete_append` and `rest_append`: the same fact for each part.
* `messages_append_cons`: the first delimiter of a finished stream closes its first message.
* `complete_rest_setRest`: replacing the open segment leaves the closed ones alone.
-/

namespace Segments

variable {α : Type*} [DecidableEq α] (d : α)

/-- The segments of `l` that a delimiter closes. -/
def complete (l : List α) : List (List α) :=
  (l.splitOn d).dropLast

/-- The open segment of `l`: what follows its last delimiter. -/
def rest (l : List α) : List α :=
  (l.splitOn d).getLast (List.splitOn_ne_nil d l)

/-- The cut is the closed segments followed by the open one. -/
theorem splitOn_eq (l : List α) : l.splitOn d = complete d l ++ [rest d l] :=
  (List.dropLast_append_getLast (List.splitOn_ne_nil d l)).symm

/-- The two parts of a cut are determined by it. -/
theorem complete_rest_of_splitOn {l : List α} {ls : List (List α)} {r : List α}
    (h : l.splitOn d = ls ++ [r]) : complete d l = ls ∧ rest d l = r := by
  rw [splitOn_eq] at h
  obtain ⟨h₁, h₂⟩ := List.append_inj' h rfl
  exact ⟨h₁, List.singleton_inj.mp h₂⟩

/-- Without a delimiter nothing is closed and everything is open. -/
theorem complete_rest_of_notMem {l : List α} (h : d ∉ l) :
    complete d l = [] ∧ rest d l = l :=
  complete_rest_of_splitOn d (by rw [List.splitOn_eq_singleton h, List.nil_append])

/-- The first delimiter closes what precedes it. -/
theorem complete_rest_append_cons {l : List α} (h : d ∉ l) (r : List α) :
    complete d (l ++ d :: r) = l :: complete d r ∧ rest d (l ++ d :: r) = rest d r := by
  refine complete_rest_of_splitOn d ?_
  rw [List.splitOn_append_cons_self_of_not_mem h, splitOn_eq, List.cons_append]

/-- **Induction on the delimiters of a list**: an open list, or a closed segment in front
of a list for which the property is known. -/
theorem induction_on {P : List α → Prop} (hopen : ∀ l, d ∉ l → P l)
    (hclosed : ∀ a b, d ∉ a → P b → P (a ++ d :: b)) (l : List α) : P l := by
  induction hn : l.length using Nat.strongRecOn generalizing l with
  | ind n ih =>
      by_cases hd : d ∈ l
      · obtain ⟨a, b, rfl, ha⟩ := List.eq_append_cons_of_mem hd
        have hb : b.length < n := by
          rw [← hn, List.length_append, List.length_cons]
          omega
        exact hclosed a b ha (ih b.length hb b rfl)
      · exact hopen l hd

/-- **Incremental cutting**: appending to a stream keeps its closed segments and cuts the
open one together with the new input. -/
theorem splitOn_append (l r : List α) :
    (l ++ r).splitOn d = complete d l ++ (rest d l ++ r).splitOn d := by
  induction l using induction_on d with
  | hopen l hl =>
      obtain ⟨hc, hr⟩ := complete_rest_of_notMem d hl
      rw [hc, hr, List.nil_append]
  | hclosed a b ha ih =>
      obtain ⟨hc, hr⟩ := complete_rest_append_cons d ha b
      rw [List.append_assoc, List.cons_append,
        List.splitOn_append_cons_self_of_not_mem ha, hc, hr, ih, List.cons_append]

/-- The cut of a longer stream, with its open segment set apart. -/
theorem splitOn_append_eq (l r : List α) :
    (l ++ r).splitOn d =
      (complete d l ++ complete d (rest d l ++ r)) ++ [rest d (rest d l ++ r)] := by
  rw [splitOn_append, splitOn_eq d (rest d l ++ r), List.append_assoc]

theorem complete_append (l r : List α) :
    complete d (l ++ r) = complete d l ++ complete d (rest d l ++ r) :=
  (complete_rest_of_splitOn d (splitOn_append_eq d l r)).1

theorem rest_append (l r : List α) : rest d (l ++ r) = rest d (rest d l ++ r) :=
  (complete_rest_of_splitOn d (splitOn_append_eq d l r)).2

/-- The open segment is free of the delimiter. -/
theorem notMem_rest (l : List α) : d ∉ rest d l := by
  induction l using induction_on d with
  | hopen l hl => rwa [(complete_rest_of_notMem d hl).2]
  | hclosed a b ha ih => rwa [(complete_rest_append_cons d ha b).2]

/-- The open segment is a part of the stream. -/
theorem length_rest_le (l : List α) : (rest d l).length ≤ l.length := by
  induction l using induction_on d with
  | hopen l hl => exact Nat.le_of_eq (congrArg List.length (complete_rest_of_notMem d hl).2)
  | hclosed a b ha ih =>
      rw [(complete_rest_append_cons d ha b).2, List.length_append, List.length_cons]
      omega

/-- The stream with another open segment. -/
def setRest (l r : List α) : List α :=
  l.take (l.length - (rest d l).length) ++ r

theorem setRest_append_cons {a : List α} (ha : d ∉ a) (b r : List α) :
    setRest d (a ++ d :: b) r = a ++ d :: setRest d b r := by
  have hle := length_rest_le d b
  have hlen : (a ++ d :: b).length - (rest d b).length =
      a.length + (b.length - (rest d b).length + 1) := by
    rw [List.length_append, List.length_cons]
    omega
  rw [setRest, (complete_rest_append_cons d ha b).2, hlen, List.take_length_add_append,
    List.take_succ_cons, List.append_assoc, List.cons_append, setRest]

/-- **Replacing the open segment** leaves the closed ones alone. -/
theorem complete_rest_setRest (l : List α) {r : List α} (hr : d ∉ r) :
    complete d (setRest d l r) = complete d l ∧ rest d (setRest d l r) = r := by
  induction l using induction_on d with
  | hopen l hl =>
      have hset : setRest d l r = r := by
        rw [setRest, (complete_rest_of_notMem d hl).2, Nat.sub_self, List.take_zero,
          List.nil_append]
      rw [hset, (complete_rest_of_notMem d hl).1]
      exact complete_rest_of_notMem d hr
  | hclosed a b ha ih =>
      obtain ⟨hcomplete, hrest⟩ := complete_rest_append_cons d ha (setRest d b r)
      rw [setRest_append_cons d ha, hcomplete, hrest, ih.1, ih.2,
        (complete_rest_append_cons d ha b).1]
      exact ⟨rfl, rfl⟩

/-- The segments of a finished stream: the open one counts only if it is not empty. -/
def messages (l : List α) : List (List α) :=
  complete d l ++ if (rest d l).isEmpty then [] else [rest d l]

/-- The closed segments are among the messages. -/
theorem complete_prefix_messages (l : List α) : complete d l <+: messages d l :=
  List.prefix_append _ _

theorem messages_append_cons {l : List α} (h : d ∉ l) (r : List α) :
    messages d (l ++ d :: r) = l :: messages d r := by
  obtain ⟨hcomplete, hrest⟩ := complete_rest_append_cons d h r
  rw [messages, messages, hcomplete, hrest, List.cons_append]

end Segments
