import Mathlib.Data.List.Basic

/-!
# Bounded queues by their histories

A bounded first-in first-out queue seen from outside: what its two ends returned, in the order they
returned it. Putting succeeds while there is room and fails only when there is none; taking yields the
oldest element, or nothing only when there is none. A history is a queue's if every return in it could
have been given (`run`). What was taken is then exactly what was put, in order, up to what is still
in the queue (`put_eq`).
-/

namespace Ticktape.Lib.Fifo

variable {α : Type}

/-- What an operation on a queue returned. -/
inductive Return (α : Type) where
  | put (a : α) (ok : Bool)
  | take (a : Option α)
  deriving DecidableEq

/-- One return of a queue that holds `q`, or `none` if it could not have given it. -/
def step [DecidableEq α] (capacity : ℕ) (q : List α) : Return α → Option (List α)
  | .put a true => if q.length < capacity then some (q ++ [a]) else none
  | .put _ false => if q.length = capacity then some q else none
  | .take (some a) => if q.head? = some a then some q.tail else none
  | .take none => if q = [] then some [] else none

/-- The queue after a history, or `none` if the history is not a queue's. -/
def run [DecidableEq α] (capacity : ℕ) (q : List α) : List (Return α) → Option (List α)
  | [] => some q
  | r :: rs => (step capacity q r).bind fun q' => run capacity q' rs

/-- The elements that were put successfully. -/
def put (log : List (Return α)) : List α :=
  log.filterMap fun r => match r with
    | .put a true => some a
    | _ => none

/-- The elements that were taken. -/
def taken (log : List (Return α)) : List α :=
  log.filterMap fun r => match r with
    | .take a => a
    | _ => none

theorem put_append (log log' : List (Return α)) : put (log ++ log') = put log ++ put log' :=
  List.filterMap_append

theorem taken_append (log log' : List (Return α)) : taken (log ++ log') = taken log ++ taken log' :=
  List.filterMap_append

variable [DecidableEq α] {capacity : ℕ} {q q' : List α}

/-- One more return. -/
theorem run_concat {log : List (Return α)} {r : Return α} (h : run capacity q log = some q') :
    run capacity q (log ++ [r]) = step capacity q' r := by
  induction log generalizing q with
  | nil =>
    obtain rfl := Option.some.inj h
    rw [List.nil_append, run]
    cases step capacity q r <;> rfl
  | cons r' rs ih =>
    rw [run] at h
    obtain ⟨q₁, hstep, hrest⟩ := Option.bind_eq_some_iff.mp h
    rw [List.cons_append, run, hstep]
    exact ih hrest

/-- What a return says of the queue before it and behind it. -/
theorem step_cases {r : Return α} (h : step capacity q r = some q') :
    (∃ a, r = .put a true ∧ q.length < capacity ∧ q' = q ++ [a]) ∨
      (∃ a, r = .put a false ∧ q.length = capacity ∧ q' = q) ∨
      (∃ a, r = .take (some a) ∧ q = a :: q') ∨ (r = .take none ∧ q = [] ∧ q' = []) := by
  unfold step at h
  split at h
  · obtain ⟨hroom, heq⟩ := Option.ite_none_right_eq_some.mp h
    exact Or.inl ⟨_, rfl, hroom, (Option.some.inj heq).symm⟩
  · obtain ⟨hfull, heq⟩ := Option.ite_none_right_eq_some.mp h
    exact Or.inr (Or.inl ⟨_, rfl, hfull, (Option.some.inj heq).symm⟩)
  · obtain ⟨hhead, heq⟩ := Option.ite_none_right_eq_some.mp h
    obtain ⟨rest, rfl⟩ := List.head?_eq_some_iff.mp hhead
    obtain rfl : rest = q' := Option.some.inj heq
    exact Or.inr (Or.inr (Or.inl ⟨_, rfl, rfl⟩))
  · obtain ⟨hnil, heq⟩ := Option.ite_none_right_eq_some.mp h
    exact Or.inr (Or.inr (Or.inr ⟨rfl, hnil, (Option.some.inj heq).symm⟩))

theorem step_le {r : Return α} (h : step capacity q r = some q') (hq : q.length ≤ capacity) :
    q'.length ≤ capacity := by
  rcases step_cases h with ⟨a, -, hroom, rfl⟩ | ⟨a, -, -, rfl⟩ | ⟨a, -, rfl⟩ | ⟨-, -, rfl⟩
  · rw [List.length_append, List.length_singleton]
    exact hroom
  · exact hq
  · exact Nat.le_of_succ_le hq
  · exact Nat.zero_le _

theorem step_put {r : Return α} (h : step capacity q r = some q') :
    q ++ put [r] = taken [r] ++ q' := by
  rcases step_cases h with ⟨a, rfl, -, rfl⟩ | ⟨a, rfl, -, rfl⟩ | ⟨a, rfl, rfl⟩ | ⟨rfl, rfl, rfl⟩
  · rfl
  · exact List.append_nil q'
  · exact congrArg _ (List.append_nil q')
  · rfl

theorem run_le {log : List (Return α)} (h : run capacity q log = some q') (hq : q.length ≤ capacity) :
    q'.length ≤ capacity := by
  induction log generalizing q with
  | nil =>
    obtain rfl := Option.some.inj h
    exact hq
  | cons r rs ih =>
    obtain ⟨q₁, hstep, hrest⟩ := Option.bind_eq_some_iff.mp h
    exact ih hrest (step_le hstep hq)

/-- **First in, first out**: what was held and put is what was taken, in order, and what is left. -/
theorem put_eq {log : List (Return α)} (h : run capacity q log = some q') :
    q ++ put log = taken log ++ q' := by
  induction log generalizing q with
  | nil =>
    obtain rfl := Option.some.inj h
    exact List.append_nil q
  | cons r rs ih =>
    obtain ⟨q₁, hstep, hrest⟩ := Option.bind_eq_some_iff.mp h
    have hput : put (r :: rs) = put [r] ++ put rs := put_append [r] rs
    have htaken : taken (r :: rs) = taken [r] ++ taken rs := taken_append [r] rs
    rw [hput, htaken, ← List.append_assoc, step_put hstep, List.append_assoc, ih hrest,
      List.append_assoc]

end Ticktape.Lib.Fifo
