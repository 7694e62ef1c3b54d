import Mathlib.Algebra.BigOperators.Group.List.Basic
import Mathlib.Algebra.Order.Ring.Nat

/-!
# Greedy allocation

A quantity is given to the members of a queue from the front, to each as much as it takes, until it is used up. What
is given along two queues in a row is what is given along the first, and then what is left along the second.
-/

namespace Ticktape.Lib

variable {α ι : Type}

section Allocate

variable (qty : α → ℕ)

/-- How much a queue takes. -/
def demand (l : List α) : ℕ := (l.map qty).sum

/-- Give `n` to a queue. -/
def allocate : ℕ → List α → List (α × ℕ)
  | _, [] => []
  | n, a :: l => if n = 0 then [] else (a, min n (qty a)) :: allocate (n - qty a) l

/-- How much was given. -/
def given (fills : List (α × ℕ)) : ℕ := (fills.map (·.2)).sum

variable {qty}

@[simp] theorem demand_nil : demand qty ([] : List α) = 0 := rfl

@[simp] theorem demand_cons (a : α) (l : List α) : demand qty (a :: l) = qty a + demand qty l := by
  simp [demand]

@[simp] theorem demand_append (l r : List α) : demand qty (l ++ r) = demand qty l + demand qty r := by
  simp [demand]

@[simp] theorem given_nil : given ([] : List (α × ℕ)) = 0 := rfl

@[simp] theorem given_cons (p : α × ℕ) (fills : List (α × ℕ)) : given (p :: fills) = p.2 + given fills := by
  simp [given]

@[simp] theorem given_append (fills fills' : List (α × ℕ)) : given (fills ++ fills') = given fills + given fills' := by
  simp [given]

@[simp] theorem allocate_zero (l : List α) : allocate qty 0 l = [] := by
  cases l <;> rfl

/-- **Two queues in a row.** -/
theorem allocate_append (n : ℕ) (l r : List α) :
    allocate qty n (l ++ r) = allocate qty n l ++ allocate qty (n - demand qty l) r := by
  induction l generalizing n with
  | nil => rfl
  | cons a l ih =>
    rw [List.cons_append, allocate, allocate, demand_cons]
    split
    · rename_i hzero
      rw [hzero, Nat.zero_sub, allocate_zero]
      rfl
    · rw [ih, Nat.sub_sub]
      rfl

/-- Nothing is given that is not there, and nothing is kept that is asked for. -/
theorem given_allocate (n : ℕ) (l : List α) : given (allocate qty n l) = min n (demand qty l) := by
  induction l generalizing n with
  | nil => simp [allocate]
  | cons a l ih =>
    rw [allocate]
    split
    · simp [*]
    · rw [given_cons, ih, demand_cons]
      show min n (qty a) + min (n - qty a) (demand qty l) = min n (qty a + demand qty l)
      omega

/-- The members are served in the order of the queue. -/
theorem allocate_front (n : ℕ) (l : List α) : (allocate qty n l).map (·.1) <+: l := by
  induction l generalizing n with
  | nil => exact List.prefix_refl _
  | cons a l ih =>
    rw [allocate]
    split
    · exact List.nil_prefix
    · exact List.cons_prefix_cons.mpr ⟨rfl, ih _⟩

/-- Nobody is given more than it takes. -/
theorem allocate_le {n : ℕ} {l : List α} {p : α × ℕ} (h : p ∈ allocate qty n l) : p.2 ≤ qty p.1 := by
  induction l generalizing n with
  | nil => cases h
  | cons a l ih =>
    rw [allocate] at h
    split at h
    · cases h
    · rcases List.mem_cons.mp h with rfl | h
      · exact Nat.min_le_right ..
      · exact ih h

/-- A queue that takes no more than there is gets all of it. -/
theorem allocate_all {n : ℕ} {l : List α} (h : demand qty l ≤ n) (hpos : ∀ a ∈ l, 0 < qty a) :
    allocate qty n l = l.map fun a => (a, qty a) := by
  induction l generalizing n with
  | nil => rfl
  | cons a l ih =>
    rw [demand_cons] at h
    have ha := hpos a (List.mem_cons_self ..)
    rw [allocate, if_neg (by omega), Nat.min_eq_right (by omega),
      ih (by omega) fun b hb => hpos b (List.mem_cons_of_mem _ hb)]
    rfl

/-- **First come, first served**: whoever stands before a member that was served has got everything it takes. -/
theorem allocate_before {n : ℕ} {l : List α} {a b : α} {k : ℕ} (hdistinct : l.Nodup) (horder : [a, b].Sublist l)
    (h : (b, k) ∈ allocate qty n l) : (a, qty a) ∈ allocate qty n l := by
  induction l generalizing n with
  | nil => cases h
  | cons c l ih =>
    obtain ⟨hnot, hnodup⟩ := List.nodup_cons.mp hdistinct
    rw [allocate] at h ⊢
    split at h
    · cases h
    · rename_i hn
      rw [if_neg hn]
      have hmem : ∀ {m : ℕ}, (b, k) ∈ allocate qty m l → b ∈ l := fun hb =>
        (allocate_front _ l).subset (List.mem_map.mpr ⟨_, hb, rfl⟩)
      cases horder with
      | cons _ htail =>
        have hbl : b ∈ l := htail.subset (by simp)
        rcases List.mem_cons.mp h with heq | h
        · exact absurd ((Prod.mk.inj heq).1 ▸ hbl) hnot
        · exact List.mem_cons_of_mem _ (ih hnodup htail h)
      | cons_cons _ htail =>
        rcases List.mem_cons.mp h with heq | h
        · exact absurd ((Prod.mk.inj heq).1 ▸ htail.subset (List.mem_singleton_self b)) hnot
        · -- something is left after the first one, so it was given everything
          have hleft : n - qty a ≠ 0 := by
            intro hzero
            rw [hzero, allocate_zero] at h
            cases h
          rw [Nat.min_eq_right (by omega)]
          exact List.mem_cons_self ..

end Allocate

/-! ## By key -/

section Amount

variable (key : α → ι) [DecidableEq ι]

/-- What the members with a key were given together. -/
def amount (fills : List (α × ℕ)) (i : ι) : ℕ := given (fills.filter fun p => key p.1 = i)

variable {key}

@[simp] theorem amount_nil (i : ι) : amount key [] i = 0 := rfl

theorem amount_append (fills fills' : List (α × ℕ)) (i : ι) :
    amount key (fills ++ fills') i = amount key fills i + amount key fills' i := by
  simp [amount]

theorem amount_cons (p : α × ℕ) (fills : List (α × ℕ)) (i : ι) :
    amount key (p :: fills) i = (if key p.1 = i then p.2 else 0) + amount key fills i := by
  rw [amount, List.filter_cons]
  by_cases h : key p.1 = i
  · simp [h, amount]
  · simp [h, amount]

/-- A key that was not served was given nothing. -/
theorem amount_eq_zero {fills : List (α × ℕ)} {i : ι} (h : ∀ p ∈ fills, key p.1 ≠ i) : amount key fills i = 0 := by
  have hnone : (fills.filter fun p => key p.1 = i) = [] := by
    rw [List.filter_eq_nil_iff]
    exact fun p hp => by simpa using h p hp
  rw [amount, hnone, given_nil]

/-- What is given to one of several keys, added up over all of them. -/
theorem sum_single {ks : List ι} (hdistinct : ks.Nodup) {k : ι} (hk : k ∈ ks) (n : ℕ) :
    (ks.map fun i => if k = i then n else 0).sum = n := by
  induction ks with
  | nil => cases hk
  | cons i ks ih =>
    obtain ⟨hnot, hnodup⟩ := List.nodup_cons.mp hdistinct
    rw [List.map_cons, List.sum_cons]
    by_cases h : k = i
    · subst h
      have hrest : (ks.map fun i => if k = i then n else 0).sum = 0 := by
        apply List.sum_eq_zero
        intro m hm
        obtain ⟨i, hi, rfl⟩ := List.mem_map.mp hm
        exact if_neg fun heq : k = i => hnot (heq ▸ hi)
      rw [if_pos rfl, hrest, Nat.add_zero]
    · rw [if_neg h, Nat.zero_add]
      exact ih hnodup ((List.mem_cons.mp hk).resolve_left h)

/-- **What was given** is what every key was given, added up. -/
theorem sum_amount {ks : List ι} (hdistinct : ks.Nodup) {fills : List (α × ℕ)} (h : ∀ p ∈ fills, key p.1 ∈ ks) :
    (ks.map (amount key fills)).sum = given fills := by
  induction fills with
  | nil =>
    apply List.sum_eq_zero
    intro m hm
    obtain ⟨i, -, rfl⟩ := List.mem_map.mp hm
    rfl
  | cons p fills ih =>
    have hsplit : ks.map (amount key (p :: fills)) =
        ks.map fun i => (if key p.1 = i then p.2 else 0) + amount key fills i :=
      List.map_congr_left fun i _ => amount_cons p fills i
    rw [hsplit, List.sum_map_add, sum_single hdistinct (h p (List.mem_cons_self ..)),
      ih fun q hq => h q (List.mem_cons_of_mem _ hq), given_cons]

/-- A member that was served once was given that. -/
theorem amount_of_mem {fills : List (α × ℕ)} {p : α × ℕ} (hdistinct : (fills.map fun p => key p.1).Nodup)
    (h : p ∈ fills) : amount key fills (key p.1) = p.2 := by
  induction fills with
  | nil => cases h
  | cons q fills ih =>
    obtain ⟨hnot, hnodup⟩ := List.nodup_cons.mp hdistinct
    rw [amount_cons]
    rcases List.mem_cons.mp h with rfl | h
    · have hrest : amount key fills (key p.1) = 0 :=
        amount_eq_zero fun q hq heq => hnot (List.mem_map.mpr ⟨q, hq, heq⟩)
      rw [if_pos rfl, hrest, Nat.add_zero]
    · have hne : key q.1 ≠ key p.1 := fun heq => hnot (List.mem_map.mpr ⟨p, h, heq.symm⟩)
      rw [if_neg hne, Nat.zero_add, ih hnodup h]

end Amount

end Ticktape.Lib
