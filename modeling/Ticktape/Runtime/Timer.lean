import Ticktape.Core.Service
import Std.Data.ExtTreeMap.Lemmas
import Std.Data.ExtTreeSet.Lemmas

/-!
# The timer wheel

The sequencer's pending timers (`ticktape-runtime/src/timer.rs`): a map from timer ids and a set
in firing order. The two are kept consistent by every operation, so consistency is a field of the
type. It is what makes popping a due timer the same as cancelling it, and what makes the wheel
recoverable from its entries in id order.
-/

namespace Ticktape.Runtime

open Ticktape.Core Std

/-- The firing order: deadline, then the seq the timer was armed at, then its id. -/
def firingOrder : UInt64 × UInt64 × UInt64 → UInt64 × UInt64 × UInt64 → Ordering :=
  compareLex (compareOn (·.1)) (compareLex (compareOn (·.2.1)) (compareOn (·.2.2)))

instance : TransCmp firingOrder := inferInstanceAs (TransCmp (compareLex _ _))

instance : LawfulEqCmp firingOrder where
  eq_of_compare {a b} h := by
    simp only [firingOrder, compareLex, compareOn, Ordering.then_eq_eq] at h
    exact Prod.ext (LawfulEqOrd.eq_of_compare h.1)
      (Prod.ext (LawfulEqOrd.eq_of_compare h.2.1) (LawfulEqOrd.eq_of_compare h.2.2))

/-- Pending timers. -/
structure TimerWheel where
  /-- The deadline of each timer and the seq it was armed at. -/
  byId : ExtTreeMap UInt64 (UInt64 × UInt64)
  order : ExtTreeSet (UInt64 × UInt64 × UInt64) firingOrder
  consistent : ∀ deadline seq id, (deadline, seq, id) ∈ order ↔ byId[id]? = some (deadline, seq)

namespace TimerWheel

@[ext] theorem ext {w w' : TimerWheel} (h : ∀ id : UInt64, w.byId[id]? = w'.byId[id]?) : w = w' := by
  have hbyId : w.byId = w'.byId := ExtTreeMap.ext_getElem? h
  have horder : w.order = w'.order := by
    refine ExtTreeSet.ext_mem fun t => ?_
    rw [show t = (t.1, t.2.1, t.2.2) from rfl, w.consistent, w'.consistent, hbyId]
  cases w
  cases w'
  simp only at hbyId horder
  subst hbyId horder
  rfl

/-- No timers. -/
def new : TimerWheel := ⟨∅, ∅, by simp⟩

/-- Taking a timer out of both parts keeps them consistent. -/
theorem erase_consistent (w : TimerWheel) {id deadline seq : UInt64}
    (h : w.byId[id]? = some (deadline, seq)) (deadline' seq' id' : UInt64) :
    (deadline', seq', id') ∈ w.order.erase (deadline, seq, id) ↔
      (w.byId.erase id)[id']? = some (deadline', seq') := by
  rw [ExtTreeSet.mem_erase, w.consistent, ExtTreeMap.getElem?_erase]
  by_cases hid : id = id'
  · subst hid
    rw [h, if_pos ReflCmp.compare_self]
    refine ⟨fun hmem => ?_, fun hnone => by cases hnone⟩
    obtain ⟨rfl, rfl⟩ := Prod.mk.inj (Option.some.inj hmem.2)
    exact absurd ReflCmp.compare_self hmem.1
  · have hne : compare id id' ≠ .eq := fun heq => hid (LawfulEqOrd.eq_of_compare heq)
    have hne' : firingOrder (deadline, seq, id) (deadline', seq', id') ≠ .eq := fun heq =>
      hid (Prod.mk.inj (Prod.mk.inj (LawfulEqCmp.eq_of_compare heq)).2).2
    rw [if_neg hne]
    exact ⟨fun hmem => hmem.2, fun hget => ⟨hne', hget⟩⟩

/-- Cancel `id` if pending. -/
def cancel (w : TimerWheel) (id : UInt64) : TimerWheel :=
  match h : w.byId[id]? with
  | none => w
  | some (deadline, seq) =>
    ⟨w.byId.erase id, w.order.erase (deadline, seq, id), w.erase_consistent h⟩

@[simp] theorem cancel_byId (w : TimerWheel) (id id' : UInt64) :
    (w.cancel id).byId[id']? = if id = id' then none else w.byId[id']? := by
  unfold cancel
  split
  · rename_i h
    split
    · rename_i heq
      rw [← heq, h]
    · rfl
  · show (w.byId.erase id)[id']? = _
    rw [ExtTreeMap.getElem?_erase]
    by_cases hid : id = id'
    · simp [hid]
    · have hne : compare id id' ≠ .eq := fun heq => hid (LawfulEqOrd.eq_of_compare heq)
      simp [hid]

/-- Arm or re-arm `id`; re-arming replaces the old deadline. -/
def set (w : TimerWheel) (id deadline seq : UInt64) : TimerWheel :=
  ⟨(w.cancel id).byId.insert id (deadline, seq), (w.cancel id).order.insert (deadline, seq, id), by
    intro deadline' seq' id'
    rw [ExtTreeSet.mem_insert, (w.cancel id).consistent, ExtTreeMap.getElem?_insert, cancel_byId]
    by_cases hid : id = id'
    · subst hid
      simp only [compare_self, if_true, reduceCtorEq, or_false, Option.some.injEq, Prod.mk.injEq]
      constructor
      · intro h
        have : (deadline, seq, id) = (deadline', seq', id) := LawfulEqCmp.eq_of_compare h
        exact ⟨(Prod.mk.inj this).1, (Prod.mk.inj (Prod.mk.inj this).2).1⟩
      · rintro ⟨rfl, rfl⟩
        exact ReflCmp.compare_self
    · have hne : compare id id' ≠ .eq := fun heq => hid (LawfulEqOrd.eq_of_compare heq)
      have hne' : firingOrder (deadline, seq, id) (deadline', seq', id') ≠ .eq := fun heq =>
        hid (Prod.mk.inj (Prod.mk.inj (LawfulEqCmp.eq_of_compare heq)).2).2
      simp [hne, hne', hid]⟩

@[simp] theorem set_byId (w : TimerWheel) (id deadline seq id' : UInt64) :
    (w.set id deadline seq).byId[id']? = if id = id' then some (deadline, seq) else w.byId[id']? := by
  show ((w.cancel id).byId.insert id (deadline, seq))[id']? = _
  rw [ExtTreeMap.getElem?_insert, cancel_byId]
  by_cases hid : id = id'
  · simp [hid]
  · have hne : compare id id' ≠ .eq := fun heq => hid (LawfulEqOrd.eq_of_compare heq)
    simp [hid]

/-- Apply one scheduling request recorded during the step at `setAt`. -/
def apply (w : TimerWheel) (req : TimerReq) (setAt : UInt64) : TimerWheel :=
  match req with
  | .set id deadline => w.set id deadline setAt
  | .cancel id => w.cancel id

/-- Apply the requests of one step in order. -/
def applyAll (w : TimerWheel) (reqs : List TimerReq) (setAt : UInt64) : TimerWheel :=
  reqs.foldl (·.apply · setAt) w

/-- The first timer in firing order is pending. -/
theorem byId_of_head? {w : TimerWheel} {id deadline seq : UInt64}
    (h : w.order.toList.head? = some (deadline, seq, id)) : w.byId[id]? = some (deadline, seq) :=
  (w.consistent deadline seq id).mp (ExtTreeSet.mem_toList.mp (List.mem_of_head? h))

/-- Remove and return the earliest timer due at `now`. -/
def popDue (w : TimerWheel) (now : UInt64) : Option (UInt64 × TimerWheel) :=
  match h : w.order.toList.head? with
  | none => none
  | some (deadline, seq, id) =>
    if deadline > now then none
    else some (id, ⟨w.byId.erase id, w.order.erase (deadline, seq, id),
      w.erase_consistent (byId_of_head? h)⟩)

/-- **Firing is cancelling**: the wheel after a pop is the wheel without that timer. -/
theorem popDue_eq_cancel {w w' : TimerWheel} {now id : UInt64} (h : w.popDue now = some (id, w')) :
    w' = w.cancel id := by
  unfold popDue at h
  split at h
  · cases h
  · split at h
    · cases h
    · obtain ⟨rfl, rfl⟩ := Prod.mk.inj (Option.some.inj h)
      refine TimerWheel.ext fun id' => ?_
      rw [cancel_byId]
      show (w.byId.erase _)[id']? = _
      rw [ExtTreeMap.getElem?_erase]
      simp

/-- The head of the firing order comes before everything pending. -/
theorem head?_least {w : TimerWheel} {deadline seq id : UInt64}
    (h : w.order.toList.head? = some (deadline, seq, id)) {deadline' seq' id' : UInt64}
    (hget : w.byId[id']? = some (deadline', seq')) :
    firingOrder (deadline, seq, id) (deadline', seq', id') ≠ .gt := by
  have hmem : (deadline', seq', id') ∈ w.order.toList :=
    ExtTreeSet.mem_toList.mpr ((w.consistent deadline' seq' id').mpr hget)
  have hordered : w.order.toList.Pairwise fun a b => firingOrder a b = .lt := ExtTreeSet.ordered_toList
  obtain ⟨rest, hlist⟩ := List.head?_eq_some_iff.mp h
  rw [hlist] at hmem hordered
  rcases List.mem_cons.mp hmem with heq | hrest
  · have hself : firingOrder (deadline, seq, id) (deadline', seq', id') = .eq := by
      rw [heq]
      exact ReflCmp.compare_self
    rw [hself]
    decide
  · rw [(List.pairwise_cons.mp hordered).1 _ hrest]
    decide

/-- **What is popped** was pending, was due, and comes first in firing order. -/
theorem popDue_some {w w' : TimerWheel} {now id : UInt64} (h : w.popDue now = some (id, w')) :
    ∃ deadline seq, w.byId[id]? = some (deadline, seq) ∧ deadline ≤ now ∧
      ∀ deadline' seq' id' : UInt64, w.byId[id']? = some (deadline', seq') →
        firingOrder (deadline, seq, id) (deadline', seq', id') ≠ .gt := by
  unfold popDue at h
  split at h
  · cases h
  · rename_i deadline seq id₀ hhead
    split at h
    · cases h
    · rename_i hdue
      obtain ⟨rfl, -⟩ := Prod.mk.inj (Option.some.inj h)
      exact ⟨deadline, seq, byId_of_head? hhead, UInt64.not_lt.mp hdue, fun _ _ _ => head?_least hhead⟩

/-- Nothing is popped exactly if nothing pending is due. -/
theorem popDue_none {w : TimerWheel} {now : UInt64} :
    w.popDue now = none ↔
      ∀ id deadline seq : UInt64, w.byId[id]? = some (deadline, seq) → now < deadline := by
  constructor
  · intro h id deadline seq hget
    unfold popDue at h
    split at h
    · rename_i hhead
      have hmem : (deadline, seq, id) ∈ w.order.toList :=
        ExtTreeSet.mem_toList.mpr ((w.consistent deadline seq id).mpr hget)
      rw [List.head?_eq_none_iff] at hhead
      rw [hhead] at hmem
      cases hmem
    · rename_i deadline₀ seq₀ id₀ hhead
      split at h
      · rename_i hlater
        -- the head is not due, and its deadline is the least
        have hleast := head?_least hhead hget
        have hle : deadline₀ ≤ deadline := by
          by_contra hlt
          refine hleast ?_
          have hgt : compare deadline₀ deadline = .gt :=
            Std.compare_eq_gt.mpr (UInt64.not_le.mp hlt)
          simp [firingOrder, compareLex, compareOn, hgt]
        exact UInt64.lt_of_lt_of_le hlater hle
      · cases h
  · intro h
    cases hpop : w.popDue now with
    | none => rfl
    | some due =>
      obtain ⟨id, w'⟩ := due
      obtain ⟨deadline, seq, hget, hle, -⟩ := popDue_some hpop
      exact absurd (h id deadline seq hget) (UInt64.not_lt.mpr hle)

/-- The entries as `(id, deadline, set-at)`, in id order. -/
def snapshot (w : TimerWheel) : List (UInt64 × UInt64 × UInt64) :=
  w.byId.toList.map fun p => (p.1, p.2.1, p.2.2)

/-- Rebuild from a snapshot. -/
def restore (entries : List (UInt64 × UInt64 × UInt64)) : TimerWheel :=
  entries.foldl (fun w p => w.set p.1 p.2.1 p.2.2) new

/-- Setting distinct timers one after the other. -/
theorem foldl_set_byId (l : List (UInt64 × UInt64 × UInt64)) (w : TimerWheel)
    (hdistinct : l.Pairwise (·.1 ≠ ·.1)) (id : UInt64) :
    (l.foldl (fun w p => w.set p.1 p.2.1 p.2.2) w).byId[id]? =
      ((l.find? (·.1 = id)).map Prod.snd).or w.byId[id]? := by
  induction l generalizing w with
  | nil => simp
  | cons p l ih =>
    rw [List.pairwise_cons] at hdistinct
    rw [List.foldl_cons, ih _ hdistinct.2, set_byId]
    by_cases hid : p.1 = id
    · have hnone : l.find? (·.1 = id) = none := by
        rw [List.find?_eq_none]
        intro r hr
        simpa [hid] using (hdistinct.1 r hr).symm
      simp [hid, hnone]
    · simp [hid]

/-- **Round trip**: a wheel is recovered from its snapshot. -/
theorem restore_snapshot (w : TimerWheel) : restore w.snapshot = w := by
  refine TimerWheel.ext fun id => ?_
  have hdistinct : w.snapshot.Pairwise (·.1 ≠ ·.1) := by
    rw [snapshot, List.pairwise_map]
    refine (ExtTreeMap.distinct_keys_toList (t := w.byId)).imp fun hne heq => hne ?_
    rw [heq]
    exact ReflCmp.compare_self
  rw [restore, foldl_set_byId _ _ hdistinct, snapshot, List.find?_map]
  have hnew : (new.byId[id]? : Option (UInt64 × UInt64)) = none := by simp [new]
  rw [hnew, Option.or_none]
  cases hget : w.byId[id]? with
  | none =>
    have hnone : w.byId.toList.find? ((fun p => decide (p.1 = id)) ∘
        fun p : UInt64 × UInt64 × UInt64 => (p.1, p.2.1, p.2.2)) = none := by
      rw [List.find?_eq_none]
      rintro ⟨k, v⟩ hmem heq
      simp only [Function.comp, decide_eq_true_eq] at heq
      subst heq
      rw [ExtTreeMap.mem_toList_iff_getElem?_eq_some, hget] at hmem
      cases hmem
    rw [hnone]
    rfl
  | some v =>
    have hsome : w.byId.toList.find? ((fun p => decide (p.1 = id)) ∘
        fun p : UInt64 × UInt64 × UInt64 => (p.1, p.2.1, p.2.2)) = some (id, v) := by
      have hmem : (id, v) ∈ w.byId.toList := ExtTreeMap.mem_toList_iff_getElem?_eq_some.mpr hget
      cases hfind : w.byId.toList.find? ((fun p => decide (p.1 = id)) ∘
          fun p : UInt64 × UInt64 × UInt64 => (p.1, p.2.1, p.2.2)) with
      | none =>
        rw [List.find?_eq_none] at hfind
        exact absurd (by simp) (hfind _ hmem)
      | some p =>
        have hp := List.find?_some hfind
        have hpmem := List.mem_of_find?_eq_some hfind
        simp only [Function.comp, decide_eq_true_eq] at hp
        obtain ⟨k, v'⟩ := p
        simp only at hp
        subst hp
        rw [ExtTreeMap.mem_toList_iff_getElem?_eq_some, hget] at hpmem
        rw [Option.some.inj hpmem]
    rw [hsome]
    rfl

end TimerWheel

end Ticktape.Runtime
