import Ticktape.Runtime.Timer

/-!
# The two indexes of the timer wheel

`ticktape-runtime/src/timer.rs` keeps its pending timers twice, in a map from ids and in a set in
firing order, and every operation updates the two one after the other. Here they are two
independent collections, so nothing is said about them until it is proved. Whatever operations ran,
the two agree, which makes the pair a `TimerWheel`; what a pop does and that a snapshot restores
the wheel are then read off that type.
-/

namespace Ticktape.Runtime

open Ticktape.Core Std

/-- The two indexes, with nothing known to hold between them. -/
structure Indexes where
  byId : ExtTreeMap UInt64 (UInt64 × UInt64)
  order : ExtTreeSet (UInt64 × UInt64 × UInt64) firingOrder

namespace Indexes

/-- No timers. -/
def new : Indexes := ⟨∅, ∅⟩

/-- Cancel `id` if pending. -/
def cancel (x : Indexes) (id : UInt64) : Indexes :=
  match x.byId[id]? with
  | none => x
  | some (deadline, seq) => ⟨x.byId.erase id, x.order.erase (deadline, seq, id)⟩

/-- Arm or re-arm `id`; re-arming replaces the old deadline. -/
def set (x : Indexes) (id deadline setAt : UInt64) : Indexes :=
  let old : Indexes := match x.byId[id]? with
    | none => x
    | some (oldAt, oldSeq) => ⟨x.byId.erase id, x.order.erase (oldAt, oldSeq, id)⟩
  ⟨old.byId.insert id (deadline, setAt), old.order.insert (deadline, setAt, id)⟩

/-- Apply one scheduling request recorded during the step at `setAt`. -/
def apply (x : Indexes) (req : TimerReq) (setAt : UInt64) : Indexes :=
  match req with
  | .set id deadline => x.set id deadline setAt
  | .cancel id => x.cancel id

/-- Remove and return the earliest timer due at `now`. -/
def popDue (x : Indexes) (now : UInt64) : Option UInt64 × Indexes :=
  match x.order.toList.head? with
  | none => (none, x)
  | some (deadline, seq, id) =>
    if deadline > now then (none, x)
    else (some id, ⟨x.byId.erase id, x.order.erase (deadline, seq, id)⟩)

/-- The entries as `(id, deadline, set-at)`, in id order. -/
def snapshot (x : Indexes) : List (UInt64 × UInt64 × UInt64) :=
  x.byId.toList.map fun p => (p.1, p.2.1, p.2.2)

/-- Rebuild from a snapshot. -/
def restore (entries : List (UInt64 × UInt64 × UInt64)) : Indexes :=
  entries.foldl (fun x p => x.set p.1 p.2.1 p.2.2) new

/-! ## Runs -/

/-- The operations of the wheel. -/
inductive Op where
  | apply (req : TimerReq) (setAt : UInt64)
  | set (id deadline setAt : UInt64)
  | cancel (id : UInt64)
  | popDue (now : UInt64)
  | snapshot
  /-- Replace the wheel by one rebuilt from these entries. -/
  | restore (entries : List (UInt64 × UInt64 × UInt64))

/-- What an operation returns. -/
inductive Reply where
  | done
  | popped (id : Option UInt64)
  | entries (entries : List (UInt64 × UInt64 × UInt64))

/-- One operation. -/
def step (x : Indexes) : Op → Reply × Indexes
  | .apply req setAt => (.done, x.apply req setAt)
  | .set id deadline setAt => (.done, x.set id deadline setAt)
  | .cancel id => (.done, x.cancel id)
  | .popDue now => (.popped (x.popDue now).1, (x.popDue now).2)
  | .snapshot => (.entries x.snapshot, x)
  | .restore entries => (.done, restore entries)

/-- A sequence of operations: what each returned, and the wheel after them. -/
def run (x : Indexes) : List Op → List Reply × Indexes
  | [] => ([], x)
  | op :: ops => ((x.step op).1 :: (run (x.step op).2 ops).1, (run (x.step op).2 ops).2)

/-! ## Agreement -/

/-- **The indexes agree**: the set holds exactly the entries of the map. -/
def Agree (x : Indexes) : Prop :=
  ∀ deadline seq id, (deadline, seq, id) ∈ x.order ↔ x.byId[id]? = some (deadline, seq)

/-- The entry that comes before everything pending. -/
def Earliest (x : Indexes) (deadline seq id : UInt64) : Prop :=
  (deadline, seq, id) ∈ x.order ∧
    ∀ t ∈ x.order, firingOrder (deadline, seq, id) t ≠ .gt

end Indexes

/-- The indexes of a wheel, its consistency forgotten. -/
def TimerWheel.indexes (w : TimerWheel) : Indexes := ⟨w.byId, w.order⟩

namespace Indexes

theorem agree_indexes (w : TimerWheel) : w.indexes.Agree := w.consistent

/-- Indexes that agree are those of a wheel. -/
theorem Agree.wheel {x : Indexes} (h : x.Agree) : ∃ w : TimerWheel, w.indexes = x :=
  ⟨⟨x.byId, x.order, h⟩, rfl⟩

/-! Every operation on indexes that agree is the wheel's. -/

theorem cancel_indexes (w : TimerWheel) (id : UInt64) :
    w.indexes.cancel id = (w.cancel id).indexes := by
  unfold TimerWheel.cancel
  split
  · rename_i h
    have hraw : w.indexes.byId[id]? = none := h
    rw [cancel, hraw]
  · rename_i deadline seq h
    have hraw : w.indexes.byId[id]? = some (deadline, seq) := h
    rw [cancel, hraw]
    rfl

/-- Arming is cancelling and then inserting into both. -/
theorem set_eq (x : Indexes) (id deadline setAt : UInt64) :
    x.set id deadline setAt =
      ⟨(x.cancel id).byId.insert id (deadline, setAt),
        (x.cancel id).order.insert (deadline, setAt, id)⟩ := rfl

theorem set_indexes (w : TimerWheel) (id deadline setAt : UInt64) :
    w.indexes.set id deadline setAt = (w.set id deadline setAt).indexes := by
  rw [set_eq, cancel_indexes]
  rfl

theorem apply_indexes (w : TimerWheel) (req : TimerReq) (setAt : UInt64) :
    w.indexes.apply req setAt = (w.apply req setAt).indexes := by
  cases req with
  | set id deadline => exact set_indexes w id deadline setAt
  | cancel id => exact cancel_indexes w id

theorem restore_indexes (entries : List (UInt64 × UInt64 × UInt64)) :
    restore entries = (TimerWheel.restore entries).indexes := by
  have hfold : ∀ (entries : List (UInt64 × UInt64 × UInt64)) (w : TimerWheel),
      entries.foldl (fun (x : Indexes) p => x.set p.1 p.2.1 p.2.2) w.indexes =
        (entries.foldl (fun (w : TimerWheel) p => w.set p.1 p.2.1 p.2.2) w).indexes := by
    intro entries
    induction entries with
    | nil =>
      intro w
      rfl
    | cons p entries ih =>
      intro w
      rw [List.foldl_cons, List.foldl_cons, set_indexes]
      exact ih _
  exact hfold entries TimerWheel.new

/-! ## What a pop does -/

/-- The head of the set is its earliest entry. -/
theorem earliest_of_head? {x : Indexes} {deadline seq id : UInt64}
    (h : x.order.toList.head? = some (deadline, seq, id)) : x.Earliest deadline seq id := by
  have hmem : (deadline, seq, id) ∈ x.order := ExtTreeSet.mem_toList.mp (List.mem_of_head? h)
  refine ⟨hmem, fun t ht => ?_⟩
  have hordered : x.order.toList.Pairwise fun a b => firingOrder a b = .lt :=
    ExtTreeSet.ordered_toList
  obtain ⟨rest, hlist⟩ := List.head?_eq_some_iff.mp h
  have htlist : t ∈ x.order.toList := ExtTreeSet.mem_toList.mpr ht
  rw [hlist] at htlist hordered
  rcases List.mem_cons.mp htlist with heq | hrest
  · rw [heq]
    have hself : firingOrder (deadline, seq, id) (deadline, seq, id) = .eq := ReflCmp.compare_self
    rw [hself]
    decide
  · rw [(List.pairwise_cons.mp hordered).1 _ hrest]
    decide

/-- There is only one earliest entry. -/
theorem Earliest.unique {x : Indexes} {a b : UInt64 × UInt64 × UInt64}
    (ha : x.Earliest a.1 a.2.1 a.2.2) (hb : x.Earliest b.1 b.2.1 b.2.2) : a = b := by
  have hab : firingOrder a b ≠ .gt := ha.2 b hb.1
  have hba : firingOrder b a ≠ .gt := hb.2 a ha.1
  have hswap : firingOrder b a = (firingOrder a b).swap := OrientedCmp.eq_swap
  cases hcmp : firingOrder a b with
  | eq => exact LawfulEqCmp.eq_of_compare hcmp
  | lt =>
    rw [hswap, hcmp] at hba
    exact absurd rfl hba
  | gt => exact absurd hcmp hab

/-- The earliest entry is the head of the set. -/
theorem head?_of_earliest {x : Indexes} {deadline seq id : UInt64}
    (h : x.Earliest deadline seq id) : x.order.toList.head? = some (deadline, seq, id) := by
  cases hhead : x.order.toList.head? with
  | none =>
    have hmem : (deadline, seq, id) ∈ x.order.toList := ExtTreeSet.mem_toList.mpr h.1
    rw [List.head?_eq_none_iff] at hhead
    rw [hhead] at hmem
    cases hmem
  | some t =>
    have ht : x.Earliest t.1 t.2.1 t.2.2 := earliest_of_head? hhead
    exact congrArg some (Earliest.unique (a := t) (b := (deadline, seq, id)) ht h)

theorem popDue_due {x : Indexes} {now deadline seq id : UInt64}
    (h : x.Earliest deadline seq id) (hdue : deadline ≤ now) :
    x.popDue now = (some id, ⟨x.byId.erase id, x.order.erase (deadline, seq, id)⟩) := by
  unfold popDue
  rw [head?_of_earliest h]
  exact if_neg (UInt64.not_lt.mpr hdue)

theorem popDue_later {x : Indexes} {now deadline seq id : UInt64}
    (h : x.Earliest deadline seq id) (hlater : now < deadline) : x.popDue now = (none, x) := by
  unfold popDue
  rw [head?_of_earliest h]
  exact if_pos hlater

theorem popDue_empty {x : Indexes} {now : UInt64} (h : ∀ deadline seq id, ¬x.Earliest deadline seq id) :
    x.popDue now = (none, x) := by
  unfold popDue
  cases hhead : x.order.toList.head? with
  | none => rfl
  | some t => exact absurd (earliest_of_head? hhead) (h t.1 t.2.1 t.2.2)

/-- A pop leaves a wheel's indexes those of a wheel. -/
theorem popDue_indexes (w : TimerWheel) (now : UInt64) : (w.indexes.popDue now).2.Agree := by
  unfold popDue
  cases hhead : w.indexes.order.toList.head? with
  | none => exact agree_indexes w
  | some t =>
    obtain ⟨deadline, seq, id⟩ := t
    show (if deadline > now then _ else _ : Option UInt64 × Indexes).2.Agree
    split
    · exact agree_indexes w
    · exact w.erase_consistent (TimerWheel.byId_of_head? hhead)

/-! ## Every run -/

theorem agree_new : new.Agree := agree_indexes TimerWheel.new

/-- One operation keeps the indexes in agreement. -/
theorem Agree.step {x : Indexes} (h : x.Agree) (op : Op) : (x.step op).2.Agree := by
  obtain ⟨w, rfl⟩ := h.wheel
  cases op with
  | apply req setAt =>
    show (w.indexes.apply req setAt).Agree
    rw [apply_indexes]
    exact agree_indexes _
  | set id deadline setAt =>
    show (w.indexes.set id deadline setAt).Agree
    rw [set_indexes]
    exact agree_indexes _
  | cancel id =>
    show (w.indexes.cancel id).Agree
    rw [cancel_indexes]
    exact agree_indexes _
  | popDue now => exact popDue_indexes w now
  | snapshot => exact h
  | restore entries =>
    show (restore entries).Agree
    rw [restore_indexes]
    exact agree_indexes _

theorem Agree.run {x : Indexes} (h : x.Agree) (ops : List Op) : (x.run ops).2.Agree := by
  induction ops generalizing x with
  | nil => exact h
  | cons op ops ih => exact ih (h.step op)

/-- Indexes that agree are recovered from their snapshot. -/
theorem Agree.restore_snapshot {x : Indexes} (h : x.Agree) : restore x.snapshot = x := by
  obtain ⟨w, rfl⟩ := h.wheel
  rw [restore_indexes]
  exact congrArg TimerWheel.indexes w.restore_snapshot

/-- **The two indexes of the wheel agree** after any operations. A pop takes the earliest entry out
of both exactly if it is due, and changes nothing otherwise; a wheel rebuilt from its snapshot is
the same wheel, and answers every further operation alike. -/
theorem indexes_agree (ops : List Op) :
    let x := (new.run ops).2
    x.Agree ∧
      (∀ now deadline seq id, x.Earliest deadline seq id → deadline ≤ now →
        x.popDue now = (some id, ⟨x.byId.erase id, x.order.erase (deadline, seq, id)⟩)) ∧
      (∀ now, (∀ deadline seq id, x.Earliest deadline seq id → now < deadline) →
        x.popDue now = (none, x)) ∧
      restore x.snapshot = x ∧
      ∀ further, (restore x.snapshot).run further = x.run further := by
  intro x
  have hagree : x.Agree := agree_new.run ops
  refine ⟨hagree, ?_, ?_, hagree.restore_snapshot, fun further => ?_⟩
  · intro now deadline seq id hearliest hdue
    exact popDue_due hearliest hdue
  · intro now hlater
    by_cases hany : ∃ deadline seq id, x.Earliest deadline seq id
    · obtain ⟨deadline, seq, id, hearliest⟩ := hany
      exact popDue_later hearliest (hlater deadline seq id hearliest)
    · exact popDue_empty fun deadline seq id hearliest => hany ⟨deadline, seq, id, hearliest⟩
  · rw [hagree.restore_snapshot]

/-- Re-arming moves a timer in both indexes: it fires once, at its new deadline. -/
example : ((new.run [.set 7 10 1, .set 8 20 2, .set 7 30 3]).2.run
    [.popDue 10, .popDue 30, .popDue 30, .popDue 30]).1 =
      [.popped none, .popped (some 8), .popped (some 7), .popped none] := by rfl

end Indexes

end Ticktape.Runtime
