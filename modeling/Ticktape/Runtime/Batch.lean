import Ticktape.Runtime.Publish

/-!
# Quiet batches

`submitBatch` sequences and journals all its inputs before it applies the first one. Whatever is
sequenced between two applications, a fired timer or a snapshot mark, comes after all of them in the
journal. `QuietBatch` is the condition under which no timer fires in between: it is decided by the node
before the call, by running the service and the wheel through the batch.
-/

namespace Ticktape.Runtime

open Ticktape.Lib Ticktape.Core Ticktape.Journal

/-- A snapshot is due at `seq`. -/
def onCadence (every : Option ℕ) (seq : ℕ) : Bool := every.any fun every => seq % max every 1 = 0

/-- What decides whether a timer fires: the service, the wheel, the readings the clock has yet to give
and the latest timestamp. -/
structure BatchView (svc : Service) where
  service : svc.State
  timers : TimerWheel
  clock : ℕ → UInt64
  lastTimestamp : UInt64

namespace BatchView

variable {svc : Service}

/-- The view after the input at `seq`, stamped `now`, was applied and a snapshot on cadence was marked. -/
def next (every : Option ℕ) (now : UInt64) (seq : ℕ) (v : BatchView svc) (input : svc.Input) :
    BatchView svc where
  service := (svc.apply v.service seq input ⟨seq, now⟩).state
  timers := v.timers.applyAll (svc.apply v.service seq input ⟨seq, now⟩).timers (UInt64.ofNat seq)
  -- the mark of a snapshot is stamped by the clock
  clock := if onCadence every seq then fun i => v.clock (i + 1) else v.clock
  lastTimestamp := if onCadence every seq then max (v.clock 0) v.lastTimestamp else v.lastTimestamp

/-- No timer is due after an input that is not the last one. -/
def Quiet (every : Option ℕ) (now : UInt64) : ℕ → BatchView svc → List svc.Input → Prop
  | _, _, [] => True
  | seq, v, input :: rest =>
    (rest ≠ [] → (v.next every now seq input).timers.popDue (v.next every now seq input).lastTimestamp =
      none) ∧ Quiet every now (seq + 1) (v.next every now seq input) rest

instance decidableQuiet (every : Option ℕ) (now : UInt64) :
    ∀ (seq : ℕ) (v : BatchView svc) (inputs : List svc.Input), Decidable (Quiet every now seq v inputs)
  | _, _, [] => .isTrue trivial
  | seq, v, input :: rest =>
    have := decidableQuiet every now (seq + 1) (v.next every now seq input) rest
    inferInstanceAs (Decidable (_ ∧ _))

end BatchView

namespace Node

variable {svc : Service} {n : Node svc}

/-- The view of a node. -/
def view (n : Node svc) : BatchView svc := ⟨n.service, n.timers, n.clock, n.lastTimestamp⟩

/-- **A quiet batch**: no timer is due between two of its inputs. All of them carry the timestamp the
first one gets. -/
def QuietBatch (n : Node svc) (inputs : List svc.Input) : Prop :=
  BatchView.Quiet n.snapshotEvery (max (n.clock 0) n.lastTimestamp) (n.seq + 1)
    ⟨n.service, n.timers, fun i => n.clock (i + 1), max (n.clock 0) n.lastTimestamp⟩ inputs

instance (n : Node svc) (inputs : List svc.Input) : Decidable (n.QuietBatch inputs) :=
  inferInstanceAs (Decidable (BatchView.Quiet _ _ _ _ _))

/-- Between the inputs of a batch no snapshot is due either. -/
def UndisturbedBatch (n : Node svc) (inputs : List svc.Input) : Prop :=
  n.QuietBatch inputs ∧
    ∀ i, i + 1 < inputs.length → onCadence n.snapshotEvery (n.seq + 1 + i) = false

/-- Off cadence nothing happens. -/
theorem maybeSnapshot_off {seq : ℕ} (h : onCadence n.snapshotEvery seq = false) (w : World JStore) :
    maybeSnapshot seq n w = .ok () n w := by
  simp only [maybeSnapshot, bind, Prog.andThen, Prog.mem]
  cases hevery : n.snapshotEvery with
  | none => rfl
  | some every =>
    have hoff : ¬seq % max every 1 = 0 := by simpa [hevery, onCadence] using h
    simp only [Prog.when, if_neg hoff]
    rfl

/-- Nothing is due: the firing loop ends at once. -/
theorem fireDueTimers_off {fuel : ℕ} (h : n.timers.popDue n.lastTimestamp = none) (w : World JStore) :
    fireDueTimers (fuel + 1) n w = .ok [] n w := by
  simp only [fireDueTimers, popDue, bind, Prog.andThen, Prog.mem, h]
  rfl

/-- Off cadence a frame is only published, and its outputs routed. -/
theorem mwp_finishFrame_off {frame : Frame} {outputs : List svc.Output}
    {Q : List svc.Output → Node svc → Prop} (h : onCadence n.snapshotEvery frame.seq = false)
    (hQ : ∀ released commit, Q released { published n frame outputs with commit := commit }) :
    mwp (finishFrame frame outputs) Q (fun _ _ => True) n := by
  refine mwp_bind (mwp_update (mwp_bind (mwp_returns (maybeSnapshot_off h) ?_)))
  refine mwp_onCommit (fun _ => hQ _ n.commit) fun state _ => ?_
  exact mwp_mono mwp_trivial (fun released state' _ => hQ released (some state')) (fun _ _ _ => trivial)

/-- The view after one input of a batch, when no snapshot is due at it. -/
theorem view_next {input : svc.Input} {frame : Frame} {outputs : List svc.Output} {now : UInt64}
    {commit : Option (CommitState svc.Output)} (hnow : frame.timestamp = now)
    (hoff : onCadence n.snapshotEvery frame.seq = false) :
    view { published (n.stepped frame fun state => svc.apply state frame.seq input) frame outputs with
      commit := commit } = n.view.next n.snapshotEvery now frame.seq input := by
  simp only [view, BatchView.next, published, stepped, stepOf, hnow, hoff]
  rfl

end Node

end Ticktape.Runtime
