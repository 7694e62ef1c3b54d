import Ticktape.Runtime.Memory

/-!
# Invariants of publication

Whatever a node sequences it also publishes, one frame at a time: an input after it was applied, a fired
timer after its handler ran, a control frame as it is. `Publishing I` says that `I` survives each of
these steps; then it survives every operation that returns, batches apart (`mwp_submit`, `mwp_tick`,
`mwp_fence`). A batch sequences its inputs first and publishes them later.
-/

namespace Ticktape.Runtime.Node

open Ticktape.Lib Ticktape.Core Ticktape.Journal

variable {svc : Service}

/-- What a step makes of the node right before `frame` is applied. -/
def stepOf (n : Node svc) (frame : Frame) (step : svc.State → Ctx → Step svc.State svc.Output) :
    Step svc.State svc.Output := step n.service ⟨frame.seq, frame.timestamp⟩

/-- The node after `frame` was applied. -/
def stepped (n : Node svc) (frame : Frame) (step : svc.State → Ctx → Step svc.State svc.Output) :
    Node svc :=
  { n with
    service := (n.stepOf frame step).state
    timers := n.timers.applyAll (n.stepOf frame step).timers (UInt64.ofNat frame.seq) }

/-- The node after `frame` was sequenced. -/
def advanced (n : Node svc) (frame : Frame) : Node svc :=
  { n with seq := frame.seq, lastTimestamp := frame.timestamp }

/-- A control frame that a node sequences. -/
inductive Control (svc : Service) (frame : Frame) : Prop where
  | tick (h : frame.kind = .tick)
  | snapshotMark (h : frame.kind = .snapshotMark)
  | epochChange (h : frame.kind = .epochChange) (epoch : UInt64) (next : ℕ)
      (hpayload : frame.payload = encode (epoch, UInt64.ofNat next, svc.SCHEMA_VERSION))

/-- **An invariant of publication.** It does not see the clock, the journal and the commit state, and
survives every frame that is sequenced next. -/
structure Publishing (I : Node svc → Prop) : Prop where
  blind : ∀ {n : Node svc} (clock : ℕ → UInt64) (journal : Journal)
    (commit : Option (CommitState svc.Output)), I n →
    I { n with clock := clock, journal := journal, commit := commit }
  control : ∀ {n : Node svc} {frame : Frame}, I n → frame.seq = n.seq + 1 → Control svc frame →
    I (published (n.advanced frame) frame [])
  input : ∀ {n : Node svc} {frame : Frame} {input : svc.Input}, I n → frame.seq = n.seq + 1 →
    frame.kind = .input → frame.payload = encode input →
    I (published ((n.advanced frame).stepped frame fun state => svc.apply state frame.seq input) frame
      (n.stepOf frame fun state => svc.apply state frame.seq input).outputs)
  timer : ∀ {n : Node svc} {frame : Frame} {id : UInt64} (timers : TimerWheel), I n →
    frame.seq = n.seq + 1 → frame.kind = .timerFired → frame.payload = encode id →
    I (published (({ n with timers := timers }.advanced frame).stepped frame fun state => svc.onTimer state id)
      frame (n.stepOf frame fun state => svc.onTimer state id).outputs)

namespace Publishing

variable {I : Node svc → Prop} {n : Node svc}

/-- Sequencing leaves a node that publication has yet to catch up with. -/
theorem mwp_sequenced {kind : FrameKind} {payload : Bytes} {α : Type} {p : NProg svc Frame}
    {rest : Frame → NProg svc α} {R : α → Node svc → Prop}
    (hp : mwp p (fun frame n' => Sequenced n kind payload frame n') (fun _ _ => True) n)
    (h : ∀ (frame : Frame) clock journal, frame.seq = n.seq + 1 → frame.kind = kind →
      frame.payload = payload →
      mwp (rest frame) R (fun _ _ => True) { n.advanced frame with clock := clock, journal := journal }) :
    mwp (p >>= rest) R (fun _ _ => True) n := by
  refine mwp_seq hp ?_
  rintro frame n' ⟨hseq, hkind, hpayload, clock, journal, rfl⟩
  exact h frame clock journal hseq hkind hpayload

theorem sequence_sequenced {kind : FrameKind} {payload : Bytes} :
    mwp (sequence kind payload) (fun frame n' => Sequenced n kind payload frame n')
      (fun _ _ => True) n := mwp_mono mwp_sequence (fun _ _ h => h) (fun _ _ _ => trivial)

theorem sequenceAt_sequenced {kind : FrameKind} {payload : Bytes} {time : UInt64} :
    mwp (sequenceAt kind payload time) (fun frame n' => Sequenced n kind payload frame n')
      (fun _ _ => True) n := mwp_mono mwp_sequenceAt (fun _ _ h => h) (fun _ _ _ => trivial)

variable (hI : Publishing I)
include hI

theorem mwp_maybeSnapshot {seq : ℕ} (h : I n) :
    mwp (maybeSnapshot seq) (fun _ => I) (fun _ _ => True) n := by
  refine Node.mwp_maybeSnapshot h ?_
  rintro payload mark n' ⟨hseq, hkind, -, clock, journal, rfl⟩ j
  -- the clock and the journal moved while the mark was sequenced, which `I` does not see
  have hmark := hI.blind clock j n.commit (hI.control h hseq (.snapshotMark hkind))
  exact hmark

theorem mwp_onCommit {α : Type} {p : Prog (CommitState svc.Output) JStore NodeError α} {none : α}
    (h : I n) : mwp (onCommit p none) (fun _ => I) (fun _ _ => True) n := by
  refine Node.mwp_onCommit (fun _ => h) fun state _ => ?_
  refine mwp_mono mwp_trivial (fun _ state' _ => ?_) (fun _ _ _ => trivial)
  exact hI.blind n.clock n.journal (some state') h

theorem mwp_finishFrame {frame : Frame} {outputs : List svc.Output}
    (h : I (published n frame outputs)) :
    mwp (finishFrame frame outputs) (fun _ => I) (fun _ _ => True) n :=
  mwp_bind (mwp_update (mwp_seq (hI.mwp_maybeSnapshot h) fun _ _ h' => hI.mwp_onCommit h'))

/-- **The firing loop**, by induction on its rounds. -/
theorem mwp_fireDueTimers (fuel : ℕ) (h : I n) :
    mwp (fireDueTimers fuel) (fun _ => I) (fun _ _ => True) n := by
  induction fuel generalizing n with
  | zero => exact mwp_spin
  | succ fuel ih =>
    refine mwp_bind (mwp_popDue (fun _ => mwp_pure h) fun id timers _ => ?_)
    refine mwp_bind (mwp_mem (mwp_sequenced sequenceAt_sequenced ?_))
    intro frame clock journal hseq hkind hpayload
    refine mwp_bind (mwp_runStep (mwp_seq (Q := fun _ => I) (hI.mwp_finishFrame ?_) fun _ n₂ h₂ => ?_))
    · have hfired := hI.blind clock journal n.commit (hI.timer timers h hseq hkind hpayload)
      exact hfired
    · exact mwp_seq (ih h₂) fun _ _ h₃ => mwp_pure h₃

theorem mwp_submit (fuel : ℕ) (input : svc.Input) (h : I n) :
    mwp (submit fuel input) (fun _ => I) (fun _ _ => True) n := by
  refine mwp_sequenced sequence_sequenced ?_
  intro frame clock journal hseq hkind hpayload
  refine mwp_bind (mwp_runStep (mwp_seq (Q := fun _ => I) (hI.mwp_finishFrame ?_) fun _ n₂ h₂ => ?_))
  · have happlied := hI.blind clock journal n.commit (hI.input h hseq hkind hpayload)
    exact happlied
  · exact mwp_seq (hI.mwp_fireDueTimers fuel h₂) fun _ _ h₃ => mwp_pure h₃

/-- The common end of `tick` and `fence`: publish, snapshot on cadence, note progress. -/
theorem mwp_control {frame : Frame} {α : Type} {rest : NProg svc α}
    (h : I (published n frame []))
    (hrest : ∀ n', I n' → mwp rest (fun _ => I) (fun _ _ => True) n') :
    mwp (do publish frame []; maybeSnapshot frame.seq; noteSelfProgress frame.seq; rest)
      (fun _ => I) (fun _ _ => True) n := by
  refine mwp_bind (mwp_update (mwp_seq (hI.mwp_maybeSnapshot h) fun _ n' h' => ?_))
  exact mwp_seq (hI.mwp_onCommit h') fun _ n'' h'' => hrest n'' h''

theorem mwp_tick (fuel : ℕ) (h : I n) : mwp (tick fuel) (fun _ => I) (fun _ _ => True) n := by
  refine mwp_sequenced sequence_sequenced ?_
  intro frame clock journal hseq hkind _
  refine hI.mwp_control ?_ fun n₂ h₂ => ?_
  · have hticked := hI.blind clock journal n.commit (hI.control h hseq (.tick hkind))
    exact hticked
  · exact mwp_seq (hI.mwp_fireDueTimers fuel h₂) fun _ _ h₃ => mwp_pure h₃

theorem mwp_fence (epoch : UInt64) (h : I n) :
    mwp (fence epoch) (fun _ => I) (fun _ _ => True) n := by
  refine mwp_bind (mwp_mem (mwp_seq (mwp_nextSeq _) ?_))
  intro next n' hn
  rw [hn]
  refine mwp_sequenced sequence_sequenced ?_
  intro frame clock journal hseq hkind hpayload
  refine hI.mwp_control ?_ fun n₂ h₂ => mwp_pure h₂
  have hfenced := hI.blind clock journal n.commit (hI.control h hseq (.epochChange hkind epoch next hpayload))
  exact hfenced

end Publishing

end Ticktape.Runtime.Node
