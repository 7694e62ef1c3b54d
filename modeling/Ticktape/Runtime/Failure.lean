import Ticktape.Runtime.Memory

/-!
# Submissions that fail

`submit` and `submitBatch` assign seqs and move sequenced time before they make their first storage
call, and nothing undoes that when a storage call fails. So a submission that returns an error has
always happened in part: the node's seq has advanced.
-/

namespace Ticktape.Runtime.Node

open Ticktape.Lib Ticktape.Core Ticktape.Journal

variable {svc : Service}

/-! ## The seq never goes back -/

section Seq

variable {k : ℕ}

/-- `p` never takes the node's seq below `k`. -/
abbrev KeepsSeq {α : Type} (k : ℕ) (p : NProg svc α) : Prop := Maintains (fun n => k ≤ n.seq) p

theorem keepsSeq_onJournal {α : Type} (p : JProg α) : KeepsSeq k (onJournal p : NProg svc α) :=
  fun _ h => mwp_onJournal (fun _ _ => h) (fun _ _ => h)

theorem keepsSeq_onSnapshots {α : Type} {p : Prog (Node svc) JStore JournalError α} (h : Frozen p) :
    KeepsSeq k (onSnapshots p) := fun _ hn => mwp_onSnapshots h (fun _ => hn) (fun _ => hn)

theorem keepsSeq_stageFrame (kind : FrameKind) (payload : Bytes) (time : UInt64) :
    KeepsSeq k (stageFrame kind payload time : NProg svc Frame) := fun n hn =>
  mwp_stageFrame fun frame hseq _ _ _ => by
    show k ≤ frame.seq
    omega

theorem keepsSeq_sequenceAt (kind : FrameKind) (payload : Bytes) (time : UInt64) :
    KeepsSeq k (sequenceAt kind payload time : NProg svc Frame) :=
  maintains_bind (keepsSeq_stageFrame _ _ _) fun _ => maintains_bind (keepsSeq_onJournal _) fun _ =>
    maintains_pure _

theorem keepsSeq_sequence (kind : FrameKind) (payload : Bytes) :
    KeepsSeq k (sequence kind payload : NProg svc Frame) :=
  maintains_bind (fun _ hn => mwp_now hn) fun _ => keepsSeq_sequenceAt _ _ _

theorem keepsSeq_publish (frame : Frame) (outputs : List svc.Output) :
    KeepsSeq k (publish frame outputs) := maintains_update fun _ h => h

theorem keepsSeq_takeSnapshot (seq : ℕ) : KeepsSeq k (takeSnapshot seq : NProg svc Unit) := by
  refine maintains_bind maintains_mem fun n => ?_
  refine maintains_bind (keepsSeq_onSnapshots (frozen_write _ _ _)) fun _ => ?_
  refine maintains_bind (keepsSeq_sequence _ _) fun mark => ?_
  refine maintains_bind (keepsSeq_publish _ _) fun _ => ?_
  refine maintains_bind (keepsSeq_onSnapshots (frozen_pruneKeepNewest _)) fun oldest => ?_
  cases oldest with
  | none => exact maintains_pure _
  | some oldest => exact maintains_bind (keepsSeq_onJournal _) fun _ => maintains_pure _

theorem keepsSeq_maybeSnapshot (seq : ℕ) : KeepsSeq k (maybeSnapshot seq : NProg svc Unit) := by
  refine maintains_bind maintains_mem fun n => ?_
  cases n.snapshotEvery with
  | none => exact maintains_pure _
  | some every => exact maintains_when (keepsSeq_takeSnapshot _)

theorem keepsSeq_onCommit {α : Type} (p : Prog (CommitState svc.Output) JStore NodeError α) (a : α) :
    KeepsSeq k (onCommit p a : NProg svc α) := by
  refine maintains_bind maintains_mem fun n => ?_
  cases n.commit with
  | none => exact maintains_pure _
  | some state =>
    exact fun _ hn => mwp_zoom (mwp_mono mwp_trivial (fun _ _ _ => hn) (fun _ _ _ => hn))

theorem keepsSeq_runStep (frame : Frame) (step : svc.State → Ctx → Step svc.State svc.Output) :
    KeepsSeq k (runStep frame step) :=
  maintains_bind maintains_mem fun _ => maintains_bind (maintains_update fun _ h => h) fun _ =>
    maintains_pure _

theorem keepsSeq_finishFrame (frame : Frame) (outputs : List svc.Output) :
    KeepsSeq k (finishFrame frame outputs) :=
  maintains_bind (keepsSeq_publish _ _) fun _ => maintains_bind (keepsSeq_maybeSnapshot _) fun _ =>
    keepsSeq_onCommit _ _

theorem keepsSeq_popDue : KeepsSeq k (popDue : NProg svc (Option UInt64)) := by
  refine maintains_bind maintains_mem fun n => ?_
  cases n.timers.popDue n.lastTimestamp with
  | none => exact maintains_pure _
  | some due => exact maintains_bind (maintains_update fun _ h => h) fun _ => maintains_pure _

theorem keepsSeq_fireDueTimers (fuel : ℕ) :
    KeepsSeq k (fireDueTimers fuel : NProg svc (List svc.Output)) := by
  induction fuel with
  | zero => exact maintains_spin
  | succ fuel ih =>
    refine maintains_bind keepsSeq_popDue fun due => ?_
    cases due with
    | none => exact maintains_pure _
    | some id =>
      refine maintains_bind maintains_mem fun n => ?_
      refine maintains_bind (keepsSeq_sequenceAt _ _ _) fun frame => ?_
      refine maintains_bind (keepsSeq_runStep _ _) fun outputs => ?_
      refine maintains_bind (keepsSeq_finishFrame _ _) fun released => ?_
      exact maintains_bind ih fun _ => maintains_pure _

theorem keepsSeq_stageAll (time : UInt64) (inputs : List svc.Input) :
    KeepsSeq k (stageAll time inputs : NProg svc (List Frame)) := by
  induction inputs with
  | nil => exact maintains_pure _
  | cons input rest ih =>
    exact maintains_bind (keepsSeq_stageFrame _ _ _) fun _ => maintains_bind ih fun _ => maintains_pure _

theorem keepsSeq_applyAll (fuel : ℕ) (l : List (svc.Input × Frame)) :
    KeepsSeq k (applyAll fuel l : NProg svc (List (ℕ × List svc.Output))) := by
  induction l with
  | nil => exact maintains_pure _
  | cons p l ih =>
    obtain ⟨input, frame⟩ := p
    refine maintains_bind (keepsSeq_runStep _ _) fun outputs => ?_
    refine maintains_bind (keepsSeq_finishFrame _ _) fun released => ?_
    refine maintains_bind (keepsSeq_fireDueTimers _) fun more => ?_
    exact maintains_bind ih fun _ => maintains_pure _

end Seq

/-! ## The first frame -/

/-- A submission that fails has assigned a seq. -/
theorem submit_err_seq (fuel : ℕ) (input : svc.Input) (n : Node svc) :
    mwp (submit fuel input) (fun _ _ => True) (fun _ n' => n.seq + 1 ≤ n'.seq) n := by
  refine mwp_bind (mwp_mono mwp_sequence ?_ fun _ _ h => h.ge)
  rintro frame n₁ ⟨hseq, -, -, clock, journal, rfl⟩
  have hrest : KeepsSeq (n.seq + 1) (do
      let outputs ← runStep frame fun state ctx => svc.apply state frame.seq input ctx
      let released ← finishFrame frame outputs
      let more ← fireDueTimers fuel
      pure (frame.seq, released ++ more) : NProg svc _) :=
    maintains_bind (keepsSeq_runStep _ _) fun _ => maintains_bind (keepsSeq_finishFrame _ _) fun _ =>
      maintains_bind (keepsSeq_fireDueTimers _) fun _ => maintains_pure _
  exact mwp_mono (hrest _ hseq.ge) (fun _ _ _ => trivial) (fun _ _ h => h)

/-- Staging a batch assigns a seq. -/
theorem mwp_stageAll_seq (time : UInt64) (input : svc.Input) (rest : List svc.Input) (n : Node svc) :
    mwp (stageAll time (input :: rest)) (fun _ n' => n.seq + 1 ≤ n'.seq)
      (fun _ n' => n.seq + 1 ≤ n'.seq) n := by
  refine mwp_bind (mwp_stageFrame fun frame hseq _ _ _ => ?_)
  have hrest : KeepsSeq (n.seq + 1) (do
      let frames ← stageAll time rest
      pure (frame :: frames) : NProg svc _) :=
    maintains_bind (keepsSeq_stageAll _ _) fun _ => maintains_pure _
  exact hrest _ hseq.ge

/-- A batch that fails has assigned a seq. -/
theorem submitBatch_err_seq (fuel : ℕ) (inputs : List svc.Input) (n : Node svc) :
    mwp (submitBatch fuel inputs) (fun _ _ => True) (fun _ n' => n.seq + 1 ≤ n'.seq) n := by
  cases inputs with
  | nil => exact mwp_pure trivial
  | cons input rest =>
    refine mwp_bind (mwp_now (mwp_bind (mwp_mono (mwp_stageAll_seq _ input rest _) ?_
      (fun _ _ h => h))))
    intro frames n₁ hseq
    have hrest : KeepsSeq (n.seq + 1) (do
        onJournal (Journal.appendBatch frames)
        applyAll fuel ((input :: rest).zip frames) : NProg svc _) :=
      maintains_bind (keepsSeq_onJournal _) fun _ => keepsSeq_applyAll _ _
    exact mwp_mono (hrest _ hseq) (fun _ _ _ => trivial) (fun _ _ h => h)

/-! ## A failed submission always leaves a trace -/

/-- The frames that opening the journal on a healthy store returns. -/
def recoveredFrames (config : JournalConfig) (s : JStore) : Option (List Frame) :=
  match Journal.openWith config () (.healthy s) with
  | .ok r _ _ => some r.frames
  | _ => none

/-- What "it never happened" means: seq, sequenced time, service, timers and the frames a later
opening returns are as they were. -/
structure Unchanged (n : Node svc) (s : JStore) (n' : Node svc) (s' : JStore) : Prop where
  seq : n'.seq = n.seq
  lastTimestamp : n'.lastTimestamp = n.lastTimestamp
  service : n'.service = n.service
  timers : n'.timers = n.timers
  frames : ∀ config, recoveredFrames config s' = recoveredFrames config s

/-- **A failed submission has always happened in part.** In no state, with no input and under no
placement of storage failures does a `submit` or `submitBatch` that returns an error leave the
node as it was. -/
theorem failed_submission_leaves_trace (fuel : ℕ) (n n' : Node svc) (w w' : World JStore)
    (e : NodeError) :
    (∀ input, submit fuel input n w = .err e n' w' → ¬Unchanged n w.st n' w'.st) ∧
    (∀ inputs, submitBatch fuel inputs n w = .err e n' w' → ¬Unchanged n w.st n' w'.st) := by
  refine ⟨fun input hrun h => ?_, fun inputs hrun h => ?_⟩
  · have hseq := mwp_err (submit_err_seq fuel input n) hrun
    have := h.seq
    omega
  · have hseq := mwp_err (submitBatch_err_seq fuel inputs n) hrun
    have := h.seq
    omega

/-- Opening a node on an empty directory. -/
def openEmpty : Outcome Unit JStore NodeError (Node doubler) :=
  openWith ⟨⟨1024, .everyFrame⟩, 1, none, 1, none⟩ () (fun _ => 5) ()
    (.healthy ⟨Disk.empty, History.fresh⟩)

/-- The node then makes a submission while the first storage call fails, and another one on the
healthy store; or it submits a batch while the first storage call fails. -/
def failedSubmission := do
  let (n, _, w) ← openEmpty.returned
  let (e, n₁, w₁) ← (submit 4 (1 : UInt64) n { w with fates := [.fault 0] }).failed
  let (e', n₂, w₂) ← (submit 4 (1 : UInt64) n₁ w₁).failed
  let (e'', n₃, w₃) ← (submitBatch 4 ([1, 2] : List UInt64) n { w with fates := [.fault 0] }).failed
  pure ((n, w), (e, n₁, w₁), (e', n₂, w₂), (e'', n₃, w₃))

theorem failedSubmission_runs : ∃ (n n₁ n₂ n₃ : Node doubler) (w w₁ w₂ w₃ : World JStore)
    (e e' : NodeError), openEmpty = .ok n () w ∧
      submit 4 (1 : UInt64) n { w with fates := [.fault 0] } = .err e n₁ w₁ ∧
      submit 4 (1 : UInt64) n₁ w₁ = .err (.journal (.outOfOrderAppend 1 2)) n₂ w₂ ∧
      submitBatch 4 ([1, 2] : List UInt64) n { w with fates := [.fault 0] } = .err e' n₃ w₃ ∧
      (n.seq, n.lastTimestamp) = (0, 0) ∧ (n₁.seq, n₁.lastTimestamp) = (1, 5) := by
  have hscript : (failedSubmission.map fun p => (p.1.1.seq, p.1.1.lastTimestamp, p.2.1.2.1.seq,
      p.2.1.2.1.lastTimestamp, p.2.2.1.1)) =
      some (0, 0, 1, 5, .journal (.outOfOrderAppend 1 2)) := by decide +kernel
  obtain ⟨⟨⟨n, w⟩, ⟨e, n₁, w₁⟩, ⟨e', n₂, w₂⟩, ⟨e'', n₃, w₃⟩⟩, hruns, heq⟩ :=
    Option.map_eq_some_iff.mp hscript
  simp only [failedSubmission, bind, Option.bind_eq_some_iff] at hruns
  obtain ⟨⟨_, _, _⟩, hopen, ⟨_, _, _⟩, hfirst, ⟨_, _, _⟩, hnext, ⟨_, _, _⟩, hbatch, hpure⟩ := hruns
  cases hpure
  rw [Outcome.returned_eq_some] at hopen
  rw [Outcome.failed_eq_some] at hfirst hnext hbatch
  simp only [Prod.mk.injEq] at heq
  obtain ⟨h₀, h₁, h₂, h₃, rfl⟩ := heq
  exact ⟨_, _, _, _, _, _, _, _, _, _, hopen, hfirst, hnext, hbatch, by rw [h₀, h₁], by rw [h₂, h₃]⟩

/-- A failed submission on a freshly opened node: its seq and its sequenced time have advanced, and
the next submission, on a healthy store, is refused because its seq does not continue the
journal. -/
theorem failed_submit_blocks_next : ∃ (n n₁ n₂ : Node doubler) (w w₁ w₂ : World JStore)
    (e : NodeError), openEmpty = .ok n () w ∧
      submit 4 (1 : UInt64) n { w with fates := [.fault 0] } = .err e n₁ w₁ ∧
      (n.seq, n.lastTimestamp) = (0, 0) ∧ (n₁.seq, n₁.lastTimestamp) = (1, 5) ∧
      ¬Unchanged n w.st n₁ w₁.st ∧
      submit 4 (1 : UInt64) n₁ w₁ = .err (.journal (.outOfOrderAppend 1 2)) n₂ w₂ := by
  obtain ⟨n, n₁, n₂, -, w, w₁, w₂, -, e, -, hopen, hfirst, hnext, -, h₀, h₁⟩ := failedSubmission_runs
  refine ⟨n, n₁, n₂, w, w₁, w₂, e, hopen, hfirst, h₀, h₁, fun h => ?_, hnext⟩
  have hseq := h.seq
  rw [(Prod.mk.inj h₀).1, (Prod.mk.inj h₁).1] at hseq
  exact Nat.one_ne_zero hseq

theorem failed_submission_leaves_trace_at_fault : ∃ (n n₁ n₂ : Node doubler)
    (w w₁ w₂ : World JStore) (e e' : NodeError),
      submit 4 (1 : UInt64) n w = .err e n₁ w₁ ∧ ¬Unchanged n w.st n₁ w₁.st ∧
      submitBatch 4 ([1, 2] : List UInt64) n w = .err e' n₂ w₂ ∧ ¬Unchanged n w.st n₂ w₂.st := by
  obtain ⟨n, n₁, -, n₃, w, w₁, -, w₃, e, e', -, hfirst, -, hbatch, -⟩ := failedSubmission_runs
  exact ⟨n, n₁, n₃, _, w₁, w₃, e, e', hfirst,
    (failed_submission_leaves_trace 4 n n₁ _ w₁ e).1 _ hfirst, hbatch,
    (failed_submission_leaves_trace 4 n n₃ _ w₃ e').2 _ hbatch⟩

end Ticktape.Runtime.Node
