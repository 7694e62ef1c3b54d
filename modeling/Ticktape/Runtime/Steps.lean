import Ticktape.Runtime.Inputs
import Ticktape.Runtime.Session

/-!
# Operations keep the invariant

`NInv` adds to the invariant of an open node that its service and its wheel belong to the tape. An operation
whose frame could not be journaled leaves a seq that is ahead of the tape for good; such a node journals nothing
more, and nothing is said of its state.
-/

namespace Ticktape.Runtime

open Ticktape.Lib Ticktape.Core Ticktape.Journal

namespace Node

variable {svc : Service} {config : svc.Config} {Live : List Frame → svc.State → TimerWheel → Prop}
  {F : Fate → Prop} {tip : ℕ} {n : Node svc} {s : JStore}

/-! ## The invariant of a session -/

/-- **The invariant of an open node and its state.** -/
structure NInv (Live : List Frame → svc.State → TimerWheel → Prop) (tip : ℕ) (n : Node svc) (s : JStore) :
    Prop where
  store : DInv Live tip n.journal n.seq s
  live : n.seq = s.ghost.tape.length → Live s.ghost.tape n.service n.timers

/-- The node has applied the whole tape. -/
structure Current (Live : List Frame → svc.State → TimerWheel → Prop) (tip : ℕ) (n : Node svc) (s : JStore) :
    Prop where
  store : DInv Live tip n.journal n.seq s
  level : n.seq = s.ghost.tape.length
  live : Live s.ghost.tape n.service n.timers

theorem Current.inv (h : Current Live tip n s) : NInv Live tip n s := ⟨h.store, fun _ => h.live⟩

theorem NInv.current (h : NInv Live tip n s) (hlevel : n.seq = s.ghost.tape.length) : Current Live tip n s :=
  ⟨h.store, hlevel, h.live hlevel⟩

theorem Stuck.inv' (h : Stuck Live tip n s) : NInv Live tip n s :=
  ⟨h.inv, fun heq => absurd heq (Nat.ne_of_gt h.ahead)⟩

/-- Marks do not change what the state belongs to. -/
theorem Current.marked (hT : Tracks config Live) (h : Current Live tip n s) {marked : Bool} {n' : Node svc}
    {s' : JStore} (hmarked : Marked Live tip marked n s n' s') : Current Live tip n' s' := by
  obtain ⟨marks, htape, hkinds⟩ := hmarked.marks
  refine ⟨hmarked.inv, hmarked.level h.level, ?_⟩
  rw [hmarked.service, hmarked.timers, htape]
  exact hT.controls h.live hkinds

theorem Current.missed (h : Current Live tip n s) {seq : ℕ} {n' : Node svc} {s' : JStore}
    (hmissed : Missed Live tip seq n s n' s') : NInv Live tip n' s' := by
  refine ⟨hmissed.inv, fun hlevel => ?_⟩
  obtain ⟨hservice, htimers, htape⟩ := hmissed.idle hlevel
  rw [hservice, htimers, htape]
  exact h.live

/-! ## The commit state -/

section Commit

variable {α : Type} {Q : α → Node svc → JStore → Prop} {E : NodeError → Node svc → JStore → Prop}
  {C : JStore → Prop}

theorem wp_onCommit {p : Prog (CommitState svc.Output) JStore NodeError α} {a : α} (hnone : Q a n s)
    (hsome : ∀ state, wp F p (fun a state' s' => Q a { n with commit := some state' } s')
      (fun e state' s' => E e { n with commit := some state' } s') C state s) :
    wp F (onCommit p a) Q E C n s := by
  apply wp_bind
  apply wp_mem
  cases n.commit with
  | none => exact wp_pure hnone
  | some state => exact wp_zoom (hsome state)

theorem wp_drainCommitted {state : CommitState svc.Output}
    {Q : List (ℕ × List svc.Output) → CommitState svc.Output → JStore → Prop}
    {E : NodeError → CommitState svc.Output → JStore → Prop} (hC : C s) (hQ : ∀ l state', Q l state' s) :
    wp F CommitState.drainCommitted Q E C state s := by
  apply wp_bind
  apply wp_mem
  split
  · exact wp_pure (hQ _ _)
  · apply wp_bind
    refine wp_nextSeq (fun _ => ?_) fun _ => hC
    apply wp_bind
    apply wp_update
    exact wp_pure (hQ _ _)

/-- Withholding outputs is no storage call. -/
theorem wp_withhold {seq : ℕ} {outputs : List svc.Output} {state : CommitState svc.Output}
    {Q : List svc.Output → CommitState svc.Output → JStore → Prop}
    {E : NodeError → CommitState svc.Output → JStore → Prop} (hC : C s) (hQ : ∀ l state', Q l state' s) :
    wp F (withhold seq outputs) Q E C state s := by
  apply wp_bind
  apply wp_update
  apply wp_bind
  apply wp_drainCommitted hC
  intro l state'
  exact wp_pure (hQ _ _)

end Commit

/-! ## One frame -/

theorem wp_runStep {frame : Frame} {step : svc.State → Ctx → Step svc.State svc.Output}
    {Q : List svc.Output → Node svc → JStore → Prop} {E : NodeError → Node svc → JStore → Prop}
    {C : JStore → Prop}
    (h : Q (step n.service ⟨frame.seq, frame.timestamp⟩).outputs { n with
      service := (step n.service ⟨frame.seq, frame.timestamp⟩).state
      timers := n.timers.applyAll (step n.service ⟨frame.seq, frame.timestamp⟩).timers
        (UInt64.ofNat frame.seq) } s) :
    wp F (runStep frame step) Q E C n s := wp_bind (wp_mem (wp_bind (wp_update (wp_pure h))))

theorem wp_popDue {Q : Option UInt64 → Node svc → JStore → Prop} {E : NodeError → Node svc → JStore → Prop}
    {C : JStore → Prop} (hnone : n.timers.popDue n.lastTimestamp = none → Q none n s)
    (hsome : ∀ id, n.timers.popDue n.lastTimestamp = some (id, n.timers.cancel id) →
      Q (some id) { n with timers := n.timers.cancel id } s) : wp F popDue Q E C n s := by
  apply wp_bind
  apply wp_mem
  cases hdue : n.timers.popDue n.lastTimestamp with
  | none => exact wp_pure (hnone hdue)
  | some due =>
    obtain ⟨id, timers⟩ := due
    obtain rfl := TimerWheel.popDue_eq_cancel hdue
    exact wp_bind (wp_update (wp_pure (hsome id hdue)))

/-- **Finishing a frame** of the tape, given the state right after it: a mark may be added. -/
theorem wp_finishFrame (hF : ∀ k, ¬F (.fault k)) (frame : Frame) (outputs : List svc.Output)
    (h : DInv Live tip n.journal n.seq s) (hlive : Live (s.ghost.tape.take frame.seq) n.service n.timers)
    (htip : tip < frame.seq) (hle : frame.seq ≤ s.ghost.tape.length) :
    wp F (finishFrame frame outputs) (fun _ => Marked Live tip (onCadence n.snapshotEvery frame.seq) n s)
      (fun _ => Missed Live tip frame.seq n s) (NCrash Live) n s := by
  apply wp_bind
  apply wp_update
  refine wp_seq (wp_mono (wp_maybeSnapshot hF (n := published n frame outputs) h hlive htip hle frame.seq_lt)
    (fun _ _ _ h => h) (fun _ _ _ h => ⟨h.inv, h.idle, h.taken⟩) fun _ h => h) ?_
  rintro - n' s' ⟨hinv, hlevel, hservice, htimers, hevery, hclock, htime, hmarks⟩
  have hmarked : ∀ commit, Marked Live tip (onCadence n.snapshotEvery frame.seq) n s
      { n' with commit := commit } s' := fun _ =>
    ⟨hinv, hlevel, hservice, htimers, hevery, hclock, htime, hmarks⟩
  apply wp_onCommit
  · exact hmarked n'.commit
  · exact fun state => wp_withhold hinv.crash fun _ state' => hmarked (some state')

/-- A frame at the end of the tape. -/
theorem wp_finishLast (hF : ∀ k, ¬F (.fault k)) (hT : Tracks config Live) {frame : Frame}
    {outputs : List svc.Output} (h : Current Live tip n s) (htip : tip < frame.seq)
    (hlast : frame.seq = s.ghost.tape.length) :
    wp F (finishFrame frame outputs) (fun _ => Current Live tip) (fun _ => NInv Live tip) (NCrash Live) n s :=
  wp_mono (wp_finishFrame hF _ _ h.store (by rw [hlast, List.take_length]; exact h.live) htip hlast.le)
    (fun _ _ _ => h.marked hT) (fun _ _ _ => h.missed) fun _ h => h

/-- The node right after an input or a timer was applied. -/
theorem Grown.applied {kind : FrameKind} {payload : Bytes} {time : UInt64} {clock : ℕ → UInt64} {frame : Frame}
    {n' : Node svc} {s' : JStore} (h : Grown Live tip n s kind payload time clock frame n' s')
    (htip : tip ≤ s.ghost.tape.length) {service : svc.State} {timers : TimerWheel}
    (hlive : Live (s.ghost.tape ++ [frame]) service timers) :
    Current Live tip { n' with service := service, timers := timers } s' ∧ tip < frame.seq ∧
      frame.seq = s'.ghost.tape.length := by
  have hseq : frame.seq = s'.ghost.tape.length := by
    rw [h.tape, h.seq, List.length_append, List.length_singleton]
  have hgrown := h.seq
  have htape := h.tape
  have hinv := h.inv
  obtain ⟨journal, rfl⟩ := h.node
  exact ⟨⟨hinv, hseq, by rw [htape]; exact hlive⟩, by omega, hseq⟩

/-- The node right after a control frame. -/
theorem Grown.current {kind : FrameKind} {payload : Bytes} {time : UInt64} {clock : ℕ → UInt64} {frame : Frame}
    {n' : Node svc} {s' : JStore} (h : Grown Live tip n s kind payload time clock frame n' s')
    (htip : tip ≤ s.ghost.tape.length) (hlive : Live (s.ghost.tape ++ [frame]) n.service n.timers) :
    Current Live tip n' s' ∧ tip < frame.seq ∧ frame.seq = s'.ghost.tape.length := by
  obtain ⟨⟨hstore, hlevel, hlive⟩, hrest⟩ := h.applied htip hlive
  obtain ⟨journal, rfl⟩ := h.node
  exact ⟨⟨hstore, hlevel, hlive⟩, hrest⟩

/-- The state belongs to the tape before the frame. -/
theorem Grown.before {kind : FrameKind} {payload : Bytes} {time : UInt64} {clock : ℕ → UInt64} {frame : Frame}
    {n₀ n' : Node svc} {s' : JStore} (h : Grown Live tip n s kind payload time clock frame n' s')
    (hinv : NInv Live tip n₀ s) (hseq : n₀.seq = n.seq) : Live s.ghost.tape n₀.service n₀.timers :=
  hinv.live (hseq.trans h.level)

/-! ## Timers -/

/-- **Firing timers**, each as its own frame: once it returns, the seq is not ahead unless it was. -/
theorem wp_fireDueTimers (hF : ∀ k, ¬F (.fault k)) (hT : Tracks config Live) (fuel : ℕ)
    (h : NInv Live tip n s) :
    wp F (fireDueTimers fuel)
      (fun _ n' s' => NInv Live tip n' s' ∧ (n.seq = s.ghost.tape.length → n'.seq = s'.ghost.tape.length))
      (fun _ => NInv Live tip) (NCrash Live) n s := by
  induction fuel generalizing n s with
  | zero => exact wp_spin
  | succ fuel ih =>
    apply wp_bind
    apply wp_popDue
    · exact fun _ => wp_pure ⟨h, id⟩
    · intro id _
      apply wp_bind
      apply wp_mem
      have hdec : svc.Codecs → ∀ frame : Frame, frame.kind = .timerFired → frame.payload = encode id →
          Decodes svc frame := by
        intro _ frame hkind hpayload
        simp only [Decodes, hkind]
        exact ⟨id, by rw [hpayload, decodeAll_encode]⟩
      apply wp_seq (wp_mono (wp_sequenceAt hF (n := { n with timers := n.timers.cancel id }) h.store hdec)
        (fun _ _ _ h => h) (fun _ _ _ h => h.inv') fun _ h => h)
      intro frame n₁ s₁ hgrown
      have hbefore := hgrown.before h rfl
      -- the timer has left the wheel, and its handler runs on the state of the tape so far
      have hlive := hT.timer hbefore hgrown.kind (by rw [hgrown.payload, decodeAll_encode])
      obtain ⟨hcurrent, htip, hlast⟩ := hgrown.applied h.store.tip_le hlive
      obtain ⟨journal, rfl⟩ := hgrown.node
      apply wp_bind
      apply wp_runStep
      apply wp_seq (wp_finishLast hF hT hcurrent htip hlast)
      intro released n₂ s₂ h₂
      apply wp_seq (ih h₂.inv)
      rintro more n₃ s₃ ⟨h₃, hlevel⟩
      exact wp_pure ⟨h₃, fun _ => hlevel h₂.level⟩

/-! ## Operations -/

theorem wp_submit (hF : ∀ k, ¬F (.fault k)) (hT : Tracks config Live) (fuel : ℕ) (input : svc.Input)
    (h : NInv Live tip n s) :
    wp F (submit fuel input) (fun _ => Current Live tip) (fun _ => NInv Live tip) (NCrash Live) n s := by
  have hdecode : svc.Codecs → ∀ frame : Frame, frame.payload = encode input →
      (decodeAll frame.payload : Except CodecError svc.Input) = .ok input := by
    intro hcodecs frame hpayload
    have := hcodecs.input
    rw [hpayload, decodeAll_encode]
  have hdec : svc.Codecs → ∀ frame : Frame, frame.kind = .input → frame.payload = encode input →
      Decodes svc frame := by
    intro hcodecs frame hkind hpayload
    simp only [Decodes, hkind]
    exact ⟨input, hdecode hcodecs frame hpayload⟩
  apply wp_seq (wp_mono (wp_sequence hF h.store hdec) (fun _ _ _ h => h) (fun _ _ _ h => h.inv') fun _ h => h)
  intro frame n₁ s₁ hgrown
  have hlive := hT.input (hgrown.before h rfl) hgrown.kind fun hcodecs => hdecode hcodecs frame hgrown.payload
  obtain ⟨hcurrent, htip, hlast⟩ := hgrown.applied h.store.tip_le hlive
  obtain ⟨journal, rfl⟩ := hgrown.node
  apply wp_bind
  apply wp_runStep
  apply wp_seq (wp_finishLast hF hT hcurrent htip hlast)
  intro released n₂ s₂ h₂
  apply wp_seq (wp_fireDueTimers hF hT fuel h₂.inv)
  rintro more n₃ s₃ ⟨h₃, hlevel⟩
  exact wp_pure (h₃.current (hlevel h₂.level))

/-- A control frame: it is published, and a snapshot may be taken. -/
theorem wp_control (hF : ∀ k, ¬F (.fault k)) (hT : Tracks config Live) {kind : FrameKind} {payload : Bytes}
    (hinput : kind ≠ .input) (htimer : kind ≠ .timerFired) {α : Type} {rest : Frame → NProg svc α}
    {Q : α → Node svc → JStore → Prop} (h : NInv Live tip n s)
    (hrest : ∀ frame n' s', Current Live tip n' s' →
      wp F (rest frame) Q (fun _ => NInv Live tip) (NCrash Live) n' s') :
    wp F (do
      let frame ← sequence kind payload
      publish frame []
      maybeSnapshot frame.seq
      noteSelfProgress frame.seq
      rest frame) Q (fun _ => NInv Live tip) (NCrash Live) n s := by
  have hdec : svc.Codecs → ∀ frame : Frame, frame.kind = kind → frame.payload = payload → Decodes svc frame := by
    intro _ frame hkind _
    unfold Decodes
    rw [hkind]
    cases kind <;> trivial
  apply wp_seq (wp_mono (wp_sequence hF h.store hdec) (fun _ _ _ h => h) (fun _ _ _ h => h.inv') fun _ h => h)
  intro frame n₁ s₁ hgrown
  have hlive := hT.control (hgrown.before h rfl) (show frame.kind ≠ .input by rw [hgrown.kind]; exact hinput)
    (by rw [hgrown.kind]; exact htimer)
  obtain ⟨hcurrent, htip, hlast⟩ := hgrown.current h.store.tip_le hlive
  apply wp_bind
  apply wp_update
  have hpublished : Current Live tip (published n₁ frame []) s₁ := ⟨hcurrent.store, hcurrent.level, hcurrent.live⟩
  have hsnap := wp_maybeSnapshot hF hpublished.store
    (by rw [hlast, List.take_length]; exact hpublished.live) htip hlast.le frame.seq_lt
  apply wp_seq (wp_mono hsnap (fun _ _ _ => hpublished.marked hT) (fun _ _ _ => hpublished.missed) fun _ h => h)
  intro _ n₂ s₂ h₂
  have hcommitted : ∀ commit, Current Live tip { n₂ with commit := commit } s₂ := fun _ =>
    ⟨h₂.store, h₂.level, h₂.live⟩
  apply wp_bind
  apply wp_onCommit
  · exact hrest frame n₂ s₂ h₂
  · exact fun state => wp_update (hrest frame _ s₂ (hcommitted _))

theorem wp_tick (hF : ∀ k, ¬F (.fault k)) (hT : Tracks config Live) (fuel : ℕ) (h : NInv Live tip n s) :
    wp F (tick fuel : NProg svc ℕ) (fun _ => Current Live tip) (fun _ => NInv Live tip) (NCrash Live) n s := by
  apply wp_control hF hT (by simp) (by simp) h
  intro frame n' s' h'
  apply wp_seq (wp_fireDueTimers hF hT fuel h'.inv)
  rintro _ n'' s'' ⟨h'', hlevel⟩
  exact wp_pure (h''.current (hlevel h'.level))

theorem wp_fence (hF : ∀ k, ¬F (.fault k)) (hT : Tracks config Live) (epoch : UInt64) (h : NInv Live tip n s) :
    wp F (fence epoch : NProg svc ℕ) (fun _ => Current Live tip) (fun _ => NInv Live tip) (NCrash Live) n s := by
  apply wp_bind
  apply wp_mem
  apply wp_bind
  refine wp_nextSeq (fun _ => ?_) fun _ => h.store.crash
  apply wp_control hF hT (by simp) (by simp) h
  exact fun frame n' s' h' => wp_pure h'

/-- Acknowledgements do not reach the store. -/
theorem wp_recordAck {replica : UInt32} {seq : ℕ} (h : NInv Live tip n s) :
    wp F (recordAck replica seq : NProg svc _) (fun _ => NInv Live tip) (fun _ => NInv Live tip) (NCrash Live)
      n s := by
  have hcommitted : ∀ commit, NInv Live tip { n with commit := commit } s := fun _ => ⟨h.store, h.live⟩
  apply wp_onCommit
  · exact h
  · intro state
    apply wp_bind
    apply wp_update
    exact wp_drainCommitted h.store.crash fun _ _ => hcommitted _

theorem wp_nodeSync (hF : ∀ k, ¬F (.fault k)) (h : NInv Live tip n s) :
    wp F (sync : NProg svc Unit) (fun _ => NInv Live tip) (fun _ => NInv Live tip) (NCrash Live) n s := by
  refine wp_onJournal (wp_mono (h.store.sync hF) ?_ ?_ fun _ h => h)
  all_goals
    rintro - j s' ⟨hinv, htape⟩
    exact ⟨hinv, by rw [htape]; exact h.live⟩

end Node

end Ticktape.Runtime
