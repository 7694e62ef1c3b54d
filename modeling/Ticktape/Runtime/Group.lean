import Ticktape.Runtime.Batch
import Ticktape.Runtime.Steps

/-!
# Group commit

A batch journals its inputs before it applies the first one, so a timer that fires in between is applied out of
turn: in general a batch only keeps what holds of every state. In a quiet batch no timer fires in between, and
the marks of the snapshots come behind the whole batch; there the state belongs to the part of the tape that has
been applied, up to those marks.
-/

namespace Ticktape.Runtime

open Ticktape.Lib Ticktape.Core Ticktape.Journal

namespace Node

variable {svc : Service} {config : svc.Config} {Live : List Frame → svc.State → TimerWheel → Prop}
  {F : Fate → Prop} {tip : ℕ} {n : Node svc} {s : JStore}

/-! ## Staging and journaling -/

/-- Frames staged for a batch: nothing is stored yet. -/
theorem wp_stageAll {time : UInt64} {C : JStore → Prop} (hC : C s) (inputs : List svc.Input) :
    wp F (stageAll time inputs) (fun frames n' s' => s' = s ∧ Staged n time inputs frames n') (fun _ _ _ => False)
      C n s := by
  induction inputs generalizing n with
  | nil => exact wp_pure ⟨rfl, .nil, rfl, by simp, rfl⟩
  | cons input rest ih =>
    apply wp_bind
    apply wp_stageFrame hC
    intro frame hseq hkind hpayload htime
    apply wp_seq ih
    rintro frames n' s' ⟨rfl, h⟩
    exact wp_pure ⟨rfl, .cons hseq hkind hpayload htime h⟩

/-- Journaling a batch: all of it or nothing. -/
theorem DInv.appendBatch (hF : ∀ k, ¬F (.fault k)) {j : Journal} {seq : ℕ} {frames : List Frame}
    (h : DInv Live tip j seq s) (hdec : svc.Codecs → ∀ f ∈ frames, Decodes svc f) :
    wp F (Journal.appendBatch frames) (fun _ j' s' => DInv Live tip j' (seq + frames.length) s' ∧
        s'.ghost.tape = s.ghost.tape ++ frames ∧ SeqRun (s.ghost.tape.length + 1) frames ∧ SameShelf s s')
      (fun _ j' s' => DInv Live tip j' (seq + frames.length) s' ∧ s'.ghost.tape = s.ghost.tape)
      (NCrash Live) j s := by
  have hspec : wp F (Journal.appendBatch frames) (fun _ j' s' => JInv s'.ghost.tape j' s' ∧
      s'.ghost.tape = s.ghost.tape ++ frames)
      (fun _ j' s' => JInv s.ghost.tape j' s' ∧ s'.ghost.tape = s.ghost.tape)
      (CrashAppending s.ghost.tape frames) j s :=
    wp_mono (wp_appendBatch hF h.journal frames (fun _ _ hcrash => hcrash)
      fun _ => ⟨h.journal.crash, Or.inl rfl⟩) (fun _ _ _ h => ⟨h.1, h.2.1⟩) (fun _ _ _ h => ⟨h.1, h.2.1⟩)
      (fun _ h => h)
  exact h.written hdec (Nat.le_add_right ..) (fun _ => Nat.add_le_add_right h.behind _) hspec
    ((jstable_sameShelf s).appending.appendBatch fun _ h => h)

/-- The frames of a batch decode. -/
theorem Staged.decodes {n' : Node svc} {time : UInt64} {inputs : List svc.Input} {frames : List Frame}
    (h : Staged n time inputs frames n') (hcodecs : svc.Codecs) : ∀ f ∈ frames, Decodes svc f := by
  have := hcodecs.input
  have hstaged := h.staged
  clear h
  induction hstaged with
  | nil => exact fun f hf => by cases hf
  | cons hpair _ ih =>
    intro f hf
    rcases List.mem_cons.mp hf with rfl | hf
    · simp only [Decodes, hpair.1]
      exact ⟨_, by rw [hpair.2, decodeAll_encode]⟩
    · exact ih f hf

/-! ## Any batch -/

/-- Applying the frames of a batch, where nothing depends on what the state belongs to. -/
theorem wp_applyAll_any (hF : ∀ k, ¬F (.fault k)) (hT : Tracks config Live)
    (hany : ∀ past state timers, Live past state timers) (fuel : ℕ) {l : List (svc.Input × Frame)}
    (h : DInv Live tip n.journal n.seq s)
    (hl : ∀ p ∈ l, tip < p.2.seq ∧ p.2.seq ≤ s.ghost.tape.length) :
    wp F (applyAll fuel l) (fun _ => NInv Live tip) (fun _ => NInv Live tip) (NCrash Live) n s := by
  induction l generalizing n s with
  | nil => exact wp_pure ⟨h, fun _ => hany _ _ _⟩
  | cons p l ih =>
    obtain ⟨input, frame⟩ := p
    obtain ⟨htip, hle⟩ := hl _ (List.mem_cons_self ..)
    apply wp_bind
    apply wp_runStep
    have hfinish := wp_finishFrame hF frame (svc.apply n.service frame.seq input ⟨frame.seq, frame.timestamp⟩).outputs
      (n := { n with
        service := (svc.apply n.service frame.seq input ⟨frame.seq, frame.timestamp⟩).state
        timers := n.timers.applyAll (svc.apply n.service frame.seq input ⟨frame.seq, frame.timestamp⟩).timers
          (UInt64.ofNat frame.seq) }) h (hany _ _ _) htip hle
    apply wp_seq (wp_mono hfinish (fun _ _ _ h => h) (fun _ _ _ h => ⟨h.inv, fun _ => hany _ _ _⟩) fun _ h => h)
    intro released n₁ s₁ hmarked
    have hgrown := hmarked.length_le
    -- timers only add frames
    have hkeeps : Keeps F (OfTape fun t => s₁.ghost.tape.length ≤ t.length)
        (fireDueTimers fuel : NProg svc (List svc.Output)) := by
      have hignores : ∀ kind, Ignores (fun t => s₁.ghost.tape.length ≤ t.length) kind := by
        intro kind t frame _ ht
        rw [List.length_append]
        omega
      exact keeps_fireDueTimers (hignores _) (hignores _) fuel
    have hfire := wp_fireDueTimers hF hT fuel (n := n₁) (s := s₁) ⟨hmarked.inv, fun _ => hany _ _ _⟩
    apply wp_seq (wp_mono (wp_and hfire (hkeeps n₁ s₁ (Nat.le_refl _))) (fun _ _ _ h => h) (fun _ _ _ h => h.1)
      fun _ h => h.1)
    rintro more n₂ s₂ ⟨⟨h₂, -⟩, hmore⟩
    apply wp_seq (ih h₂.store fun p hp => ?_)
    · exact fun results n₃ s₃ h₃ => wp_pure h₃
    · obtain ⟨hlow, hhigh⟩ := hl p (List.mem_cons_of_mem _ hp)
      exact ⟨hlow, Nat.le_trans hhigh (Nat.le_trans hgrown hmore)⟩

/-- A batch, where nothing depends on what the state belongs to. -/
theorem wp_submitBatch_any (hF : ∀ k, ¬F (.fault k)) (hT : Tracks config Live)
    (hany : ∀ past state timers, Live past state timers) (fuel : ℕ) (inputs : List svc.Input)
    (h : NInv Live tip n s) :
    wp F (submitBatch fuel inputs) (fun _ => NInv Live tip) (fun _ => NInv Live tip) (NCrash Live) n s := by
  unfold submitBatch
  split
  · exact wp_pure h
  · apply wp_bind
    refine wp_bind (wp_mem (wp_bind (wp_update (wp_pure ?_))))
    apply wp_seq (wp_mono (wp_stageAll (n := { n with clock := fun i => n.clock (i + 1) }) h.store.crash inputs)
      (fun _ _ _ h => h) (fun _ _ _ h => h.elim) fun _ h => h)
    rintro frames n₁ s₁ ⟨rfl, hstaged⟩
    have hlen : inputs.length = frames.length := hstaged.staged.length_eq
    have hnode := hstaged.node
    have hbatch := h.store.appendBatch hF hstaged.decodes
    rw [← hlen] at hbatch
    subst hnode
    apply wp_bind
    apply wp_onJournal
    refine wp_mono hbatch ?_ ?_ fun _ h => h
    · rintro - j s₂ ⟨hinv, htape, hrun, -⟩
      apply wp_applyAll_any hF hT hany fuel hinv
      intro p hp
      have hbounds := hrun.bounds (List.of_mem_zip hp).2
      have htip := h.store.tip_le
      rw [htape, List.length_append]
      omega
    · rintro _ j s₂ ⟨hinv, -⟩
      exact ⟨hinv, fun _ => hany _ _ _⟩

/-! ## Quiet batches -/

theorem keeps_sequence_topped {b : ℕ} (kind : FrameKind) (payload : Bytes) :
    Keeps F (Topped b) (sequence kind payload : NProg svc Frame) := by
  apply keeps_bind keeps_now
  intro time
  apply keeps_bind
  · apply keeps_bind keeps_mem
    intro n
    split
    · exact keeps_bind (keeps_update _) fun _ => keeps_pure _
    · exact keeps_panic
  intro frame
  exact keeps_bind (keeps_onJournal ((jstable_topped b).appending.append fun _ h => h)) fun _ => keeps_pure _

theorem keeps_takeSnapshot_topped {b seq : ℕ} (hle : seq ≤ b) :
    Keeps F (Topped b) (takeSnapshot seq : NProg svc Unit) := by
  have hI := jstable_topped b
  apply keeps_bind keeps_mem
  intro n
  apply keeps_bind (keeps_mapErr (keeps_write_topped hle _ _))
  intro _
  apply keeps_bind (keeps_sequence_topped _ _)
  intro mark
  apply keeps_bind (keeps_publish _ _)
  intro _
  apply keeps_bind (keeps_mapErr (keeps_pruneKeepNewest_topped _))
  intro oldest
  cases oldest with
  | none => exact keeps_pure _
  | some oldest =>
    exact keeps_bind (keeps_onJournal (hI.compactBelow _ fun _ h => h)) fun _ => keeps_pure _

theorem keeps_finishFrame_topped {b : ℕ} {frame : Frame} (hle : frame.seq ≤ b) (outputs : List svc.Output) :
    Keeps F (Topped b) (finishFrame frame outputs) := by
  apply keeps_bind (keeps_publish _ _)
  intro _
  apply keeps_bind
  · apply keeps_bind keeps_mem
    intro n
    cases n.snapshotEvery with
    | none => exact keeps_pure _
    | some every => exact keeps_when (keeps_takeSnapshot_topped hle)
  intro _
  apply keeps_onCommit
  exact keeps_bind (keeps_update _) fun _ => keeps_bind keeps_drainCommitted fun _ => keeps_pure _

/-- **A batch under way**: the state belongs to `past`, the frames of `l` are journaled behind it and not applied yet,
and behind them there are only marks. No snapshot is above what has been applied. -/
structure UnderWay (Live : List Frame → svc.State → TimerWheel → Prop) (tip : ℕ) (now : UInt64) (past : List Frame)
    (l : List (svc.Input × Frame)) (n : Node svc) (s : JStore) : Prop where
  store : DInv Live tip n.journal n.seq s
  level : n.seq = s.ghost.tape.length
  live : Live past n.service n.timers
  tape : ∃ marks, s.ghost.tape = past ++ (l.map Prod.snd ++ marks) ∧ ∀ f ∈ marks, f.kind = .snapshotMark
  applied : tip ≤ past.length
  frames : ∀ p ∈ l, p.2.kind = .input ∧ p.2.timestamp = now ∧
    (svc.Codecs → (decodeAll p.2.payload : Except CodecError svc.Input) = .ok p.1)
  topped : l ≠ [] → Topped past.length s
  quiet : BatchView.Quiet n.snapshotEvery now (past.length + 1) n.view (l.map Prod.fst)

/-- A batch that is through. -/
theorem UnderWay.current (hT : Tracks config Live) {now : UInt64} {past : List Frame}
    (h : UnderWay Live tip now past [] n s) : Current Live tip n s := by
  obtain ⟨marks, htape, hkinds⟩ := h.tape
  refine ⟨h.store, h.level, ?_⟩
  rw [htape]
  exact hT.controls h.live hkinds

/-- **One input of a quiet batch** has been applied: once its frame is finished, the next one is under way. -/
theorem UnderWay.next (hF : ∀ k, ¬F (.fault k)) (hT : Tracks config Live) {now : UInt64} {past : List Frame}
    {input : svc.Input} {frame : Frame} {rest : List (svc.Input × Frame)}
    (h : UnderWay Live tip now past ((input, frame) :: rest) n s) :
    wp F (finishFrame frame (svc.apply n.service frame.seq input ⟨frame.seq, frame.timestamp⟩).outputs)
      (fun _ n' s' => UnderWay Live tip now (past ++ [frame]) rest n' s' ∧
        (rest ≠ [] → n'.timers.popDue n'.lastTimestamp = none))
      (fun _ => NInv Live tip) (NCrash Live)
      { n with
        service := (svc.apply n.service frame.seq input ⟨frame.seq, frame.timestamp⟩).state
        timers := n.timers.applyAll (svc.apply n.service frame.seq input ⟨frame.seq, frame.timestamp⟩).timers
          (UInt64.ofNat frame.seq) } s := by
  obtain ⟨marks, htape, hkinds⟩ := h.tape
  obtain ⟨hkind, hnow, hdecode⟩ : frame.kind = .input ∧ frame.timestamp = now ∧ _ :=
    h.frames _ (List.mem_cons_self ..)
  obtain ⟨hdue, hquiet⟩ := h.quiet
  have htopped := h.topped (List.cons_ne_nil _ _)
  rw [List.map_cons, List.cons_append] at htape
  have hseq : frame.seq = past.length + 1 := by
    have hrun := h.store.journal.run
    rw [htape, SeqRun.append] at hrun
    rw [hrun.2.1, Nat.add_comm]
  have hlive := hT.input h.live hkind hdecode
  have htip := h.applied
  have htake : s.ghost.tape.take frame.seq = past ++ [frame] := by
    rw [htape, hseq, List.take_length_add_append, List.take_succ_cons, List.take_zero]
  have hle : frame.seq ≤ s.ghost.tape.length := by
    rw [htape, hseq]
    simp
  have hfinish := wp_finishFrame hF frame (svc.apply n.service frame.seq input ⟨frame.seq, frame.timestamp⟩).outputs
    (n := { n with
      service := (svc.apply n.service frame.seq input ⟨frame.seq, frame.timestamp⟩).state
      timers := n.timers.applyAll (svc.apply n.service frame.seq input ⟨frame.seq, frame.timestamp⟩).timers
        (UInt64.ofNat frame.seq) }) h.store (by rw [htake]; exact hlive) (by omega) hle
  have hkeeps := keeps_finishFrame_topped (F := F) (b := past.length + 1) hseq.le
    (svc.apply n.service frame.seq input ⟨frame.seq, frame.timestamp⟩).outputs
  refine wp_mono (wp_and hfinish (hkeeps _ _ (htopped.mono (Nat.le_succ _)))) ?_ ?_ fun _ h => h.1
  · rintro released n' s' ⟨hmarked, hshelf⟩
    obtain ⟨marks', htape', hkinds'⟩ := hmarked.marks
    have hview : n'.view = n.view.next n.snapshotEvery now (past.length + 1) input := by
      unfold view BatchView.next
      rw [hmarked.service, hmarked.timers, hmarked.clock, hmarked.lastTimestamp, hseq, ← hnow]
    rw [← hview] at hdue hquiet
    refine ⟨⟨hmarked.inv, hmarked.level h.level, ?_, ⟨marks ++ marks', ?_, ?_⟩, ?_, ?_, ?_, ?_⟩, ?_⟩
    · rw [hmarked.service, hmarked.timers]
      exact hlive
    · rw [htape', htape]
      simp
    · intro f hf
      exact (List.mem_append.mp hf).elim (hkinds f) (hkinds' f)
    · rw [List.length_append]
      omega
    · exact fun p hp => h.frames p (List.mem_cons_of_mem _ hp)
    · intro _
      rw [List.length_append, List.length_singleton]
      exact hshelf
    · rw [hmarked.snapshotEvery, List.length_append, List.length_singleton]
      exact hquiet
    · exact fun hne => hdue fun hnil => hne (List.map_eq_nil_iff.mp hnil)
  · -- the snapshot that is due cannot be there already
    rintro e n' s' ⟨hmissed, -⟩
    refine ⟨hmissed.inv, fun hlevel => ?_⟩
    obtain ⟨f, hget⟩ := hmissed.taken hlevel
    have := htopped frame.seq f hget
    omega

/-- **Applying a quiet batch**: every input meets the state of all the frames before it. -/
theorem wp_applyAll_quiet (hF : ∀ k, ¬F (.fault k)) (hT : Tracks config Live) (fuel : ℕ) {now : UInt64}
    {past : List Frame} {l : List (svc.Input × Frame)} (h : UnderWay Live tip now past l n s) :
    wp F (applyAll fuel l) (fun _ => Current Live tip) (fun _ => NInv Live tip) (NCrash Live) n s := by
  induction l generalizing n s past with
  | nil => exact wp_pure (h.current hT)
  | cons p rest ih =>
    obtain ⟨input, frame⟩ := p
    apply wp_bind
    apply wp_runStep
    apply wp_seq (h.next hF hT)
    rintro released n₁ s₁ ⟨h₁, hdue⟩
    cases rest with
    | nil =>
      -- behind the last input timers may fire
      apply wp_seq (wp_fireDueTimers hF hT fuel (h₁.current hT).inv)
      rintro more n₂ s₂ ⟨h₂, hlevel⟩
      exact wp_pure ⟨h₂.store, hlevel h₁.level, h₂.live (hlevel h₁.level)⟩
    | cons p rest =>
      have hnone := hdue (List.cons_ne_nil _ _)
      have hfire : wp F (fireDueTimers fuel : NProg svc (List svc.Output)) (fun _ n₂ s₂ => n₂ = n₁ ∧ s₂ = s₁)
          (fun _ => NInv Live tip) (NCrash Live) n₁ s₁ := by
        cases fuel with
        | zero => exact wp_spin
        | succ fuel =>
          apply wp_bind
          apply wp_popDue
          · exact fun _ => wp_pure ⟨rfl, rfl⟩
          · intro id hsome
            rw [hnone] at hsome
            cases hsome
      apply wp_seq hfire
      rintro more n₂ s₂ ⟨rfl, rfl⟩
      apply wp_seq (ih h₁)
      intro results n₃ s₃ h₃
      exact wp_pure h₃

/-- **A quiet batch** keeps the invariant; if it has inputs and returns, the state belongs to the tape. -/
theorem wp_submitBatch_quiet (hF : ∀ k, ¬F (.fault k)) (hT : Tracks config Live) (fuel : ℕ) (inputs : List svc.Input)
    (hquiet : n.QuietBatch inputs) (h : NInv Live tip n s) :
    wp F (submitBatch fuel inputs)
      (fun _ n' s' => NInv Live tip n' s' ∧ (inputs ≠ [] ∨ n.seq = s.ghost.tape.length → Current Live tip n' s'))
      (fun _ => NInv Live tip) (NCrash Live) n s := by
  unfold submitBatch
  split
  · rename_i hnil
    refine wp_pure ⟨h, fun hlevel => ?_⟩
    have hlevel := hlevel.resolve_left fun hne => hne (List.isEmpty_iff.mp hnil)
    exact ⟨h.store, hlevel, h.live hlevel⟩
  · rename_i hne
    have hne : inputs ≠ [] := fun hnil => hne (List.isEmpty_iff.mpr hnil)
    apply wp_bind
    refine wp_bind (wp_mem (wp_bind (wp_update (wp_pure ?_))))
    apply wp_seq (wp_mono (wp_stageAll (n := { n with clock := fun i => n.clock (i + 1) }) h.store.crash inputs)
      (fun _ _ _ h => h) (fun _ _ _ h => h.elim) fun _ h => h)
    rintro frames n₁ s₁ ⟨rfl, hstaged⟩
    have hlen : inputs.length = frames.length := hstaged.staged.length_eq
    have hnode := hstaged.node
    have hbatch := h.store.appendBatch hF hstaged.decodes
    rw [← hlen] at hbatch
    subst hnode
    apply wp_bind
    apply wp_onJournal
    refine wp_mono hbatch ?_ ?_ fun _ h => h
    · rintro - j s₂ ⟨hinv, htape, hrun, hsame⟩
      -- the first frame of the batch is the next one of the tape
      have hlevel : n.seq = s₁.ghost.tape.length := by
        have hseqs := hstaged.seqs
        cases frames with
        | nil => exact absurd (List.length_eq_zero_iff.mp hlen) hne
        | cons frame rest =>
          rw [hlen, List.map_cons, List.length_cons, List.range'_succ] at hseqs
          have hfirst : frame.seq = n.seq + 1 := List.head_eq_of_cons_eq hseqs
          have hnext := hrun.1
          omega
      refine wp_mono (wp_applyAll_quiet hF hT fuel (show UnderWay Live tip (max (n.clock 0) n.lastTimestamp)
        s₁.ghost.tape (inputs.zip frames) _ s₂ from ?_)) (fun _ _ _ h => ⟨h.inv, fun _ => h⟩) (fun _ _ _ h => h)
        fun _ h => h
      refine ⟨hinv, ?_, h.live hlevel, ⟨[], ?_, fun f hf => by cases hf⟩, h.store.tip_le, ?_, ?_, ?_⟩
      · rw [htape, List.length_append, ← hlen, ← hlevel]
      · rw [htape, List.append_nil, List.map_snd_zip hlen.ge]
      · intro p hp
        obtain ⟨hkind, hpayload⟩ := List.forall₂_zip hstaged.staged hp
        refine ⟨hkind, hstaged.stamps _ (List.of_mem_zip hp).2, fun hcodecs => ?_⟩
        have := hcodecs.input
        rw [hpayload, decodeAll_encode]
      · exact fun _ => h.store.topped.of_snaps hsame.1
      · rw [List.map_fst_zip hlen.le, ← hlevel]
        have hview : (if inputs = [] then n.lastTimestamp else max (n.clock 0) n.lastTimestamp) =
            max (n.clock 0) n.lastTimestamp := if_neg hne
        unfold view
        simp only [hview]
        exact hquiet
    · rintro _ j s₂ ⟨hinv, htape⟩
      -- nothing was journaled: the seq is ahead for good
      refine ⟨hinv, fun hlevel => ?_⟩
      have := h.store.behind
      have := List.length_pos_iff.mpr hne
      rw [htape] at hlevel
      change n.seq + inputs.length = _ at hlevel
      omega

end Node

/-! ## All operations -/

/-- The operations of a node. -/
inductive NodeOp (svc : Service) where
  | submit (fuel : ℕ) (input : svc.Input)
  | submitBatch (fuel : ℕ) (inputs : List svc.Input)
  | tick (fuel : ℕ)
  | fence (epoch : UInt64)
  | recordAck (replica : UInt32) (seq : ℕ)
  | sync
  | subscribe

/-- Run an operation and drop what it returns. -/
def NodeOp.run {svc : Service} : NodeOp svc → NProg svc Unit
  | .submit fuel input => do
    let _ ← Node.submit fuel input
    pure ()
  | .submitBatch fuel inputs => do
    let _ ← Node.submitBatch fuel inputs
    pure ()
  | .tick fuel => do
    let _ ← Node.tick fuel
    pure ()
  | .fence epoch => do
    let _ ← Node.fence epoch
    pure ()
  | .recordAck replica seq => do
    let _ ← Node.recordAck replica seq
    pure ()
  | .sync => Node.sync
  | .subscribe => Node.subscribe

/-- No timer is applied out of turn: the operation is no batch, or a quiet one. -/
def NodeOp.InTurn {svc : Service} (n : Node svc) : NodeOp svc → Prop
  | .submitBatch _ inputs => n.QuietBatch inputs
  | _ => True

/-- **Step lemma**: every operation keeps the invariant, however it ends. -/
theorem wp_nodeOp {svc : Service} {config : svc.Config} {Live : List Frame → svc.State → TimerWheel → Prop}
    {F : Fate → Prop} {tip : ℕ} {n : Node svc} {s : JStore} (hF : ∀ k, ¬F (.fault k)) (hT : Tracks config Live)
    (op : NodeOp svc) (hop : op.InTurn n ∨ ∀ past state timers, Live past state timers) (h : Node.NInv Live tip n s) :
    wp F op.run (fun _ => Node.NInv Live tip) (fun _ => Node.NInv Live tip) (Node.NCrash Live) n s := by
  cases op with
  | submit fuel input => exact wp_seq (Node.wp_submit hF hT fuel input h) fun _ _ _ h => wp_pure h.inv
  | submitBatch fuel inputs =>
    rcases hop with hquiet | hany
    · exact wp_seq (Node.wp_submitBatch_quiet hF hT fuel inputs hquiet h) fun _ _ _ h => wp_pure h.1
    · exact wp_seq (Node.wp_submitBatch_any hF hT hany fuel inputs h) fun _ _ _ h => wp_pure h
  | tick fuel => exact wp_seq (Node.wp_tick hF hT fuel h) fun _ _ _ h => wp_pure h.inv
  | fence epoch => exact wp_seq (Node.wp_fence hF hT epoch h) fun _ _ _ h => wp_pure h.inv
  | recordAck replica seq => exact wp_seq (Node.wp_recordAck h) fun _ _ _ h => wp_pure h
  | sync => exact Node.wp_nodeSync hF h
  | subscribe => exact wp_update ⟨h.store, h.live⟩

end Ticktape.Runtime
