import Ticktape.Runtime.Run

/-!
# Sequenced time

`stage_frame` clamps every reading of the time source to the latest timestamp sequenced, so time never runs
backwards within a session, whatever the storage does. The clamp lives in memory: opening rebuilds it from the
last frame of the journal that survived. So it is lost when the recovered state comes from a snapshot above that
frame, and then a time source that went back stamps the next frame below frames whose effect is in the state.
`TailCovers` is the condition under which this cannot happen.
-/

namespace Ticktape.Runtime

open Ticktape.Lib Ticktape.Core Ticktape.Journal

/-- Timestamps never decrease along the tape. -/
def InTime (t : List Frame) : Prop := t.Pairwise (·.timestamp ≤ ·.timestamp)

/-- The last frame of a part of the history is the latest. -/
theorem InTime.le_last {t : List Frame} {k : ℕ} {f : Frame} (h : InTime t) (hlast : (t.drop k).getLast? = some f) :
    ∀ g ∈ t, g.timestamp ≤ f.timestamp := by
  obtain ⟨front, hfront⟩ := List.getLast?_eq_some_iff.mp hlast
  have ht : t = (t.take k ++ front) ++ [f] := by
    rw [List.append_assoc, ← hfront, List.take_append_drop]
  intro g hg
  rw [InTime, ht] at h
  rw [ht] at hg
  rcases List.mem_append.mp hg with hg | hg
  · exact (List.pairwise_append.mp h).2.2 g hg f (List.mem_singleton_self f)
  · rw [List.mem_singleton.mp hg]
    exact UInt64.le_refl _

namespace Node

variable {svc : Service} {F : Fate → Prop} {n : Node svc} {s : JStore}

/-- No frame of the tape is stamped later than the clamp. -/
structure Clocked (n : Node svc) (s : JStore) : Prop where
  inTime : InTime s.ghost.tape
  clamped : ∀ f ∈ s.ghost.tape, f.timestamp ≤ n.lastTimestamp

/-- Frames that carry the new clamp were written, or not. -/
theorem Clocked.stamped {n' : Node svc} {s' : JStore} {frames : List Frame} (h : Clocked n s)
    (hstamps : ∀ f ∈ frames, f.timestamp = n'.lastTimestamp) (hle : n.lastTimestamp ≤ n'.lastTimestamp)
    (htape : s'.ghost.tape = s.ghost.tape ∨ s'.ghost.tape = s.ghost.tape ++ frames) : Clocked n' s' := by
  have hold : ∀ f ∈ s.ghost.tape, f.timestamp ≤ n'.lastTimestamp := fun f hf =>
    UInt64.le_trans (h.clamped f hf) hle
  rcases htape with htape | htape
  · exact ⟨by rw [htape]; exact h.inTime, by rw [htape]; exact hold⟩
  · refine ⟨?_, ?_⟩
    · rw [htape]
      refine List.pairwise_append.mpr ⟨h.inTime, List.pairwise_of_forall_mem_list fun f hf g hg => ?_,
        fun f hf g hg => ?_⟩
      · rw [hstamps f hf, hstamps g hg]
        exact UInt64.le_refl _
      · rw [hstamps g hg]
        exact hold f hf
    · rw [htape]
      intro f hf
      rcases List.mem_append.mp hf with hf | hf
      · exact hold f hf
      · rw [hstamps f hf]
        exact UInt64.le_refl _

/-! ## Within a session -/

/-- `p` never takes time back, whatever happens to its storage calls. -/
def KeepsTime {α : Type} (F : Fate → Prop) (p : NProg svc α) : Prop :=
  ∀ n s, Clocked n s → wp F p (fun _ => Clocked) (fun _ => Clocked) (OfTape InTime) n s

section Rules

variable {α β : Type}

theorem keepsTime_pure (a : α) : KeepsTime F (pure a : NProg svc α) := fun _ _ h => wp_pure h

theorem keepsTime_bind {p : NProg svc α} {f : α → NProg svc β} (hp : KeepsTime F p)
    (hf : ∀ a, KeepsTime F (f a)) : KeepsTime F (p >>= f) := fun n s h =>
  wp_seq (hp n s h) fun a n' s' h' => hf a n' s' h'

theorem keepsTime_mem : KeepsTime F (Prog.mem : NProg svc (Node svc)) := fun _ _ h => wp_mem h

/-- A program that touches neither the tape nor the clamp. -/
theorem keepsTime_same {p : NProg svc α} (htape : ∀ P, Keeps F (OfTape P) p)
    (hnode : ∀ n, mwp p (fun _ n' => n'.lastTimestamp = n.lastTimestamp)
      (fun _ n' => n'.lastTimestamp = n.lastTimestamp) n) : KeepsTime F p := by
  intro n s h
  have hsame : ∀ (n' : Node svc) s', s'.ghost.tape = s.ghost.tape → n'.lastTimestamp = n.lastTimestamp →
      Clocked n' s' := fun n' s' htape htime =>
    ⟨by rw [htape]; exact h.inTime, by rw [htape, htime]; exact h.clamped⟩
  refine wp_mono (wp_and_mwp (htape (· = s.ghost.tape) n s rfl) (hnode n)) ?_ ?_ ?_
  · exact fun _ n' s' h => hsame n' s' h.1 h.2
  · exact fun _ n' s' h => hsame n' s' h.1 h.2
  · intro s' htape
    show InTime s'.ghost.tape
    rw [show s'.ghost.tape = s.ghost.tape from htape]
    exact h.inTime

end Rules

/-- A staged frame carries the new clamp. -/
theorem wp_stageFrame_clocked (h : Clocked n s) {kind : FrameKind} {payload : Bytes} {time : UInt64}
    {Q : Frame → Node svc → JStore → Prop} {E : NodeError → Node svc → JStore → Prop}
    (hQ : ∀ (frame : Frame) n', frame.timestamp = n'.lastTimestamp → n.lastTimestamp ≤ n'.lastTimestamp →
      Q frame n' s) : wp F (stageFrame kind payload time) Q E (OfTape InTime) n s := by
  apply wp_stageFrame h.inTime
  intro frame _ _ _ htime
  refine hQ frame _ rfl ?_
  rw [htime]
  exact le_max_clamp time n.lastTimestamp

theorem keepsTime_sequenceAt (kind : FrameKind) (payload : Bytes) (time : UInt64) :
    KeepsTime F (sequenceAt kind payload time : NProg svc Frame) := by
  intro n s h
  apply wp_bind
  apply wp_stageFrame_clocked h
  intro frame n' hstamp hle
  have hclocked : ∀ j s', s'.ghost.tape = s.ghost.tape ∨ s'.ghost.tape = s.ghost.tape ++ [frame] →
      Clocked { n' with journal := j } s' := fun j s' htape =>
    Clocked.stamped (n := n) (s := s) h (fun f hf => by rw [List.mem_singleton.mp hf]; exact hstamp) hle
      htape
  apply wp_bind
  apply wp_onJournal
  refine wp_mono (wp_append_tape rfl) ?_ ?_ ?_
  · exact fun _ j s' htape => wp_pure (hclocked j s' (Or.inr htape))
  · exact fun _ j s' htape => hclocked j s' htape
  · exact fun s' htape => (hclocked n.journal s' htape).inTime

theorem keepsTime_now : KeepsTime F (now : NProg svc UInt64) :=
  keepsTime_same (fun _ => keeps_now) fun _ => mwp_now rfl

theorem keepsTime_sequence (kind : FrameKind) (payload : Bytes) :
    KeepsTime F (sequence kind payload : NProg svc Frame) :=
  keepsTime_bind keepsTime_now fun _ => keepsTime_sequenceAt _ _ _

theorem keepsTime_publish (frame : Frame) (outputs : List svc.Output) :
    KeepsTime F (publish frame outputs) :=
  keepsTime_same (fun _ => keeps_publish _ _) fun _ => mwp_update rfl

theorem keepsTime_takeSnapshot (seq : ℕ) : KeepsTime F (takeSnapshot seq : NProg svc Unit) := by
  apply keepsTime_bind keepsTime_mem
  intro n
  apply keepsTime_bind
  · exact keepsTime_same (fun P => keeps_mapErr ((sstable_ofTape P).write _ _ _)) fun _ =>
      mwp_onSnapshots (frozen_write _ _ _) (fun _ => rfl) fun _ => rfl
  intro _
  apply keepsTime_bind (keepsTime_sequence _ _)
  intro mark
  apply keepsTime_bind (keepsTime_publish _ _)
  intro _
  apply keepsTime_bind
  · exact keepsTime_same (fun P => keeps_mapErr ((sstable_ofTape P).pruneKeepNewest _)) fun _ =>
      mwp_onSnapshots (frozen_pruneKeepNewest _) (fun _ => rfl) fun _ => rfl
  intro oldest
  cases oldest with
  | none => exact keepsTime_pure _
  | some oldest =>
    apply keepsTime_bind
    · exact keepsTime_same (fun _ => keeps_onJournal (keeps_compactBelow _)) fun _ =>
        mwp_onJournal (fun _ _ => rfl) fun _ _ => rfl
    · exact fun _ => keepsTime_pure _

theorem keepsTime_maybeSnapshot (seq : ℕ) : KeepsTime F (maybeSnapshot seq : NProg svc Unit) := by
  apply keepsTime_bind keepsTime_mem
  intro n
  cases n.snapshotEvery with
  | none => exact keepsTime_pure _
  | some every => exact fun n s h => wp_when (fun _ => keepsTime_takeSnapshot seq n s h) fun _ => h

theorem keepsTime_onCommit {α : Type} {p : Prog (CommitState svc.Output) JStore NodeError α} {a : α}
    (h : ∀ P, Keeps F (OfTape P) p) : KeepsTime F (onCommit p a : NProg svc α) :=
  keepsTime_same (fun P => keeps_onCommit (h P)) fun _ =>
    mwp_onCommit (fun _ => rfl) fun _ _ => mwp_mono mwp_trivial (fun _ _ _ => rfl) fun _ _ _ => rfl

theorem keepsTime_finishFrame (frame : Frame) (outputs : List svc.Output) :
    KeepsTime F (finishFrame frame outputs) := by
  apply keepsTime_bind (keepsTime_publish _ _)
  intro _
  apply keepsTime_bind (keepsTime_maybeSnapshot _)
  intro _
  exact keepsTime_onCommit fun _ => keeps_bind (keeps_update _) fun _ => keeps_bind keeps_drainCommitted fun _ =>
    keeps_pure _

theorem keepsTime_runStep (frame : Frame) (step : svc.State → Ctx → Step svc.State svc.Output) :
    KeepsTime F (runStep frame step) := keepsTime_same (fun _ => keeps_runStep _ _) fun _ => mwp_runStep rfl

theorem keepsTime_popDue : KeepsTime F (popDue : NProg svc (Option UInt64)) :=
  keepsTime_same (fun _ => keeps_popDue) fun _ => mwp_popDue (fun _ => rfl) fun _ _ _ => rfl

theorem keepsTime_fireDueTimers (fuel : ℕ) : KeepsTime F (fireDueTimers fuel : NProg svc (List svc.Output)) := by
  induction fuel with
  | zero => exact fun _ _ _ => wp_spin
  | succ fuel ih =>
    apply keepsTime_bind keepsTime_popDue
    intro due
    cases due with
    | none => exact keepsTime_pure _
    | some id =>
      apply keepsTime_bind keepsTime_mem
      intro n
      apply keepsTime_bind (keepsTime_sequenceAt _ _ _)
      intro frame
      apply keepsTime_bind (keepsTime_runStep _ _)
      intro outputs
      apply keepsTime_bind (keepsTime_finishFrame _ _)
      intro released
      exact keepsTime_bind ih fun _ => keepsTime_pure _

theorem keepsTime_applyAll (fuel : ℕ) (l : List (svc.Input × Frame)) :
    KeepsTime F (applyAll fuel l : NProg svc (List (ℕ × List svc.Output))) := by
  induction l with
  | nil => exact keepsTime_pure _
  | cons p l ih =>
    obtain ⟨input, frame⟩ := p
    apply keepsTime_bind (keepsTime_runStep _ _)
    intro outputs
    apply keepsTime_bind (keepsTime_finishFrame _ _)
    intro released
    apply keepsTime_bind (keepsTime_fireDueTimers _)
    intro more
    exact keepsTime_bind ih fun _ => keepsTime_pure _

theorem keepsTime_submit (fuel : ℕ) (input : svc.Input) : KeepsTime F (submit fuel input) := by
  apply keepsTime_bind (keepsTime_sequence _ _)
  intro frame
  apply keepsTime_bind (keepsTime_runStep _ _)
  intro outputs
  apply keepsTime_bind (keepsTime_finishFrame _ _)
  intro released
  exact keepsTime_bind (keepsTime_fireDueTimers _) fun _ => keepsTime_pure _

/-- All frames of a batch carry the same timestamp. -/
theorem keepsTime_submitBatch (fuel : ℕ) (inputs : List svc.Input) : KeepsTime F (submitBatch fuel inputs) := by
  unfold submitBatch
  by_cases hnil : inputs = []
  · rw [if_pos (List.isEmpty_iff.mpr hnil)]
    exact keepsTime_pure _
  · rw [if_neg fun hempty => hnil (List.isEmpty_iff.mp hempty)]
    apply keepsTime_bind keepsTime_now
    intro time n s h
    apply wp_seq (wp_mono (wp_stageAll h.inTime inputs) (fun _ _ _ h => h) (fun _ _ _ h => h.elim) fun _ h => h)
    rintro frames n' s' ⟨rfl, hstaged⟩
    have hlast : n'.lastTimestamp = max time n.lastTimestamp := by
      rw [hstaged.node]
      simp only [hnil, if_false]
    have hclocked : ∀ j s'', s''.ghost.tape = s'.ghost.tape ∨ s''.ghost.tape = s'.ghost.tape ++ frames →
        Clocked { n' with journal := j } s'' := by
      intro j s'' htape
      apply h.stamped ?_ ?_ htape
      · exact fun f hf => (hstaged.stamps f hf).trans hlast.symm
      · show n.lastTimestamp ≤ n'.lastTimestamp
        rw [hlast]
        exact le_max_clamp time n.lastTimestamp
    apply wp_bind
    apply wp_onJournal
    refine wp_mono (wp_appendBatch_tape rfl) ?_ ?_ ?_
    · exact fun _ j s'' htape => keepsTime_applyAll _ _ _ _ (hclocked j s'' (Or.inr htape))
    · exact fun _ j s'' htape => hclocked j s'' htape
    · exact fun s'' htape => (hclocked n.journal s'' htape).inTime

theorem keepsTime_noteSelfProgress (seq : ℕ) : KeepsTime F (noteSelfProgress seq : NProg svc Unit) :=
  keepsTime_onCommit fun _ => keeps_update _

theorem keepsTime_tick (fuel : ℕ) : KeepsTime F (tick fuel : NProg svc ℕ) := by
  apply keepsTime_bind (keepsTime_sequence _ _)
  intro frame
  apply keepsTime_bind (keepsTime_publish _ _)
  intro _
  apply keepsTime_bind (keepsTime_maybeSnapshot _)
  intro _
  apply keepsTime_bind (keepsTime_noteSelfProgress _)
  intro _
  exact keepsTime_bind (keepsTime_fireDueTimers _) fun _ => keepsTime_pure _

theorem keepsTime_fence (epoch : UInt64) : KeepsTime F (fence epoch : NProg svc ℕ) := by
  apply keepsTime_bind keepsTime_mem
  intro n
  apply keepsTime_bind
  · exact keepsTime_same (fun _ => keeps_nextSeq _) fun n => mwp_mono (mwp_nextSeq _)
      (fun _ _ h => by rw [h]) fun _ _ h => h
  intro next
  apply keepsTime_bind (keepsTime_sequence _ _)
  intro frame
  apply keepsTime_bind (keepsTime_publish _ _)
  intro _
  apply keepsTime_bind (keepsTime_maybeSnapshot _)
  intro _
  exact keepsTime_bind (keepsTime_noteSelfProgress _) fun _ => keepsTime_pure _

theorem keepsTime_recordAck (replica : UInt32) (seq : ℕ) :
    KeepsTime F (recordAck replica seq : NProg svc (List (ℕ × List svc.Output))) :=
  keepsTime_onCommit fun _ => keeps_bind (keeps_update _) fun _ => keeps_drainCommitted

theorem keepsTime_nodeSync : KeepsTime F (sync : NProg svc Unit) :=
  keepsTime_same (fun P => keeps_onJournal (appendStable_ofTape P).sync) fun _ =>
    mwp_onJournal (fun _ _ => rfl) fun _ _ => rfl

theorem keepsTime_subscribe : KeepsTime F (subscribe : NProg svc Unit) :=
  keepsTime_same (fun _ => keeps_update _) fun _ => mwp_update rfl

end Node

variable {svc : Service}

/-- **Step lemma**: no operation takes time back, however it ends. -/
theorem keepsTime_nodeOp {F : Fate → Prop} (op : NodeOp svc) : Node.KeepsTime F op.run := by
  cases op with
  | submit fuel input => exact Node.keepsTime_bind (Node.keepsTime_submit _ _) fun _ => Node.keepsTime_pure _
  | submitBatch fuel inputs =>
    exact Node.keepsTime_bind (Node.keepsTime_submitBatch _ _) fun _ => Node.keepsTime_pure _
  | tick fuel => exact Node.keepsTime_bind (Node.keepsTime_tick _) fun _ => Node.keepsTime_pure _
  | fence epoch => exact Node.keepsTime_bind (Node.keepsTime_fence _) fun _ => Node.keepsTime_pure _
  | recordAck replica seq =>
    exact Node.keepsTime_bind (Node.keepsTime_recordAck _ _) fun _ => Node.keepsTime_pure _
  | sync => exact Node.keepsTime_nodeSync
  | subscribe => exact Node.keepsTime_subscribe

/-! ## Across recoveries -/

/-- No snapshot file that parses is above the frames that are left of the journal. -/
def TailCovers (nodeConfig : NodeConfig) (w : World JStore) : Prop :=
  match Journal.openWith nodeConfig.journal () w with
  | .ok r _ _ => ∀ p ∈ snaps w.st, ∀ snap, parseSnapshot p.2.combined = some snap → ∃ f ∈ r.frames, snap.seq ≤ f.seq
  | _ => True

namespace Node

variable {Live : List Frame → svc.State → TimerWheel → Prop} {nodeConfig : NodeConfig} {config : svc.Config}
  {clock : ℕ → UInt64} {w w' : World JStore}

/-- The last frame that is left is the last one that has been recovered. -/
theorem Found.frame_le {r : Recovered} {s : JStore} (h : Found Live r s) (hrun : SeqRun 1 s.ghost.tape) :
    ∀ f ∈ r.frames, f.seq ≤ r.journal.lastSeq := by
  intro f hf
  rw [h.frames] at hf
  exact Nat.le_of_lt_succ ((mem_span hrun h.first_pos).mp hf).2.2

/-- Where the tail covers the snapshots, none is above the journal. -/
theorem beneath_of_covers (h : NLoss Live w.st) (hw : w.Benign) (hcovers : TailCovers nodeConfig w) {r : Recovered}
    (hopen : Journal.openWith nodeConfig.journal () w = .ok r () w') : Beneath r.journal.lastSeq w.st := by
  obtain ⟨hfound, -, htape⟩ := h.found hw hopen
  have hrun := hfound.journal.run
  intro p hp snap hparse
  unfold TailCovers at hcovers
  rw [hopen] at hcovers
  obtain ⟨f, hf, hle⟩ := hcovers p hp snap hparse
  have hlast := hfound.frame_le (by rw [htape]; exact h.journal.run) f hf
  exact Nat.le_trans hle hlast

/-- **A recovered node** whose anchor is not above its frames has the clamp it had. -/
theorem Opened.clocked {n : Node svc} {r : Recovered} {fromSeq : ℕ} {s s' : JStore}
    (h : Opened Live nodeConfig config clock r fromSeq s n s') (hfound : Found Live r s) (htime : InTime s.ghost.tape)
    (hcovers : fromSeq = 0 ∨ ∃ f ∈ r.frames, fromSeq ≤ f.seq) (hle : fromSeq ≤ r.journal.lastSeq) :
    Clocked n (resume s' n.seq) := by
  have hseq : n.seq = r.journal.lastSeq := h.seq.trans (Nat.max_eq_left hle)
  have hcut : (resume s' n.seq).ghost.tape = s.ghost.tape.take r.journal.lastSeq := by
    show s'.ghost.tape.take n.seq = _
    rw [h.seated.tape, hseq]
  have htime' : InTime (s.ghost.tape.take r.journal.lastSeq) := List.Pairwise.sublist (List.take_sublist _ _) htime
  obtain ⟨journal, replayed, rfl⟩ := h.node
  refine ⟨by rw [hcut]; exact htime', ?_⟩
  rw [hcut]
  show ∀ f ∈ s.ghost.tape.take r.journal.lastSeq, f.timestamp ≤ ((r.frames.getLast?).map (·.timestamp)).getD 0
  have hframes := hfound.frames
  unfold span at hframes
  rw [Nat.add_sub_cancel] at hframes
  cases hlast : r.frames.getLast? with
  | some f =>
    rw [hframes] at hlast
    exact htime'.le_last hlast
  | none =>
    -- no frame is left: the journal starts at genesis, and is empty
    have hnil := List.getLast?_eq_none_iff.mp hlast
    have hzero : fromSeq = 0 := hcovers.resolve_right fun ⟨f, hf, _⟩ => by rw [hnil] at hf; cases hf
    have hreach := h.resuming.reach
    rw [hnil, show r.firstSeq - 1 = 0 by omega, List.drop_zero] at hframes
    rw [← hframes]
    exact fun f hf => by cases hf

end Node

/-- What holds of the timestamps in every state of a run. -/
structure Timed (o : Option (Node svc)) (s : JStore) : Prop where
  inTime : InTime s.ghost.tape
  clamped : ∀ n, o = some n → ∀ f ∈ s.ghost.tape, f.timestamp ≤ n.lastTimestamp

section Runs

variable {config : svc.Config} {o : Option (Node svc)} {s : JStore}

theorem Timed.clocked {n : Node svc} (h : Timed (some n) s) : Node.Clocked n s := ⟨h.inTime, h.clamped n rfl⟩

theorem Node.Clocked.timed {n : Node svc} (h : n.Clocked s) : Timed (some n) s :=
  ⟨h.inTime, fun _ heq => Option.some.inj heq ▸ h.clamped⟩

/-- A power loss leaves the history. -/
theorem timed_lost {s' : JStore} (h : InTime s.ghost.tape) (hl : s.PowerLoss s') : Timed (none : Option (Node svc)) s' :=
  ⟨by rw [hl.2]; exact h, nofun⟩

/-- Every run whose recoveries cover their snapshots is a run of nodes that recovery can rely on. -/
theorem tracked_covered : Tracked config TailCovers (fun _ _ => True) fun _ _ _ => True where
  tracks := Node.tracks_any
  reliable := fun hcovers hloss hw hopen => Or.inr (Or.inl (Node.beneath_of_covers hloss hw hcovers hopen))
  recovers := Or.inl fun _ _ _ => trivial
  grants := fun _ => Or.inr fun _ _ _ => trivial

/-- **Run lemma**: time does not run backwards as long as no recovery anchors above the frames it has left. -/
theorem timed_of_run (hrun : NodeRun config TailCovers (fun _ _ => True) o s) : Timed o s := by
  have hkeeps : ∀ {n : Node svc} {s op}, Timed (some n) s → wp Fate.benign (NodeOp.run op) (fun _ => Node.Clocked)
      (fun _ => Node.Clocked) (OfTape InTime) n s := fun h => keepsTime_nodeOp _ _ _ h.clocked
  have hopening : ∀ {nodeConfig : NodeConfig} {clock : ℕ → UInt64} {s}, InTime s.ghost.tape →
      wp Fate.benign (Node.openWith nodeConfig config clock : Prog Unit JStore NodeError (Node svc))
        (fun _ _ => OfTape InTime) (fun _ _ => OfTape InTime) (OfTape InTime) () s := fun h =>
    Node.keeps_openWith _ _ _ () _ h
  induction hrun with
  | start => exact ⟨List.Pairwise.nil, nofun⟩
  | @opened w w' n nodeConfig clock hprev hw hcovers hopen ih =>
    have hloss : Node.NLoss _ w.st := tracked_covered.run_inv hprev
    obtain ⟨r, u, w₁, fromSeq, hjournal, hfound, hsame, htape, hopened⟩ :=
      (tracked_covered.opened hloss hw hcovers hopen).1
    have hanchored := hopened.resuming.anchored
    rw [show snaps w₁.st = snaps w.st from hsame.1] at hanchored
    have hcovered : fromSeq = 0 ∨ ∃ f ∈ r.frames, fromSeq ≤ f.seq := by
      refine hanchored.imp_right ?_
      rintro ⟨p, hp, snap, hparse, rfl⟩
      unfold TailCovers at hcovers
      rw [hjournal] at hcovers
      exact hcovers p hp snap hparse
    have hle : fromSeq ≤ r.journal.lastSeq := by
      rcases hcovered with hzero | ⟨f, hf, hle⟩
      · omega
      · exact Nat.le_trans hle (hfound.frame_le (by rw [htape]; exact hloss.journal.run) f hf)
    exact (hopened.clocked hfound (by rw [htape]; exact ih.inTime) hcovered hle).timed
  | refused nodeConfig clock _ hw _ hopen hl ih => exact timed_lost (wp_err (hopening ih.inTime) hw hopen) hl
  | openingLost nodeConfig clock _ hw _ hopen hl ih => exact timed_lost (wp_down (hopening ih.inTime) hw hopen) hl
  | done op _ hw _ hdone ih =>
    have hnext := wp_ok (hkeeps ih) hw hdone
    exact hnext.timed
  | failed op _ hw _ hfailed ih =>
    have hnext := wp_err (hkeeps ih) hw hfailed
    exact hnext.timed
  | lostDuring op _ hw _ hdown hl ih => exact timed_lost (wp_down (hkeeps ih) hw hdown) hl
  | lost _ hl ih => exact timed_lost ih.inTime hl

/-- **Sequenced time does not run backwards**: in every state of every run in which each recovery finds a frame at
or above every snapshot, timestamps never decrease along the history, and the next frame is not stamped below any of
them. -/
theorem sequenced_time_monotone (hrun : NodeRun config TailCovers (fun _ _ => True) o s) :
    SeqRun 1 s.ghost.tape ∧ InTime s.ghost.tape ∧
      ∀ n, o = some n → ∀ f ∈ s.ghost.tape, f.timestamp ≤ n.lastTimestamp := by
  refine ⟨?_, (timed_of_run hrun).inTime, (timed_of_run hrun).clamped⟩
  have hinv := tracked_covered.run_inv hrun
  cases o with
  | none => exact hinv.journal.run
  | some n => exact hinv.choose_spec.store.journal.run

end Runs

/-- A node that ticks once, with a snapshot, loses power and is opened again while the time source went back from
100 to 50, and ticks once more. -/
structure Setback where
  ticked : JStore
  found : Recovered
  reopened : Node doubler
  node : Node doubler
  store : JStore

/-- The two sessions, under a given fsync policy. Power takes everything that is not synced. -/
def setback (fsync : FsyncPolicy) : Option Setback := do
  let opening (time : UInt64) (s : JStore) : Option (Node doubler × Unit × World JStore) :=
    (Node.openWith ⟨⟨1024, fsync⟩, 1, some 1, 1, none⟩ () (fun _ => time) () (.healthy s)).returned
  let (n, _, w) ← opening 100 ⟨Disk.empty, History.fresh⟩
  let (_, _, w₁) ← ((NodeOp.tick 4).run n (.healthy (resume w.st n.seq))).returned
  let lost : JStore := ⟨w₁.st.disk.strip, w₁.st.ghost⟩
  let (found, _, _) ← (Journal.openWith ⟨1024, fsync⟩ () (.healthy lost)).returned
  let (n', _, w₂) ← opening 50 lost
  let (_, n'', w₃) ← ((NodeOp.tick 4).run n' (.healthy (resume w₂.st n'.seq))).returned
  pure ⟨w₁.st, found, n', n'', w₃.st⟩

/-- The script is a run, if its two openings are admitted. -/
theorem nodeRun_setback {Admits : NodeConfig → World JStore → Prop} {fsync : FsyncPolicy} {h : Setback}
    (hrun : setback fsync = some h)
    (hfirst : Admits ⟨⟨1024, fsync⟩, 1, some 1, 1, none⟩ (.healthy ⟨Disk.empty, History.fresh⟩))
    (hsecond : ∀ w', Journal.openWith ⟨1024, fsync⟩ () (.healthy ⟨h.ticked.disk.strip, h.ticked.ghost⟩) =
      .ok h.found () w' →
      Admits ⟨⟨1024, fsync⟩, 1, some 1, 1, none⟩ (.healthy ⟨h.ticked.disk.strip, h.ticked.ghost⟩)) :
    NodeRun () Admits (fun _ _ => True) (some h.node) h.store := by
  simp only [setback, bind, Option.bind_eq_some_iff] at hrun
  obtain ⟨⟨n, _, w⟩, hopen, ⟨_, n₁, w₁⟩, htick, ⟨found, _, w₂⟩, hfound, ⟨n₂, _, w₃⟩, hreopen, ⟨_, n₃, w₄⟩, hnext,
    heq⟩ := hrun
  cases heq
  rw [Outcome.returned_eq_some] at hopen htick hfound hreopen hnext
  have hbenign : ∀ s : JStore, (World.healthy s).Benign := fun s f hf => by cases hf
  have h₁ : NodeRun () Admits (fun _ _ => True) (some n) (resume w.st n.seq) :=
    NodeRun.opened (w := .healthy _) _ _ .start (hbenign _) hfirst hopen
  have h₂ := NodeRun.done (w := .healthy _) _ h₁ (hbenign _) trivial htick
  have h₃ : NodeRun () Admits (fun _ _ => True) (none : Option (Node doubler)) ⟨w₁.st.disk.strip, w₁.st.ghost⟩ :=
    NodeRun.lost h₂ ⟨Disk.powerLoss_strip _, rfl⟩
  have h₄ := NodeRun.opened (w := .healthy _) _ _ h₃ (hbenign _) (hsecond _ hfound) hreopen
  exact NodeRun.done (w := .healthy _) _ h₄ (hbenign _) trivial hnext

/-- Under `everyFrame` the tail is never below a snapshot, and time stands still at 100. -/
theorem sequenced_time_monotone_of_setback : ∃ (n : Node doubler) (s : JStore),
    s.ghost.tape.map (·.timestamp) = [100, 100, 100, 100] ∧ SeqRun 1 s.ghost.tape ∧ InTime s.ghost.tape ∧
      ∀ m, some n = some m → ∀ f ∈ s.ghost.tape, f.timestamp ≤ m.lastTimestamp := by
  have hrun : (setback .everyFrame).any (fun h => decide (h.store.ghost.tape.map (·.timestamp) = [100, 100, 100, 100] ∧
      ∀ p ∈ filesOf .snap h.ticked.disk.strip, (parseSnapshot p.2.combined).all fun snap =>
        h.found.frames.any fun f => decide (snap.seq ≤ f.seq))) = true := by decide +kernel
  obtain ⟨h, hrun, hvals⟩ := (Option.any_eq_true _ _).mp hrun
  obtain ⟨htape, hcovers⟩ := of_decide_eq_true hvals
  refine ⟨h.node, h.store, htape, sequenced_time_monotone (nodeRun_setback hrun ?_ ?_)⟩
  · unfold TailCovers
    split
    · rintro p hp
      have hget := mem_filesOf.mp hp
      rw [show (World.healthy (⟨Disk.empty, History.fresh⟩ : JStore)).st.disk = Disk.empty from rfl, Disk.get_empty] at hget
      cases hget
    · trivial
  · intro w' hopen
    unfold TailCovers
    rw [hopen]
    intro p hp snap hparse
    have hany := hcovers p hp
    rw [hparse] at hany
    obtain ⟨f, hf, hle⟩ := List.any_eq_true.mp hany
    exact ⟨f, hf, of_decide_eq_true hle⟩

/-- **Time runs backwards**: under `never` the frames of the first session are lost, its snapshot is not, and the
frames behind the recovered state are stamped 50. -/
theorem sequenced_time_runs_backwards : ∃ (o : Option (Node doubler)) (s : JStore),
    NodeRun () (fun _ _ => True) (fun _ _ => True) o s ∧ s.ghost.tape.map (·.timestamp) = [100, 50, 50] ∧
      ¬InTime s.ghost.tape := by
  have hrun : (setback .never).any (fun h => decide (h.store.ghost.tape.map (·.timestamp) = [100, 50, 50])) = true := by
    decide +kernel
  obtain ⟨h, hrun, hvals⟩ := (Option.any_eq_true _ _).mp hrun
  have htape := of_decide_eq_true hvals
  refine ⟨some h.node, h.store, nodeRun_setback hrun trivial fun _ _ => trivial, htape, fun hsorted => ?_⟩
  have hstamps : (h.store.ghost.tape.map (·.timestamp)).Pairwise (· ≤ ·) := List.pairwise_map.mpr hsorted
  rw [htape] at hstamps
  exact absurd hstamps (by decide)

end Ticktape.Runtime
