import Ticktape.Journal.Tape
import Ticktape.Runtime.Node

/-!
# The inputs of a history

`inputsOf` reads the sequenced inputs back from the frames written. A submission adds its own input
at the end, and nothing else that it does adds or removes one: snapshots only write marks and drop
old files, timers only write firings. No invariant of the node or of its store is needed.
-/

namespace Ticktape.Runtime

open Ticktape.Lib Ticktape.Core Ticktape.Journal

namespace Node

variable {svc : Service} {F : Fate → Prop} {P : List Frame → Prop}

/-- The input a frame carries. -/
def inputOf (svc : Service) (frame : Frame) : Option svc.Input :=
  if frame.kind = .input then (decodeAll frame.payload).toOption else none

/-- The sequenced inputs, in order. -/
def inputsOf (svc : Service) (tape : List Frame) : List svc.Input := tape.filterMap (inputOf svc)

/-- A frame of another kind carries no input. -/
theorem inputsOf_control {t : List Frame} {frame : Frame} (h : frame.kind ≠ .input) :
    inputsOf svc (t ++ [frame]) = inputsOf svc t := by
  simp [inputsOf, inputOf, h]

theorem inputsOf_input [LawfulCodec svc.Input] {t : List Frame} {frame : Frame} {input : svc.Input}
    (hkind : frame.kind = .input) (hpayload : frame.payload = encode input) :
    inputsOf svc (t ++ [frame]) = inputsOf svc t ++ [input] := by
  simp [inputsOf, inputOf, hkind, hpayload, decodeAll_encode, Except.toOption]

/-! ## One frame -/

/-- `P` does not mind a frame of this kind. -/
def Ignores (P : List Frame → Prop) (kind : FrameKind) : Prop :=
  ∀ t frame, frame.kind = kind → P t → P (t ++ [frame])

section Frame

variable {n : Node svc} {s : JStore} {kind : FrameKind} {payload : Bytes} {time : UInt64}

theorem wp_stageFrame_store {E : NodeError → Node svc → JStore → Prop} :
    wp F (stageFrame kind payload time : NProg svc Frame)
      (fun frame _ s' => s' = s ∧ frame.kind = kind ∧ frame.payload = payload) E (fun s' => s' = s) n s := by
  apply wp_bind
  apply wp_mem
  split
  · apply wp_bind
    apply wp_update
    exact wp_pure ⟨rfl, rfl, rfl⟩
  · exact wp_panic rfl

theorem keeps_onJournal {α : Type} {I : JStore → Prop} {p : JProg α} (h : Keeps F I p) :
    Keeps F I (onJournal p : NProg svc α) :=
  keeps_zoom (keeps_mapErr h)

theorem keeps_now {I : JStore → Prop} : Keeps F I (now : NProg svc UInt64) :=
  keeps_bind keeps_mem fun _ => keeps_bind (keeps_update _) fun _ => keeps_pure _

theorem keeps_sequenceAt (h : Ignores P kind) :
    Keeps F (OfTape P) (sequenceAt kind payload time : NProg svc Frame) := by
  intro n s hs
  apply wp_seq (wp_mono wp_stageFrame_store (fun _ _ _ h => h) (fun _ _ _ h => h) fun s' hs' => hs' ▸ hs)
  rintro frame n' s' ⟨rfl, hkind, -⟩
  have happend : Keeps F (OfTape P) (Journal.append frame) := keeps_append fun t => h t frame hkind
  exact keeps_bind (keeps_onJournal happend) (fun _ => keeps_pure _) n' s' hs

theorem keeps_sequence (h : Ignores P kind) :
    Keeps F (OfTape P) (sequence kind payload : NProg svc Frame) :=
  keeps_bind keeps_now fun _ => keeps_sequenceAt h

/-- A sequenced frame is the next one on the tape. -/
theorem wp_sequence_tape {t : List Frame} (hs : s.ghost.tape = t) {R : List Frame → Prop} (hR : R t)
    (hR' : ∀ frame : Frame, frame.kind = kind → frame.payload = payload → R (t ++ [frame])) :
    wp F (sequence kind payload : NProg svc Frame)
      (fun frame _ s' => s'.ghost.tape = t ++ [frame] ∧ frame.kind = kind ∧ frame.payload = payload)
      (fun _ _ => OfTape R) (OfTape R) n s := by
  apply wp_seq (wp_keeping (P := (· = t)) keeps_now hs fun _ h => h ▸ hR)
  intro time n' s' hs'
  apply wp_seq (wp_mono wp_stageFrame_store (fun _ _ _ h => h) (fun _ _ _ h => h)
    fun s'' hs'' => hs'' ▸ (show R s'.ghost.tape from hs' ▸ hR))
  rintro frame n'' s'' ⟨rfl, hkind, hpayload⟩
  have hmaybe : ∀ t', t' = t ∨ t' = t ++ [frame] → R t' := by
    rintro t' (rfl | rfl)
    · exact hR
    · exact hR' frame hkind hpayload
  have happend : wp F (onJournal (Journal.append frame) : NProg svc Unit)
      (fun _ _ => OfTape (· = t ++ [frame])) (fun _ _ => OfTape R) (OfTape R) n'' s'' :=
    wp_zoom (wp_mapErr (wp_mono (wp_append_tape hs') (fun _ _ _ h => h) (fun _ _ _ h => hmaybe _ h)
      fun _ h => hmaybe _ h))
  apply wp_seq happend
  intro _ n₃ s₃ hs₃
  exact wp_pure ⟨hs₃, hkind, hpayload⟩

end Frame

/-! ## After the frame -/

theorem keeps_publish {I : JStore → Prop} (frame : Frame) (outputs : List svc.Output) :
    Keeps F I (publish frame outputs : NProg svc Unit) := keeps_update _

theorem keeps_takeSnapshot (h : Ignores P .snapshotMark) (seq : ℕ) :
    Keeps F (OfTape P) (takeSnapshot seq : NProg svc Unit) := by
  apply keeps_bind keeps_mem
  intro n
  apply keeps_bind (keeps_mapErr ((sstable_ofTape P).write _ _ _))
  intro _
  apply keeps_bind (keeps_sequence h)
  intro mark
  apply keeps_bind (keeps_publish _ _)
  intro _
  apply keeps_bind (keeps_mapErr ((sstable_ofTape P).pruneKeepNewest _))
  intro oldest
  cases oldest with
  | none => exact keeps_pure _
  | some oldest =>
    exact keeps_bind (keeps_onJournal (keeps_compactBelow _)) fun _ => keeps_pure _

theorem keeps_maybeSnapshot (h : Ignores P .snapshotMark) (seq : ℕ) :
    Keeps F (OfTape P) (maybeSnapshot seq : NProg svc Unit) := by
  apply keeps_bind keeps_mem
  intro n
  cases n.snapshotEvery with
  | none => exact keeps_pure _
  | some every => exact keeps_when (keeps_takeSnapshot h seq)

theorem keeps_onCommit {I : JStore → Prop} {α : Type} {none : α}
    {p : Prog (CommitState svc.Output) JStore NodeError α} (h : Keeps F I p) :
    Keeps F I (onCommit p none : NProg svc α) := by
  apply keeps_bind keeps_mem
  intro n
  cases n.commit with
  | none => exact keeps_pure _
  | some state => exact keeps_zoom h

theorem keeps_drainCommitted {I : JStore → Prop} :
    Keeps F I (CommitState.drainCommitted :
      Prog (CommitState svc.Output) JStore NodeError (List (ℕ × List svc.Output))) := by
  apply keeps_bind keeps_mem
  intro state
  split
  · exact keeps_pure _
  · exact keeps_bind (keeps_nextSeq _) fun _ => keeps_bind (keeps_update _) fun _ => keeps_pure _

theorem keeps_finishFrame (h : Ignores P .snapshotMark) (frame : Frame) (outputs : List svc.Output) :
    Keeps F (OfTape P) (finishFrame frame outputs : NProg svc (List svc.Output)) := by
  apply keeps_bind (keeps_publish _ _)
  intro _
  apply keeps_bind (keeps_maybeSnapshot h _)
  intro _
  apply keeps_onCommit
  exact keeps_bind (keeps_update _) fun _ => keeps_bind keeps_drainCommitted fun _ => keeps_pure _

theorem keeps_runStep {I : JStore → Prop} (frame : Frame)
    (step : svc.State → Ctx → Step svc.State svc.Output) :
    Keeps F I (runStep frame step : NProg svc (List svc.Output)) :=
  keeps_bind keeps_mem fun _ => keeps_bind (keeps_update _) fun _ => keeps_pure _

theorem keeps_popDue {I : JStore → Prop} : Keeps F I (popDue : NProg svc (Option UInt64)) := by
  apply keeps_bind keeps_mem
  intro n
  cases n.timers.popDue n.lastTimestamp with
  | none => exact keeps_pure _
  | some due => exact keeps_bind (keeps_update _) fun _ => keeps_pure _

/-- Firing timers, however many. -/
theorem keeps_fireDueTimers (hmark : Ignores P .snapshotMark) (hfired : Ignores P .timerFired)
    (fuel : ℕ) : Keeps F (OfTape P) (fireDueTimers fuel : NProg svc (List svc.Output)) := by
  induction fuel with
  | zero => exact keeps_spin
  | succ fuel ih =>
    apply keeps_bind keeps_popDue
    intro due
    cases due with
    | none => exact keeps_pure _
    | some id =>
      apply keeps_bind keeps_mem
      intro n
      apply keeps_bind (keeps_sequenceAt hfired)
      intro frame
      apply keeps_bind (keeps_runStep _ _)
      intro outputs
      apply keeps_bind (keeps_finishFrame hmark _ _)
      intro released
      exact keeps_bind ih fun _ => keeps_pure _

/-! ## Opening -/

theorem keeps_loadAll {μ : Type} (maxSeq : ℕ) (l : List ℕ) :
    Keeps F (OfTape P) (Snapshots.loadAll maxSeq l : Prog μ JStore JournalError (List LoadedSnapshot)) := by
  induction l with
  | nil => exact keeps_pure _
  | cons k rest ih =>
    apply keeps_bind (keeps_attempt (keeps_ofFile (sstable_ofTape P).disk _ _))
    intro bytes
    apply keeps_bind ih
    intro more
    split
    · exact keeps_pure _
    · split
      · exact keeps_pure _
      · split <;> exact keeps_pure _

theorem keeps_chooseAnchor {μ : Type} (config : svc.Config) (journalFirst : ℕ) (l : List LoadedSnapshot) :
    Keeps F (OfTape P) (chooseAnchor config journalFirst l : Prog μ JStore NodeError _) := by
  induction l with
  | nil => exact keeps_pure _
  | cons snap rest ih =>
    apply keeps_bind (keeps_nextSeq _)
    intro next
    split
    · exact ih
    · split
      · exact ih
      · exact keeps_pure _

/-- Opening a node leaves the tape alone. -/
theorem keeps_openWith {μ : Type} (nodeConfig : NodeConfig) (config : svc.Config) (clock : ℕ → UInt64) :
    Keeps F (OfTape P) (openWith nodeConfig config clock : Prog μ JStore NodeError (Node svc)) := by
  have hdisk := (sstable_ofTape P).disk
  apply keeps_bind (keeps_mapErr ((jstable_ofTape P).openWith _))
  intro recovered
  apply keeps_bind (keeps_mapErr (keeps_bind (keeps_io (keeps_listDir hdisk)) fun _ => keeps_pure _))
  intro highWater
  apply keeps_bind (keeps_mapErr (keeps_bind (keeps_io (keeps_listDir hdisk)) fun _ => keeps_loadAll _ _))
  intro candidates
  apply keeps_bind (keeps_chooseAnchor _ _ _)
  intro anchor
  split
  · exact keeps_fail _
  · apply keeps_bind (keeps_mapErr ((sstable_ofTape P).purgeAfter _))
    intro _
    refine keeps_bind ?_ fun journal => keeps_bind (keeps_ofExcept _) fun r => keeps_pure _
    unfold reseatIfNeeded
    split
    · apply keeps_bind (keeps_nextSeq _)
      intro next
      exact keeps_mapErr (keeps_owning ((jstable_ofTape P).reseatTo next fun _ h => h))
    · exact keeps_pure _

/-! ## Submitting -/

/-- The inputs read from the tape do not change with a frame that carries none. -/
theorem ignores_control (h : List svc.Input) {kind : FrameKind} (hkind : kind ≠ .input) :
    Ignores (fun t => inputsOf svc t = h) kind := by
  intro t frame hframe ht
  rw [inputsOf_control (by rw [hframe]; exact hkind)]
  exact ht

/-- **A submission adds its input to the history**; one that fails or goes down may have. -/
theorem wp_submit_inputs [LawfulCodec svc.Input] {n : Node svc} {s : JStore} (fuel : ℕ)
    (input : svc.Input) :
    wp F (submit fuel input)
      (fun _ _ => OfTape fun t => inputsOf svc t = inputsOf svc s.ghost.tape ++ [input])
      (fun _ _ => OfTape fun t => inputsOf svc t = inputsOf svc s.ghost.tape ∨
        inputsOf svc t = inputsOf svc s.ghost.tape ++ [input])
      (OfTape fun t => inputsOf svc t = inputsOf svc s.ghost.tape ∨
        inputsOf svc t = inputsOf svc s.ghost.tape ++ [input]) n s := by
  apply wp_seq (wp_sequence_tape (t := s.ghost.tape) (R := fun t =>
    inputsOf svc t = inputsOf svc s.ghost.tape ∨ inputsOf svc t = inputsOf svc s.ghost.tape ++ [input])
    rfl (Or.inl rfl) fun frame hkind hpayload => Or.inr (inputsOf_input hkind hpayload))
  rintro frame n' s' ⟨htape, hkind, hpayload⟩
  have hs' : OfTape (fun t => inputsOf svc t = inputsOf svc s.ghost.tape ++ [input]) s' := by
    show inputsOf svc s'.ghost.tape = _
    rw [htape]
    exact inputsOf_input hkind hpayload
  -- what follows writes marks and timer firings only
  have hmark : Ignores (fun t => inputsOf svc t = inputsOf svc s.ghost.tape ++ [input]) .snapshotMark :=
    ignores_control _ (by simp)
  have hfired : Ignores (fun t => inputsOf svc t = inputsOf svc s.ghost.tape ++ [input]) .timerFired :=
    ignores_control _ (by simp)
  refine wp_keeping ?_ hs' fun _ => Or.inr
  apply keeps_bind (keeps_runStep _ _)
  intro outputs
  apply keeps_bind (keeps_finishFrame hmark _ _)
  intro released
  exact keeps_bind (keeps_fireDueTimers hmark hfired fuel) fun _ => keeps_pure _

/-! ## One frame and what follows it -/

/-- `t'` is `t` and, behind it, marks and timer firings. -/
def Follows (t t' : List Frame) : Prop :=
  ∃ rest, t' = t ++ rest ∧ ∀ f ∈ rest, f.kind = .snapshotMark ∨ f.kind = .timerFired

theorem follows_refl (t : List Frame) : Follows t t :=
  ⟨[], (List.append_nil t).symm, fun f hf => by cases hf⟩

theorem ignores_follows (t : List Frame) {kind : FrameKind} (hkind : kind = .snapshotMark ∨ kind = .timerFired) :
    Ignores (Follows t) kind := by
  rintro _ frame hframe ⟨rest, rfl, hrest⟩
  refine ⟨rest ++ [frame], List.append_assoc .., fun f hf => ?_⟩
  rcases List.mem_append.mp hf with hf | hf
  · exact hrest f hf
  · rw [List.mem_singleton.mp hf, hframe]
    exact hkind

/-- **A submission writes its input**, and behind it marks and timer firings only. -/
theorem wp_submit_tape {n : Node svc} {s : JStore} (fuel : ℕ) (input : svc.Input) :
    wp F (submit fuel input) (fun _ _ s' => ∃ frame : Frame, frame.kind = .input ∧ frame.payload = encode input ∧
      Follows (s.ghost.tape ++ [frame]) s'.ghost.tape) (fun _ _ _ => True) (fun _ => True) n s := by
  apply wp_seq (wp_mono (wp_sequence_tape (R := fun _ => True) rfl trivial fun _ _ _ => trivial) (fun _ _ _ h => h)
    (fun _ _ _ _ => trivial) fun _ _ => trivial)
  rintro frame n' s' ⟨htape, hkind, hpayload⟩
  have hmark := ignores_follows (s.ghost.tape ++ [frame]) (Or.inl rfl)
  have hfired := ignores_follows (s.ghost.tape ++ [frame]) (Or.inr rfl)
  have hs' : OfTape (Follows (s.ghost.tape ++ [frame])) s' := htape ▸ follows_refl _
  refine wp_mono (keeps_bind (keeps_runStep _ _) (fun outputs => ?_) n' s' hs')
    (fun _ _ _ h => ⟨frame, hkind, hpayload, h⟩) (fun _ _ _ _ => trivial) fun _ _ => trivial
  apply keeps_bind (keeps_finishFrame hmark _ _)
  intro released
  exact keeps_bind (keeps_fireDueTimers hmark hfired fuel) fun _ => keeps_pure _

/-- **A tick writes its frame**, and behind it marks and timer firings only. -/
theorem wp_tick_tape {n : Node svc} {s : JStore} (fuel : ℕ) :
    wp F (tick fuel : NProg svc ℕ) (fun _ _ s' => ∃ frame : Frame, frame.kind = .tick ∧
      Follows (s.ghost.tape ++ [frame]) s'.ghost.tape) (fun _ _ _ => True) (fun _ => True) n s := by
  apply wp_seq (wp_mono (wp_sequence_tape (R := fun _ => True) rfl trivial fun _ _ _ => trivial) (fun _ _ _ h => h)
    (fun _ _ _ _ => trivial) fun _ _ => trivial)
  rintro frame n' s' ⟨htape, hkind, -⟩
  have hmark := ignores_follows (s.ghost.tape ++ [frame]) (Or.inl rfl)
  have hfired := ignores_follows (s.ghost.tape ++ [frame]) (Or.inr rfl)
  have hs' : OfTape (Follows (s.ghost.tape ++ [frame])) s' := htape ▸ follows_refl _
  refine wp_mono (keeps_bind (keeps_publish _ _) (fun _ => ?_) n' s' hs') (fun _ _ _ h => ⟨frame, hkind, h⟩)
    (fun _ _ _ _ => trivial) fun _ _ => trivial
  apply keeps_bind (keeps_maybeSnapshot hmark _)
  intro _
  apply keeps_bind (keeps_onCommit (keeps_update _))
  intro _
  exact keeps_bind (keeps_fireDueTimers hmark hfired fuel) fun _ => keeps_pure _

end Node

end Ticktape.Runtime
