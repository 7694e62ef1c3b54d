import Ticktape.Lib.Fuel
import Ticktape.Journal.Live
import Ticktape.Runtime.Burst

/-!
# When the firing loop ends

A handler may arm timers that are due at once, its own included, and a mark between two firings may move
sequenced time on. So the firing loop need not end. It ends exactly if the burst does: if firing what is due, as the
service's handlers have it, leads to a wheel of which nothing is due (`firing_loop_ends`).
-/

namespace Ticktape.Runtime

open Ticktape.Lib Ticktape.Core Ticktape.Journal

variable {svc : Service}

namespace Burst

variable {every : Option ℕ} {b b' : Burst svc} {l : List Firing}

theorem Fires.snoc {id deadline armedAt : UInt64} (h : Fires every b l b') (hdue : b'.Due id)
    (hget : b'.timers.byId[id]? = some (deadline, armedAt)) :
    Fires every b (l ++ [⟨id, deadline, armedAt, b'.seq + 1, b'.time⟩]) (b'.fired every id) := by
  induction h with
  | none => exact .fire hdue hget .none
  | fire hdue' hget' _ ih => exact .fire hdue' hget' (ih hdue hget)

/-- A burst ends in one way. -/
theorem Fires.unique {b'' : Burst svc} {l' : List Firing} (h : Fires every b l b') (hidle : b'.Idle)
    (h' : Fires every b l' b'') (hidle' : b''.Idle) : l = l' ∧ b' = b'' := by
  induction h generalizing l' with
  | none =>
    cases h' with
    | none => exact ⟨rfl, rfl⟩
    | fire hdue => exact absurd hidle hdue.not_idle
  | fire hdue hget _ ih =>
    cases h' with
    | none => exact absurd hidle' hdue.not_idle
    | fire hdue' hget' hfires' =>
      obtain rfl := hdue.unique hdue'
      obtain ⟨rfl, rfl⟩ := Prod.mk.inj (Option.some.inj (hget.symm.trans hget'))
      obtain ⟨rfl, rfl⟩ := ih hidle hfires'
      exact ⟨rfl, rfl⟩

/-- A snapshot never takes the seq back. -/
theorem seq_le_snapshot (b : Burst svc) (seq : ℕ) : b.seq ≤ (b.snapshot every seq).seq := by
  unfold snapshot
  split
  · exact Nat.le_succ _
  · exact Nat.le_refl _

theorem seq_lt_fired (b : Burst svc) (id : UInt64) : b.seq < (b.fired every id).seq := by
  have hle := @seq_le_snapshot _ every (({ b with timers := b.timers.cancel id, seq := b.seq + 1 } :
    Burst svc).applied (b.seq + 1) b.time fun state ctx => svc.onTimer state id ctx) (b.seq + 1)
  exact Nat.lt_of_succ_le hle

/-- Firings get seqs above those before them. -/
theorem Fires.seqs (h : Fires every b l b') : b.seq ≤ b'.seq ∧ ∀ f ∈ l, b.seq < f.seq ∧ f.seq ≤ b'.seq := by
  induction h with
  | none => exact ⟨Nat.le_refl _, fun f hf => by cases hf⟩
  | @fire b b' l id _ _ _ _ _ ih =>
    have hlt : b.seq < (b.fired every id).seq := seq_lt_fired b id
    refine ⟨Nat.le_trans hlt.le ih.1, fun f hf => ?_⟩
    rcases List.mem_cons.mp hf with rfl | hf
    · exact ⟨Nat.lt_succ_self _, Nat.le_trans hlt ih.1⟩
    · exact ⟨Nat.lt_trans hlt (ih.2 f hf).1, (ih.2 f hf).2⟩

/-- The inputs of a batch are applied one after the other, each followed by the burst it causes; `seq` is that of
the first input. -/
inductive BatchFires (every : Option ℕ) (stamp : UInt64) :
    ℕ → Burst svc → List svc.Input → List Firing → Burst svc → Prop where
  | nil {seq : ℕ} {b : Burst svc} : BatchFires every stamp seq b [] [] b
  | cons {seq : ℕ} {b b' b'' : Burst svc} {input : svc.Input} {rest : List svc.Input} {l l' : List Firing} :
      Fires every ((b.applied seq stamp fun state => svc.apply state seq input).snapshot every seq) l b' →
      b'.Idle → BatchFires every stamp (seq + 1) b' rest l' b'' →
      BatchFires every stamp seq b (input :: rest) (l ++ l') b''

/-- A batch ends in one way. -/
theorem BatchFires.unique {stamp : UInt64} {seq : ℕ} {inputs : List svc.Input} {b'' : Burst svc} {l' : List Firing}
    (h : BatchFires every stamp seq b inputs l b') (h' : BatchFires every stamp seq b inputs l' b'') :
    l = l' ∧ b' = b'' := by
  induction h generalizing l' with
  | nil =>
    cases h' with
    | nil => exact ⟨rfl, rfl⟩
  | cons hfires hidle _ ih =>
    cases h' with
    | cons hfires' hidle' hrest' =>
      obtain ⟨rfl, rfl⟩ := hfires.unique hidle hfires' hidle'
      obtain ⟨rfl, rfl⟩ := ih hrest'
      exact ⟨rfl, rfl⟩

theorem BatchFires.seqs {stamp : UInt64} {seq : ℕ} {inputs : List svc.Input}
    (h : BatchFires every stamp seq b inputs l b') : b.seq ≤ b'.seq ∧ ∀ f ∈ l, b.seq < f.seq ∧ f.seq ≤ b'.seq := by
  induction h with
  | nil => exact ⟨Nat.le_refl _, fun f hf => by cases hf⟩
  | @cons seq b b₁ b₂ input rest l l' hfires _ _ ih =>
    have hstart : b.seq ≤ _ := @seq_le_snapshot _ every
      (b.applied seq stamp fun state => svc.apply state seq input) seq
    obtain ⟨hle, hseqs⟩ := hfires.seqs
    refine ⟨Nat.le_trans hstart (Nat.le_trans hle ih.1), fun f hf => ?_⟩
    rcases List.mem_append.mp hf with hf | hf
    · exact ⟨Nat.lt_of_le_of_lt hstart (hseqs f hf).1, Nat.le_trans (hseqs f hf).2 ih.1⟩
    · exact ⟨Nat.lt_of_le_of_lt (Nat.le_trans hstart hle) (ih.2 f hf).1, (ih.2 f hf).2⟩

/-- The bursts of a batch end. -/
def BatchDrains (every : Option ℕ) (stamp : UInt64) (seq : ℕ) (b : Burst svc) (inputs : List svc.Input) : Prop :=
  ∃ l b', BatchFires every stamp seq b inputs l b'

end Burst

namespace Node

variable {n : Node svc} {w : World JStore}

/-! ## What a call that returns has fired -/

/-- `n'` is `n` after a call that sequenced data frames with the seqs `own` and `b` was its burst, in which it made
the firings `l`; nothing is due any more. -/
structure Ran (n : Node svc) (own : List ℕ) (b : Burst svc) (l : List Firing) (n' : Node svc) : Prop where
  every : n'.snapshotEvery = n.snapshotEvery
  fires : Burst.Fires n.snapshotEvery b l n'.burst
  idle : n'.burst.Idle
  /-- A leader has recorded the highest of its data frames. -/
  noted : n'.own = n.own.map fun o => (own ++ l.map (·.seq)).foldl max o

/-- The firing loop follows the burst to its end. -/
theorem mwp_fireDueTimers_ran (fuel : ℕ) :
    mwp (fireDueTimers fuel) (fun _ n' => ∃ l, Ran n [] n.burst l n') (fun _ _ => True) n := by
  refine mwp_mono (mwp_fireDueTimers_burst (I := fun n' => n'.snapshotEvery = n.snapshotEvery ∧
    ∃ l, Burst.Fires n.snapshotEvery n.burst l n'.burst ∧
      n'.own = n.own.map fun o => (l.map (·.seq)).foldl max o) (E := fun _ _ => True) ?_ ?_ fuel
    ⟨rfl, [], .none, by simp⟩) ?_ ?_
  · rintro n₁ id n₂ ⟨hevery, l, hfires, hnoted⟩ hdue hfired
    obtain ⟨deadline, armedAt, hget, -⟩ := TimerWheel.popDue_some hdue
    have hnext := hfires.snoc hdue hget
    rw [← hevery, ← hfired.burst, hevery] at hnext
    refine ⟨hfired.every.trans hevery, _, hnext, ?_⟩
    rw [hfired.own, hnoted, Option.map_map]
    simp [burst, Function.comp_def]
  · exact fun _ _ _ _ _ _ _ => trivial
  · rintro - n' ⟨⟨hevery, l, hfires, hnoted⟩, hidle⟩
    exact ⟨l, hevery, hfires, hidle, hnoted⟩
  · exact fun _ _ h => h

/-- A call that sequences one frame, and then fires what is due. -/
theorem Entered.ran {kind : FrameKind} {payload : Bytes} {seq : ℕ} {stamp : UInt64} {b : Burst svc}
    {n₁ n' : Node svc} {l : List Firing} (h : Entered n kind payload seq stamp b n₁)
    (hran : Ran n₁ [] n₁.burst l n') : Ran n [seq] b l n' := by
  obtain ⟨hevery, hfires, hidle, hnoted⟩ := hran
  rw [h.every] at hevery hfires
  rw [h.burst] at hfires
  refine ⟨hevery, hfires, hidle, ?_⟩
  rw [hnoted, h.own, Option.map_map]
  rfl

/-! ## Steps without open loops -/

theorem ends_onJournal {α : Type} {p : JProg α} (h : Ends p) : Ends (onJournal p : NProg svc α) :=
  ends_zoom (ends_mapErr h)

theorem ends_now : Ends (now : NProg svc UInt64) :=
  ends_bind ends_mem fun _ => ends_bind (ends_update _) fun _ => ends_pure _

theorem ends_stageFrame (kind : FrameKind) (payload : Bytes) (time : UInt64) :
    Ends (stageFrame kind payload time : NProg svc Frame) := by
  refine ends_bind ends_mem fun n => ?_
  split
  · exact ends_bind (ends_update _) fun _ => ends_pure _
  · exact ends_panic

theorem ends_sequenceAt (kind : FrameKind) (payload : Bytes) (time : UInt64) :
    Ends (sequenceAt kind payload time : NProg svc Frame) :=
  ends_bind (ends_stageFrame _ _ _) fun _ => ends_bind (ends_onJournal (ends_append _)) fun _ => ends_pure _

theorem ends_sequence (kind : FrameKind) (payload : Bytes) : Ends (sequence kind payload : NProg svc Frame) :=
  ends_bind ends_now fun _ => ends_sequenceAt _ _ _

theorem ends_publish (frame : Frame) (outputs : List svc.Output) : Ends (publish frame outputs) := ends_update _

theorem ends_removeAll {μ : Type} (l : List ℕ) : Ends (Snapshots.removeAll l : Prog μ JStore JournalError Unit) := by
  induction l with
  | nil => exact ends_pure _
  | cons k l ih => exact ends_bind (ends_diskCall _) fun _ => ih

theorem ends_pruneKeepNewest (keep : ℕ) :
    Ends (Snapshots.pruneKeepNewest keep : Prog (Node svc) JStore JournalError (Option ℕ)) := by
  refine ends_bind (ends_diskCall _) fun names => ?_
  simp only
  split
  · exact ends_bind (ends_removeAll _) fun _ => ends_bind (ends_diskCall _) fun _ => ends_pure _
  · exact ends_pure _

theorem ends_write (seq epoch : ℕ) (payload : Bytes) :
    Ends (Snapshots.write seq epoch payload : Prog (Node svc) JStore JournalError Unit) :=
  ends_bind (ends_note _) fun _ => ends_bind (ends_diskCall _) fun _ => ends_bind (ends_io (ends_call _ _ _))
    fun _ => ends_bind (ends_diskCall _) fun _ => ends_diskCall _

theorem ends_maybeSnapshot (seq : ℕ) : Ends (maybeSnapshot seq : NProg svc Unit) := by
  refine ends_bind ends_mem fun n => ?_
  cases n.snapshotEvery with
  | none => exact ends_pure _
  | some every =>
    refine ends_when (ends_bind ends_mem fun n => ?_)
    refine ends_bind (ends_mapErr (ends_write _ _ _)) fun _ => ?_
    refine ends_bind (ends_sequence _ _) fun mark => ?_
    refine ends_bind (ends_publish _ _) fun _ => ?_
    refine ends_bind (ends_mapErr (ends_pruneKeepNewest _)) fun oldest => ?_
    cases oldest with
    | none => exact ends_pure _
    | some oldest => exact ends_bind (ends_onJournal (ends_compactBelow _)) fun _ => ends_pure _

theorem ends_onCommit {α : Type} {p : Prog (CommitState svc.Output) JStore NodeError α} (h : Ends p) (a : α) :
    Ends (onCommit p a : NProg svc α) := by
  refine ends_bind ends_mem fun n => ?_
  cases n.commit with
  | none => exact ends_pure _
  | some state => exact ends_zoom h

theorem ends_drainCommitted :
    Ends (CommitState.drainCommitted : Prog (CommitState svc.Output) JStore NodeError _) := by
  refine ends_bind ends_mem fun state => ?_
  split
  · exact ends_pure _
  · exact ends_bind (ends_nextSeq _) fun _ => ends_bind (ends_update _) fun _ => ends_pure _

theorem ends_finishFrame (frame : Frame) (outputs : List svc.Output) : Ends (finishFrame frame outputs) :=
  ends_bind (ends_publish _ _) fun _ => ends_bind (ends_maybeSnapshot _) fun _ =>
    ends_onCommit (ends_bind (ends_update _) fun _ => ends_bind ends_drainCommitted fun _ => ends_pure _) _

theorem ends_runStep (frame : Frame) (step : svc.State → Ctx → Step svc.State svc.Output) :
    Ends (runStep frame step) :=
  ends_bind ends_mem fun _ => ends_bind (ends_update _) fun _ => ends_pure _

theorem ends_popDue : Ends (popDue : NProg svc (Option UInt64)) := by
  refine ends_bind ends_mem fun n => ?_
  cases n.timers.popDue n.lastTimestamp with
  | none => exact ends_pure _
  | some due => exact ends_bind (ends_update _) fun _ => ends_pure _

theorem ends_stageAll (time : UInt64) (inputs : List svc.Input) :
    Ends (stageAll time inputs : NProg svc (List Frame)) := by
  induction inputs with
  | nil => exact ends_pure _
  | cons input rest ih => exact ends_bind (ends_stageFrame _ _ _) fun _ => ends_bind ih fun _ => ends_pure _

/-! ## Enough fuel for a burst that ends -/

/-- The frame of a timer, and all that comes with it. -/
def firing (id : UInt64) : NProg svc (List svc.Output) := do
  let n ← Prog.mem
  let frame ← sequenceAt .timerFired (encode id) n.lastTimestamp
  let outputs ← runStep frame fun state ctx => svc.onTimer state id ctx
  finishFrame frame outputs

theorem ends_firing (id : UInt64) : Ends (firing id : NProg svc (List svc.Output)) :=
  ends_bind ends_mem fun _ => ends_bind (ends_sequenceAt _ _ _) fun _ => ends_bind (ends_runStep _ _) fun _ =>
    ends_finishFrame _ _

/-- One round of the loop, given what was due. -/
def fireNext (fuel : ℕ) : Option UInt64 → NProg svc (List svc.Output)
  | none => pure []
  | some id => do
    let released ← firing id
    let more ← fireDueTimers fuel
    pure (released ++ more)

theorem fireDueTimers_succ (fuel : ℕ) :
    (fireDueTimers (fuel + 1) : NProg svc (List svc.Output)) = popDue >>= fireNext fuel := by
  rw [fireDueTimers]
  refine bind_congr fun due => ?_
  cases due with
  | none => rfl
  | some id => simp only [fireNext, firing, bind_assoc]

/-- **A burst that ends** needs only so much fuel. -/
theorem settles_fireDueTimers {every : Option ℕ} {b : Burst svc} (h : b.Drains every) (hburst : n.burst = b)
    (hevery : n.snapshotEvery = every) : Settles fireDueTimers n w := by
  induction h generalizing n w with
  | idle hidle =>
    subst hburst
    apply settles_succ
    simp only [fireDueTimers_succ]
    refine settles_step ends_popDue (mwp_popDue (Q := fun due n' => due = none) (E := fun _ _ => True)
      (fun _ => rfl) fun id timers hpop => ?_) ?_
    · have hidle : n.timers.popDue n.lastTimestamp = none := hidle
      rw [hpop] at hidle
      cases hidle
    · rintro due n' w' rfl
      exact settles_of_ends (ends_pure _)
  | @fire b id hdue _ ih =>
    subst hburst
    apply settles_succ
    simp only [fireDueTimers_succ]
    refine settles_step ends_popDue (mwp_popDue (Q := fun due n' => due = some id ∧
      n' = { n with timers := n.timers.cancel id }) (E := fun _ _ => True) (fun hnone => ?_) fun id' timers hpop => ?_) ?_
    · have hdue : n.timers.popDue n.lastTimestamp = _ := hdue
      rw [hnone] at hdue
      cases hdue
    · have hdue : n.timers.popDue n.lastTimestamp = _ := hdue
      rw [hpop] at hdue
      obtain ⟨rfl, rfl⟩ := Prod.mk.inj (Option.some.inj hdue)
      exact ⟨rfl, rfl⟩
    · rintro due n₁ w₁ ⟨rfl, rfl⟩
      have hfiring : mwp (firing id) (fun _ n' => Fired n id n') (fun _ _ => True)
          { n with timers := n.timers.cancel id } := by
        rw [← bind_pure (firing id)]
        simp only [firing, bind_assoc]
        exact mwp_bind (mwp_mem (mwp_firing (fun _ n' hfired => mwp_pure hfired) fun _ _ _ => trivial))
      refine settles_step (ends_firing id) hfiring ?_
      intro released n₂ w₂ hfired
      refine settles_then (ih ?_ (hfired.every.trans hevery)) fun more => ends_pure _
      rw [hfired.burst, hevery]

/-! ## Enough fuel for an operation -/

theorem settles_submit {input : svc.Input} (h : (n.inputBurst input).Drains n.snapshotEvery) :
    Settles (fun fuel => submit fuel input) n w := by
  have hsplit : ∀ fuel, submit fuel input = (do
      let frame ← sequence .input (encode input)
      let outputs ← runStep frame fun state ctx => svc.apply state frame.seq input ctx
      let released ← finishFrame frame outputs
      pure (frame, released)) >>= fun entered => fireDueTimers fuel >>= fun more =>
      (pure (entered.1.seq, entered.2 ++ more) : NProg svc _) := by
    intro fuel
    simp only [submit, bind_assoc, pure_bind]
  simp only [hsplit]
  refine settles_step (Q := fun _ n' => Entered n .input (encode input) (n.seq + 1) n.stamp (n.inputBurst input) n')
    ?_ (mwp_input_burst (fun frame released n' hentered => mwp_pure hentered) fun _ _ _ => trivial) ?_
  · exact ends_bind (ends_sequence _ _) fun _ => ends_bind (ends_runStep _ _) fun _ =>
      ends_bind (ends_finishFrame _ _) fun _ => ends_pure _
  · intro entered n' w' hentered
    exact settles_then (settles_fireDueTimers h hentered.burst hentered.every) fun _ => ends_pure _

theorem settles_tick (h : n.controlBurst.Drains n.snapshotEvery) : Settles (tick : ℕ → NProg svc ℕ) n w := by
  have hsplit : ∀ fuel, (tick fuel : NProg svc ℕ) = (do
      let frame ← sequence .tick []
      publish frame []
      maybeSnapshot frame.seq
      noteSelfProgress frame.seq
      pure frame) >>= fun frame => fireDueTimers fuel >>= fun _ => pure frame.seq := by
    intro fuel
    simp only [tick, bind_assoc, pure_bind]
  show Settles (fun fuel => tick fuel) n w
  simp only [hsplit]
  refine settles_step (Q := fun _ n' => Entered n .tick [] (n.seq + 1) n.stamp n.controlBurst n')
    ?_ (mwp_control_burst (fun frame n' hentered => mwp_pure hentered) fun _ _ _ => trivial) ?_
  · exact ends_bind (ends_sequence _ _) fun _ => ends_bind (ends_publish _ _) fun _ =>
      ends_bind (ends_maybeSnapshot _) fun _ => ends_bind (ends_onCommit (ends_update _) _) fun _ => ends_pure _
  · intro frame n' w' hentered
    exact settles_then (settles_fireDueTimers h hentered.burst hentered.every) fun _ => ends_pure _

/-- The frames of `l` have the seqs from `seq` on, and one timestamp. -/
def StagedFrom (seq : ℕ) (stamp : UInt64) (l : List (svc.Input × Frame)) : Prop :=
  l.map (·.2.seq) = List.range' seq l.length ∧ ∀ p ∈ l, p.2.timestamp = stamp

theorem StagedFrom.cons {seq : ℕ} {stamp : UInt64} {p : svc.Input × Frame} {l : List (svc.Input × Frame)}
    (h : StagedFrom seq stamp (p :: l)) : p.2.seq = seq ∧ p.2.timestamp = stamp ∧ StagedFrom (seq + 1) stamp l := by
  obtain ⟨hseqs, hstamps⟩ := h
  rw [List.map_cons, List.length_cons, List.range'_succ] at hseqs
  obtain ⟨hseq, hseqs⟩ := List.cons.inj hseqs
  exact ⟨hseq, hstamps p (List.mem_cons_self ..), hseqs, fun q hq => hstamps q (List.mem_cons_of_mem _ hq)⟩

theorem Staged.from {n' : Node svc} {time : UInt64} {inputs : List svc.Input} {frames : List Frame}
    (h : Staged n time inputs frames n') :
    StagedFrom (n.seq + 1) (max time n.lastTimestamp) (inputs.zip frames) := by
  have hlen : inputs.length = frames.length := h.staged.length_eq
  refine ⟨?_, fun p hp => h.stamps _ (List.of_mem_zip hp).2⟩
  rw [h.zip_seqs, List.length_zip, ← hlen, Nat.min_self]

/-- Inputs whose bursts end are applied with so much fuel. -/
theorem settles_applyAll {every : Option ℕ} {stamp : UInt64} {seq : ℕ} {l : List (svc.Input × Frame)}
    (h : n.burst.BatchDrains every stamp seq (l.map Prod.fst)) (hstaged : StagedFrom seq stamp l)
    (hevery : n.snapshotEvery = every) : Settles (fun fuel => applyAll fuel l) n w := by
  obtain ⟨fired, b', h⟩ := h
  induction l generalizing n w seq fired with
  | nil => exact settles_of_ends (ends_pure _)
  | cons p rest ih =>
    obtain ⟨input, frame⟩ := p
    obtain ⟨hseq, hstamp, hrest⟩ := hstaged.cons
    have hseq : frame.seq = seq := hseq
    have hstamp : frame.timestamp = stamp := hstamp
    subst hseq hstamp hevery
    cases h with
    | @cons _ _ b₁ _ _ _ fired fired' hfires hidle hrestfires =>
      have hsplit : ∀ fuel, applyAll fuel ((input, frame) :: rest) = (do
          let outputs ← runStep frame fun state ctx => svc.apply state frame.seq input ctx
          finishFrame frame outputs) >>= fun released => fireDueTimers fuel >>= fun more =>
          applyAll fuel rest >>= fun results =>
            (pure ((frame.seq, released ++ more) :: results) : NProg svc _) := by
        intro fuel
        simp only [applyAll, bind_assoc]
      simp only [hsplit]
      have hentered : mwp (do
          let outputs ← runStep frame fun state ctx => svc.apply state frame.seq input ctx
          finishFrame frame outputs) (fun _ n' => Entered n frame.kind frame.payload frame.seq frame.timestamp
            (n.stagedBurst input frame.seq frame.timestamp) n') (fun _ _ => True) n := by
        have hpure := bind_pure (runStep frame (fun state ctx => svc.apply state frame.seq input ctx) >>=
          fun outputs => finishFrame frame outputs)
        rw [← hpure, bind_assoc]
        exact mwp_dataFrame (n := n) rfl rfl rfl rfl (fun _ n' hentered => mwp_pure hentered) fun _ _ _ => trivial
      refine settles_step (ends_bind (ends_runStep _ _) fun _ => ends_finishFrame _ _) hentered ?_
      intro released n₁ w₁ h₁
      have hburst : n₁.burst = n.stagedBurst input frame.seq frame.timestamp := h₁.burst
      have hdrains₁ : n₁.burst.Drains n₁.snapshotEvery := by
        rw [hburst, h₁.every]
        exact hfires.drains hidle
      refine settles_bind (settles_fireDueTimers hdrains₁ rfl rfl) (fun fuel => mwp_fireDueTimers_ran fuel) ?_
      rintro more n₂ w₂ ⟨fired₂, hran⟩
      -- the loop stops where the burst does
      have hsame : n₂.burst = b₁ := by
        have hfires₂ := hran.fires
        rw [hburst, h₁.every] at hfires₂
        exact (hfires₂.unique hran.idle hfires hidle).2
      refine settles_then (ih hrest (hran.every.trans h₁.every) fired' ?_) fun _ => ends_pure _
      rw [hsame]
      exact hrestfires

theorem settles_submitBatch {inputs : List svc.Input}
    (h : (n.batchStaged inputs).burst.BatchDrains n.snapshotEvery n.stamp (n.seq + 1) inputs) :
    Settles (fun fuel => submitBatch fuel inputs) n w := by
  unfold submitBatch
  by_cases hnil : inputs = []
  · simp only [if_pos (List.isEmpty_iff.mpr hnil)]
    exact settles_of_ends (ends_pure _)
  · simp only [if_neg fun hempty => hnil (List.isEmpty_iff.mp hempty)]
    refine settles_step (Q := fun time n' => time = n.clock 0 ∧ n' = { n with clock := fun i => n.clock (i + 1) })
      ends_now (E := fun _ _ => True) (mwp_now ⟨rfl, rfl⟩) ?_
    rintro time n₁ w₁ ⟨rfl, rfl⟩
    refine settles_step (ends_stageAll _ _) (mwp_stageAll (E := fun _ _ => True) _ inputs) ?_
    intro frames n₂ w₂ hstaged
    have hnode : n₂ = n.batchStaged inputs := by
      rw [hstaged.node]
      simp only [hnil, if_false]
      rfl
    have hfrom := hstaged.from
    subst hnode
    refine settles_step (ends_onJournal (ends_appendBatch _)) (Q := fun _ n' => ∃ journal,
      n' = { n.batchStaged inputs with journal := journal }) (E := fun _ _ => True)
      (mwp_onJournal (fun _ journal => ⟨journal, rfl⟩) fun _ _ => trivial) ?_
    rintro - n₃ w₃ ⟨journal, rfl⟩
    refine settles_applyAll ?_ hfrom rfl
    rw [List.map_fst_zip hstaged.staged.length_eq.le]
    exact h

/-! ## What an operation that returns has done -/

theorem mwp_submit_ran (fuel : ℕ) (input : svc.Input) :
    mwp (submit fuel input) (fun _ n' => ∃ l, Ran n [n.seq + 1] (n.inputBurst input) l n') (fun _ _ => True) n := by
  refine mwp_input_burst (fun frame released n₁ hentered => ?_) fun _ _ _ => trivial
  refine mwp_seq (mwp_fireDueTimers_ran fuel) ?_
  rintro more n' ⟨l, hran⟩
  exact mwp_pure ⟨l, hentered.ran hran⟩

theorem mwp_tick_ran (fuel : ℕ) :
    mwp (tick fuel) (fun _ n' => ∃ l, Ran n [n.seq + 1] n.controlBurst l n') (fun _ _ => True) n := by
  refine mwp_control_burst (fun frame n₁ hentered => ?_) fun _ _ _ => trivial
  refine mwp_seq (mwp_fireDueTimers_ran fuel) ?_
  rintro more n' ⟨l, hran⟩
  exact mwp_pure ⟨l, hentered.ran hran⟩

/-- `n'` is `n` after a batch whose first input has seq `seq`. -/
structure BatchRan (n : Node svc) (stamp : UInt64) (seq : ℕ) (inputs : List svc.Input) (l : List Firing)
    (n' : Node svc) : Prop where
  every : n'.snapshotEvery = n.snapshotEvery
  fires : Burst.BatchFires n.snapshotEvery stamp seq n.burst inputs l n'.burst
  noted : n'.own = n.own.map fun o => (List.range' seq inputs.length ++ l.map (·.seq)).foldl max o

theorem mwp_applyAll_ran {stamp : UInt64} {seq : ℕ} {l : List (svc.Input × Frame)}
    (hstaged : StagedFrom seq stamp l) (fuel : ℕ) :
    mwp (applyAll fuel l) (fun _ n' => ∃ fired, BatchRan n stamp seq (l.map Prod.fst) fired n') (fun _ _ => True)
      n := by
  induction l generalizing n seq with
  | nil => exact mwp_pure ⟨[], rfl, .nil, by simp⟩
  | cons p rest ih =>
    obtain ⟨input, frame⟩ := p
    obtain ⟨hseq, hstamp, hrest⟩ := hstaged.cons
    have hseq : frame.seq = seq := hseq
    have hstamp : frame.timestamp = stamp := hstamp
    subst hseq hstamp
    refine mwp_dataFrame (n := n) rfl rfl rfl rfl (fun released n₁ h₁ => ?_) fun _ _ _ => trivial
    refine mwp_seq (mwp_fireDueTimers_ran fuel) ?_
    rintro more n₂ ⟨fired, hran⟩
    refine mwp_seq (ih hrest) ?_
    rintro results n₃ ⟨fired', hevery, hfires, hnoted⟩
    have hran' := h₁.ran hran
    rw [hran'.every] at hfires hevery
    refine mwp_pure ⟨fired ++ fired', hevery, .cons hran'.fires hran'.idle hfires, ?_⟩
    rw [hnoted, hran'.noted, Option.map_map, List.map_cons, List.length_cons, List.range'_succ, List.map_append]
    congr 1
    funext o
    simp only [Function.comp_apply, ← List.foldl_append]
    -- the same seqs in another order
    refine List.Perm.foldl_eq ?_ o
    simp only [List.cons_append, List.nil_append]
    exact (List.perm_append_comm_assoc _ _ _).cons _

theorem mwp_submitBatch_ran (fuel : ℕ) (inputs : List svc.Input) :
    mwp (submitBatch fuel inputs)
      (fun _ n' => inputs = [] ∧ n' = n ∨
        inputs ≠ [] ∧ ∃ l, BatchRan (n.batchStaged inputs) n.stamp (n.seq + 1) inputs l n')
      (fun _ _ => True) n := by
  unfold submitBatch
  by_cases hnil : inputs = []
  · rw [if_pos (List.isEmpty_iff.mpr hnil)]
    exact mwp_pure (Or.inl ⟨hnil, rfl⟩)
  · rw [if_neg fun hempty => hnil (List.isEmpty_iff.mp hempty)]
    refine mwp_bind (mwp_now (mwp_bind (mwp_mono (mwp_stageAll (E := fun _ _ => True) _ inputs) ?_
      fun _ _ h => h)))
    intro frames n₁ hstaged
    have hnode : n₁ = n.batchStaged inputs := by
      rw [hstaged.node]
      simp only [hnil, if_false]
      rfl
    have hfrom := hstaged.from
    subst hnode
    refine mwp_bind (mwp_onJournal (fun _ journal => ?_) fun _ _ => trivial)
    have hran := mwp_applyAll_ran (n := { n.batchStaged inputs with journal := journal }) hfrom fuel
    rw [List.map_fst_zip hstaged.staged.length_eq.le] at hran
    refine mwp_mono hran ?_ fun _ _ h => h
    rintro results n' ⟨l, hevery, hfires, hnoted⟩
    exact Or.inr ⟨hnil, l, hevery, hfires, hnoted⟩

/-! ## Exactly when -/

/-- **A call ends exactly if `C`**: then enough fuel makes it end, so that it returns unless a storage call fails or
the process is lost; and it never returns otherwise. -/
structure EndsExactly {α : Type} (f : ℕ → NProg svc α) (n : Node svc) (w : World JStore) (C : Prop) : Prop where
  ends : C → Settles f n w
  only : ∀ fuel a n' w', f fuel n w = .ok a n' w' → C

/-- **The firing loop ends exactly if its burst does**, from every node and in every world; and so does each
operation. -/
theorem firing_loop_ends (n : Node svc) (w : World JStore) :
    EndsExactly fireDueTimers n w (n.burst.Drains n.snapshotEvery) ∧
    (∀ input, EndsExactly (fun fuel => submit fuel input) n w ((n.inputBurst input).Drains n.snapshotEvery)) ∧
    EndsExactly tick n w (n.controlBurst.Drains n.snapshotEvery) ∧
    ∀ inputs, EndsExactly (fun fuel => submitBatch fuel inputs) n w
      ((n.batchStaged inputs).burst.BatchDrains n.snapshotEvery n.stamp (n.seq + 1) inputs) := by
  refine ⟨⟨fun h => settles_fireDueTimers h rfl rfl, ?_⟩, fun input => ⟨settles_submit, ?_⟩, ⟨settles_tick, ?_⟩,
    fun inputs => ⟨settles_submitBatch, ?_⟩⟩
  · intro fuel released n' w' hrun
    obtain ⟨l, hran⟩ := mwp_ok (mwp_fireDueTimers_ran fuel) hrun
    exact hran.fires.drains hran.idle
  · intro fuel result n' w' hrun
    obtain ⟨l, hran⟩ := mwp_ok (mwp_submit_ran fuel input) hrun
    exact hran.fires.drains hran.idle
  · intro fuel seq n' w' hrun
    obtain ⟨l, hran⟩ := mwp_ok (mwp_tick_ran fuel) hrun
    exact hran.fires.drains hran.idle
  · intro fuel results n' w' hrun
    rcases mwp_ok (mwp_submitBatch_ran fuel inputs) hrun with ⟨rfl, -⟩ | ⟨-, l, hran⟩
    · exact ⟨[], _, .nil⟩
    · exact ⟨l, _, hran.fires⟩

/-! ## A timer that re-arms itself -/

/-- A service whose timer arms itself again at once. -/
def restless : Service := { doubler with onTimer := fun total id ctx => ⟨total, [], [.set id ctx.now]⟩ }

/-- As long as something is due, something stays due. -/
theorem restless_never_drains {every : Option ℕ} {b : Burst restless}
    (hdue : ∃ id deadline armedAt : UInt64, b.timers.byId[id]? = some (deadline, armedAt) ∧ deadline ≤ b.time) :
    ¬b.Drains every := by
  intro h
  induction h with
  | idle hidle =>
    obtain ⟨id, deadline, armedAt, hget, hle⟩ := hdue
    exact UInt64.not_lt.mpr hle (TimerWheel.popDue_none.mp hidle id deadline armedAt hget)
  | @fire b id _ _ ih =>
    refine ih ⟨id, b.time, UInt64.ofNat (b.seq + 1), ?_, ?_⟩
    · rw [Burst.fired, snapshot_timers]
      show ((b.timers.cancel id).set id b.time _).byId[id]? = _
      rw [TimerWheel.set_byId, if_pos rfl]
    · -- a mark does not take time back
      rw [Burst.fired, Burst.snapshot]
      split
      · exact le_max_clamp _ _
      · exact UInt64.le_refl _

/-- Any input arms its timer. -/
def someInput : restless.Input := (7 : UInt64)

/-- A node of that service, opened on an empty directory, and the healthy world it is in. -/
def openRestless : Option (Node restless × World JStore) := do
  let opening : Prog Unit JStore NodeError (Node restless) :=
    openWith ⟨⟨1024, .everyFrame⟩, 1, none, 1, none⟩ () fun _ => 5
  let (n, _, w) ← (opening () (.healthy ⟨Disk.empty, History.fresh⟩)).returned
  pure (n, w)

/-- **A submission that never returns**: on a healthy store, the timer its input arms fires for ever. -/
theorem submit_never_returns : ∃ (n : Node restless) (w : World JStore), openRestless = some (n, w) ∧
    w.fates = [] ∧ ∀ fuel result n' w', submit fuel someInput n w ≠ .ok result n' w' := by
  have hopen : openRestless.any (fun p => decide (p.2.fates = [])) = true := by decide +kernel
  obtain ⟨⟨n, w⟩, hopen, hfates⟩ := (Option.any_eq_true _ _).mp hopen
  refine ⟨n, w, hopen, of_decide_eq_true hfates, fun fuel result n' w' hrun => ?_⟩
  obtain ⟨l, hran⟩ := mwp_ok (mwp_submit_ran fuel someInput) hrun
  -- the input has armed timer 1 at its own timestamp
  refine restless_never_drains ⟨1, n.stamp, UInt64.ofNat (n.seq + 1), ?_, ?_⟩ (hran.fires.drains hran.idle)
  · rw [inputBurst, snapshot_timers]
    show (n.timers.set 1 n.stamp _).byId[(1 : UInt64)]? = _
    rw [TimerWheel.set_byId, if_pos rfl]
  · rw [inputBurst, Burst.snapshot]
    split
    · exact le_max_clamp _ _
    · exact UInt64.le_refl _

end Node

end Ticktape.Runtime
