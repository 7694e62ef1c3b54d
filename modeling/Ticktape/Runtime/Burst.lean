import Ticktape.Runtime.Publish
import Ticktape.Runtime.Batch

/-!
# Bursts of timers

What the firing loop does apart from storage. `Burst` is the part of a node that decides which timers fire:
the service, the wheel, the seq, sequenced time and the clock. `Burst.fired` is one firing, and `Fires` a
sequence of them. The loop follows them exactly (`mwp_fireDueTimers_burst`): a call that returns has made
the firings of its burst until nothing was due any more.
-/

namespace Ticktape.Runtime

open Ticktape.Lib Ticktape.Core Ticktape.Journal

variable {svc : Service}

/-! ## The burst of a node -/

/-- What decides which timers fire. -/
structure Burst (svc : Service) where
  service : svc.State
  timers : TimerWheel
  seq : ℕ
  time : UInt64
  /-- The readings the time source has yet to give. -/
  clock : ℕ → UInt64

/-- A timer that fired: its deadline, the seq it was armed at, and the seq and the timestamp of its frame. -/
structure Firing where
  id : UInt64
  deadline : UInt64
  armedAt : UInt64
  seq : ℕ
  stamp : UInt64

namespace Burst

/-- The frame at `seq` is applied. -/
def applied (b : Burst svc) (seq : ℕ) (stamp : UInt64)
    (step : svc.State → Ctx → Step svc.State svc.Output) : Burst svc :=
  { b with
    service := (step b.service ⟨seq, stamp⟩).state
    timers := b.timers.applyAll (step b.service ⟨seq, stamp⟩).timers (UInt64.ofNat seq) }

/-- The next frame is stamped now. -/
def sequenced (b : Burst svc) : Burst svc :=
  { b with seq := b.seq + 1, time := max (b.clock 0) b.time, clock := fun i => b.clock (i + 1) }

/-- A snapshot that is due at `seq` sequences a mark, which is stamped by the clock. -/
def snapshot (every : Option ℕ) (seq : ℕ) (b : Burst svc) : Burst svc :=
  if onCadence every seq then b.sequenced else b

/-- Timer `id` has left the wheel, and fires. -/
def fired (every : Option ℕ) (b : Burst svc) (id : UInt64) : Burst svc :=
  (({ b with timers := b.timers.cancel id, seq := b.seq + 1 } : Burst svc).applied (b.seq + 1) b.time
    fun state ctx => svc.onTimer state id ctx).snapshot every (b.seq + 1)

/-- Timer `id` is the next one to fire. -/
def Due (b : Burst svc) (id : UInt64) : Prop := b.timers.popDue b.time = some (id, b.timers.cancel id)

/-- No timer is due. -/
def Idle (b : Burst svc) : Prop := b.timers.popDue b.time = none

theorem Due.not_idle {b : Burst svc} {id : UInt64} (h : b.Due id) : ¬b.Idle := by
  intro hidle
  rw [Idle, show b.timers.popDue b.time = _ from h] at hidle
  cases hidle

theorem Due.unique {b : Burst svc} {id id' : UInt64} (h : b.Due id) (h' : b.Due id') : id = id' :=
  (Prod.mk.inj (Option.some.inj (h.symm.trans h'))).1

/-- `b'` is `b` after the firings `l`. -/
inductive Fires (every : Option ℕ) : Burst svc → List Firing → Burst svc → Prop where
  | none {b : Burst svc} : Fires every b [] b
  | fire {b b' : Burst svc} {l : List Firing} {id deadline armedAt : UInt64} : b.Due id →
      b.timers.byId[id]? = some (deadline, armedAt) → Fires every (b.fired every id) l b' →
      Fires every b (⟨id, deadline, armedAt, b.seq + 1, b.time⟩ :: l) b'

/-- **The burst ends**: firing what is due leads to a wheel of which nothing is due. -/
inductive Drains (every : Option ℕ) : Burst svc → Prop where
  | idle {b : Burst svc} : b.Idle → Drains every b
  | fire {b : Burst svc} {id : UInt64} : b.Due id → Drains every (b.fired every id) → Drains every b

variable {every : Option ℕ} {b b' : Burst svc} {l : List Firing}

/-- A burst that was fired to its end. -/
theorem Fires.drains (h : Fires every b l b') (hidle : b'.Idle) : Drains every b := by
  induction h with
  | none => exact .idle hidle
  | fire hdue _ _ ih => exact .fire hdue (ih hidle)

/-- **A burst that ends** ends in one way. -/
theorem Drains.fires (h : Drains every b) : ∃ l b', Fires every b l b' ∧ b'.Idle := by
  induction h with
  | idle hidle => exact ⟨[], _, .none, hidle⟩
  | fire hdue _ ih =>
    obtain ⟨l, b', hfires, hidle⟩ := ih
    obtain ⟨deadline, armedAt, hget, -⟩ := TimerWheel.popDue_some hdue
    exact ⟨_, b', .fire hdue hget hfires, hidle⟩

end Burst

namespace Node

variable {n : Node svc}

/-- The burst of a node. -/
def burst (n : Node svc) : Burst svc := ⟨n.service, n.timers, n.seq, n.lastTimestamp, n.clock⟩

/-- What a leader has recorded of itself. -/
def own (n : Node svc) : Option ℕ := n.commit.map fun state => state.highWaters[state.selfReplica]?.getD 0

/-! ## Publishing a frame -/

/-- `n'` is `n` after `frame` was published, and at most marks after it. -/
structure Finishing (n : Node svc) (frame : Frame) (outputs : List svc.Output) (n' : Node svc) : Prop where
  service : n'.service = n.service
  timers : n'.timers = n.timers
  every : n'.snapshotEvery = n.snapshotEvery
  ledger : ∃ marks, n'.ledger = n.ledger ++ ⟨frame, n.service, outputs⟩ :: marks ∧
    ∀ e ∈ marks, e.frame.kind = .snapshotMark ∧ e.state = n.service

/-- **What a snapshot on cadence does**: when it returns, a mark was sequenced if one was due. -/
theorem mwp_maybeSnapshot_burst {frame : Frame} {outputs : List svc.Output} {seq : ℕ} :
    mwp (maybeSnapshot seq)
      (fun _ n' => Finishing n frame outputs n' ∧ n'.burst = n.burst.snapshot n.snapshotEvery seq ∧
        n'.commit = n.commit)
      (fun _ n' => Finishing n frame outputs n') (published n frame outputs) := by
  have hpublished : Finishing n frame outputs (published n frame outputs) :=
    ⟨rfl, rfl, rfl, [], rfl, fun e he => by cases he⟩
  have hcadence : (published n frame outputs).snapshotEvery = n.snapshotEvery := rfl
  unfold maybeSnapshot
  refine mwp_bind (mwp_mem ?_)
  rw [hcadence]
  cases hevery : n.snapshotEvery with
  | none => exact mwp_pure ⟨hpublished, rfl, rfl⟩
  | some every =>
    refine mwp_when (fun hdue => ?_) fun hoff => ?_
    · have hcadence : onCadence (some every) seq = true := by simpa [onCadence] using hdue
      have hmarked : ∀ (mark : Frame) (clock : ℕ → UInt64) (journal : Journal),
          mark.kind = .snapshotMark → Finishing n frame outputs
            { published ((published n frame outputs).advanced mark) mark [] with
              clock := clock, journal := journal } := by
        intro mark clock journal hkind
        refine ⟨rfl, rfl, rfl, [⟨mark, n.service, []⟩], by simp [published, advanced], ?_⟩
        intro e he
        rw [List.mem_singleton.mp he]
        exact ⟨hkind, rfl⟩
      refine mwp_bind (mwp_mem ?_)
      refine mwp_bind (mwp_onSnapshots (frozen_write _ _ _) (fun _ => ?_) fun _ => hpublished)
      refine mwp_bind (mwp_bind (mwp_now (mwp_bind (mwp_stageFrame fun mark hseq hkind _ htime => ?_))))
      have hburst : ∀ journal, burst { published ((published n frame outputs).advanced mark) mark [] with
          clock := fun i => n.clock (i + 1), journal := journal } =
          n.burst.snapshot (some every) seq := by
        intro journal
        simp only [Burst.snapshot, hcadence, if_true, Burst.sequenced, burst, published, advanced, hseq, htime]
      refine mwp_bind (mwp_onJournal (fun _ journal => mwp_pure ?_) fun _ journal => ?_)
      · refine mwp_bind (mwp_update (mwp_bind (mwp_onSnapshots (frozen_pruneKeepNewest _) (fun oldest => ?_)
          fun _ => hmarked mark (fun i => n.clock (i + 1)) journal hkind)))
        cases oldest with
        | none => exact mwp_pure ⟨hmarked mark _ _ hkind, hburst journal, rfl⟩
        | some oldest =>
          refine mwp_bind (mwp_onJournal (fun _ journal' => mwp_pure ?_) fun _ journal' => ?_)
          · exact ⟨hmarked mark _ _ hkind, hburst journal', rfl⟩
          · exact hmarked mark (fun i => n.clock (i + 1)) journal' hkind
      · -- the mark could not be journaled
        exact ⟨rfl, rfl, rfl, [], rfl, fun e he => by cases he⟩
    · have hcadence : onCadence (some every) seq = false := by simpa [onCadence] using hoff
      refine ⟨hpublished, ?_, rfl⟩
      simp only [Burst.snapshot, hcadence]
      rfl

/-- Taking pending entries out does not touch what anyone has recorded. -/
theorem mwp_drainCommitted_own {state : CommitState svc.Output} {E : NodeError → CommitState svc.Output → Prop} :
    mwp (CommitState.drainCommitted : Prog _ JStore NodeError _) (fun _ state' =>
      state'.highWaters = state.highWaters ∧ state'.selfReplica = state.selfReplica) E state := by
  refine mwp_bind (mwp_mem ?_)
  split
  · exact mwp_pure ⟨rfl, rfl⟩
  · refine mwp_bind (mwp_mono (mwp_nextSeq _) ?_ fun _ _ h => h)
    rintro next state' rfl
    exact mwp_bind (mwp_update (mwp_pure ⟨rfl, rfl⟩))

/-- A leader that records a seq of its own. -/
theorem own_record {state : CommitState svc.Output} {seq : ℕ} :
    (state.record state.selfReplica seq).highWaters[state.selfReplica]?.getD 0 =
      max (state.highWaters[state.selfReplica]?.getD 0) seq := by
  simp [CommitState.record]

/-- **Finishing a frame**: it is published, a mark follows if one is due, and the leader has recorded it. -/
theorem mwp_finishFrame_burst {frame : Frame} {outputs : List svc.Output} :
    mwp (finishFrame frame outputs)
      (fun _ n' => Finishing n frame outputs n' ∧ n'.burst = n.burst.snapshot n.snapshotEvery frame.seq ∧
        n'.own = n.own.map (max · frame.seq))
      (fun _ n' => Finishing n frame outputs n') n := by
  refine mwp_bind (mwp_update ?_)
  refine mwp_seq mwp_maybeSnapshot_burst ?_
  rintro - n' ⟨hfinished, hburst, hcommit⟩
  have hcommitted : ∀ commit, Finishing n frame outputs { n' with commit := commit } := fun _ =>
    ⟨hfinished.service, hfinished.timers, hfinished.every, hfinished.ledger⟩
  refine mwp_onCommit (fun hnone => ?_) fun state hstate => ?_
  · refine ⟨hfinished, hburst, ?_⟩
    rw [own, own, ← hcommit, hnone]
    rfl
  · refine mwp_bind (mwp_update (mwp_bind (mwp_mono mwp_drainCommitted_own ?_ fun _ _ h => h)))
    rintro released state' ⟨hwaters, hself⟩
    refine mwp_pure ⟨hcommitted _, hburst, ?_⟩
    show some (state'.highWaters[state'.selfReplica]?.getD 0) = _
    rw [hwaters, hself, own, ← hcommit, hstate]
    exact congrArg some own_record

/-! ## The firing loop -/

theorem max_stamp (t : UInt64) : max t t = t := by
  show (if t ≤ t then t else t) = t
  rw [ite_self]

theorem snapshot_service (every : Option ℕ) (seq : ℕ) (b : Burst svc) :
    (b.snapshot every seq).service = b.service := by
  unfold Burst.snapshot
  split <;> rfl

theorem snapshot_timers (every : Option ℕ) (seq : ℕ) (b : Burst svc) :
    (b.snapshot every seq).timers = b.timers := by
  unfold Burst.snapshot
  split <;> rfl

/-- `n'` is `n` after a frame was published, and applied if it is a data frame. -/
structure Logged (n : Node svc) (kind : FrameKind) (payload : Bytes) (seq : ℕ) (stamp : UInt64) (b : Burst svc)
    (n' : Node svc) : Prop where
  service : n'.service = b.service
  timers : n'.timers = b.timers
  every : n'.snapshotEvery = n.snapshotEvery
  ledger : ∃ frame marks outputs, frame.kind = kind ∧ frame.payload = payload ∧ frame.seq = seq ∧
    frame.timestamp = stamp ∧ n'.ledger = n.ledger ++ ⟨frame, n'.service, outputs⟩ :: marks ∧
    ∀ e ∈ marks, e.frame.kind = .snapshotMark ∧ e.state = n'.service

/-- Moreover the snapshot that was due after it was taken. -/
structure Entered (n : Node svc) (kind : FrameKind) (payload : Bytes) (seq : ℕ) (stamp : UInt64) (b : Burst svc)
    (n' : Node svc) : Prop extends Logged n kind payload seq stamp b n' where
  burst : n'.burst = b
  own : n'.own = n.own.map (max · seq)

/-- A frame has failed: either it was not published, or the snapshot after it failed. `timers` is what was
left in the wheel for it. -/
inductive HalfEntered (n : Node svc) (timers : TimerWheel) (kind : FrameKind) (payload : Bytes) (seq : ℕ)
    (stamp : UInt64) (b : Burst svc) (n' : Node svc) : Prop where
  | unpublished (hservice : n'.service = n.service) (htimers : n'.timers = timers)
      (hevery : n'.snapshotEvery = n.snapshotEvery) (hledger : n'.ledger = n.ledger)
  | published (h : Logged n kind payload seq stamp b n')

/-- Finishing a frame that was applied to `m`. -/
theorem Logged.of_finishing {m n' : Node svc} {frame : Frame} {outputs : List svc.Output} {b : Burst svc}
    (h : Finishing m frame outputs n') (hburst : m.burst.snapshot m.snapshotEvery frame.seq = b)
    (hevery : m.snapshotEvery = n.snapshotEvery) (hledger : m.ledger = n.ledger) :
    Logged n frame.kind frame.payload frame.seq frame.timestamp b n' := by
  obtain ⟨hservice, htimers, hevery', marks, hledger', hmarks⟩ := h
  subst hburst
  refine ⟨?_, ?_, hevery'.trans hevery, frame, marks, outputs, rfl, rfl, rfl, rfl, ?_, ?_⟩
  · rw [snapshot_service]
    exact hservice
  · rw [snapshot_timers]
    exact htimers
  · rw [hledger', hledger, hservice]
  · exact fun e he => ⟨(hmarks e he).1, (hmarks e he).2.trans hservice.symm⟩

/-- **A data frame**: its step runs, and it is finished. -/
theorem mwp_dataFrame {α : Type} {m : Node svc} {frame : Frame}
    {step : svc.State → Ctx → Step svc.State svc.Output} {rest : List svc.Output → NProg svc α} {b : Burst svc}
    {Q : α → Node svc → Prop} {E : NodeError → Node svc → Prop}
    (hburst : (m.burst.applied frame.seq frame.timestamp step).snapshot m.snapshotEvery frame.seq = b)
    (hevery : m.snapshotEvery = n.snapshotEvery) (hledger : m.ledger = n.ledger) (hcommit : m.commit = n.commit)
    (hrest : ∀ released n', Entered n frame.kind frame.payload frame.seq frame.timestamp b n' →
      mwp (rest released) Q E n')
    (herr : ∀ e n', Logged n frame.kind frame.payload frame.seq frame.timestamp b n' → E e n') :
    mwp (do
      let outputs ← runStep frame step
      let released ← finishFrame frame outputs
      rest released) Q E m := by
  refine mwp_bind (mwp_runStep (mwp_bind (mwp_mono mwp_finishFrame_burst ?_ ?_)))
  · rintro released n' ⟨hfin, hburst', hown⟩
    refine hrest released n' ⟨.of_finishing hfin hburst hevery hledger, hburst'.trans hburst, ?_⟩
    rw [hown, own, own, ← hcommit]
  · exact fun e n' hfin => herr e n' (.of_finishing hfin hburst hevery hledger)

/-- The node after the firing of timer `id`. -/
abbrev Fired (n : Node svc) (id : UInt64) (n' : Node svc) : Prop :=
  Entered n .timerFired (encode id) (n.seq + 1) n.lastTimestamp (n.burst.fired n.snapshotEvery id) n'

/-- Firing timer `id` has failed, and it is gone from the wheel. -/
abbrev HalfFired (n : Node svc) (id : UInt64) (n' : Node svc) : Prop :=
  HalfEntered n (n.timers.cancel id) .timerFired (encode id) (n.seq + 1) n.lastTimestamp
    (n.burst.fired n.snapshotEvery id) n'

/-- **One firing**, from the node whose wheel the timer has left. -/
theorem mwp_firing {α : Type} {id : UInt64} {rest : List svc.Output → NProg svc α} {Q : α → Node svc → Prop}
    {E : NodeError → Node svc → Prop} (hfired : ∀ released n', Fired n id n' → mwp (rest released) Q E n')
    (herr : ∀ e n', HalfFired n id n' → E e n') :
    mwp (do
      let frame ← sequenceAt .timerFired (encode id) n.lastTimestamp
      let outputs ← runStep frame fun state ctx => svc.onTimer state id ctx
      let released ← finishFrame frame outputs
      rest released) Q E { n with timers := n.timers.cancel id } := by
  refine mwp_bind (mwp_bind (mwp_stageFrame fun frame hseq hkind hpayload htime => ?_))
  refine mwp_bind (mwp_onJournal (fun _ journal => mwp_pure ?_) fun e journal => ?_)
  · have hstamp : frame.timestamp = n.lastTimestamp := htime.trans (max_stamp _)
    have hseq : frame.seq = n.seq + 1 := hseq
    refine mwp_dataFrame (n := n) (b := n.burst.fired n.snapshotEvery id) ?_ rfl rfl rfl ?_ ?_
    · show _ = Burst.snapshot n.snapshotEvery (n.seq + 1) (Burst.applied
          ⟨n.service, n.timers.cancel id, n.seq + 1, n.lastTimestamp, n.clock⟩ (n.seq + 1) n.lastTimestamp
          fun state ctx => svc.onTimer state id ctx)
      rw [← hseq, ← hstamp]
      rfl
    · rw [hkind, hpayload, hseq, hstamp]
      exact hfired
    · rw [hkind, hpayload, hseq, hstamp]
      exact fun e n' h => herr e n' (.published h)
  · exact herr _ _ (.unpublished rfl rfl rfl rfl)

/-- **The rule of the firing loop**: what every firing keeps holds when the loop returns, and then nothing is
due any more. -/
theorem mwp_fireDueTimers_burst {I : Node svc → Prop} {E : NodeError → Node svc → Prop}
    (hfire : ∀ n id n', I n → n.burst.Due id → Fired n id n' → I n')
    (herr : ∀ e n id n', I n → n.burst.Due id → HalfFired n id n' → E e n') (fuel : ℕ) (h : I n) :
    mwp (fireDueTimers fuel) (fun _ n' => I n' ∧ n'.burst.Idle) E n := by
  induction fuel generalizing n with
  | zero => exact mwp_spin
  | succ fuel ih =>
    refine mwp_bind (mwp_popDue (fun hidle => mwp_pure ⟨h, hidle⟩) fun id timers hpop => ?_)
    obtain rfl := TimerWheel.popDue_eq_cancel hpop
    have hdue : n.burst.Due id := hpop
    refine mwp_bind (mwp_mem (mwp_firing (fun released n' hfired => ?_) fun e n' hhalf => ?_))
    · exact mwp_seq (ih (hfire n id n' h hdue hfired)) fun more n'' h'' => mwp_pure h''
    · exact herr e n id n' h hdue hhalf

/-! ## Operations -/

/-- The timestamp that the next frame gets. -/
def stamp (n : Node svc) : UInt64 := max (n.clock 0) n.lastTimestamp

/-- The burst of the input that is submitted next. -/
def inputBurst (n : Node svc) (input : svc.Input) : Burst svc :=
  (n.burst.sequenced.applied (n.seq + 1) n.stamp fun state => svc.apply state (n.seq + 1) input).snapshot
    n.snapshotEvery (n.seq + 1)

/-- The burst of a control frame. -/
def controlBurst (n : Node svc) : Burst svc := n.burst.sequenced.snapshot n.snapshotEvery (n.seq + 1)

/-- A frame that is stamped now, and journaled. -/
theorem mwp_sequence_burst {α : Type} {kind : FrameKind} {payload : Bytes} {rest : Frame → NProg svc α}
    {Q : α → Node svc → Prop} {E : NodeError → Node svc → Prop}
    (hrest : ∀ (frame : Frame) clock journal, frame.kind = kind → frame.payload = payload →
      frame.seq = n.seq + 1 → frame.timestamp = n.stamp → (clock = fun i => n.clock (i + 1)) →
      mwp (rest frame) Q E { n.advanced frame with clock := clock, journal := journal })
    (herr : ∀ e n', n'.service = n.service → n'.timers = n.timers → n'.snapshotEvery = n.snapshotEvery →
      n'.ledger = n.ledger → E e n') : mwp (sequence kind payload >>= rest) Q E n := by
  refine mwp_bind (mwp_bind (mwp_now (mwp_bind (mwp_stageFrame fun frame hseq hkind hpayload htime => ?_))))
  refine mwp_bind (mwp_onJournal (fun _ journal => mwp_pure ?_) fun e journal => ?_)
  · exact hrest frame _ journal hkind hpayload hseq htime rfl
  · exact herr _ _ rfl rfl rfl rfl

/-- **The frame of an input**, and what follows it. -/
theorem mwp_input_burst {α : Type} {input : svc.Input} {rest : Frame → List svc.Output → NProg svc α}
    {Q : α → Node svc → Prop} {E : NodeError → Node svc → Prop}
    (hrest : ∀ frame released n', Entered n .input (encode input) (n.seq + 1) n.stamp (n.inputBurst input) n' →
      mwp (rest frame released) Q E n')
    (hhalf : ∀ e n', HalfEntered n n.timers .input (encode input) (n.seq + 1) n.stamp (n.inputBurst input) n' →
      E e n') :
    mwp (do
      let frame ← sequence .input (encode input)
      let outputs ← runStep frame fun state ctx => svc.apply state frame.seq input ctx
      let released ← finishFrame frame outputs
      rest frame released) Q E n := by
  refine mwp_sequence_burst (fun frame clock journal hkind hpayload hseq hstamp hclock => ?_)
    fun e n' hservice htimers hevery hledger => hhalf e n' (.unpublished hservice htimers hevery hledger)
  refine mwp_dataFrame (n := n) (b := n.inputBurst input) ?_ rfl rfl rfl ?_ ?_
  · subst hclock
    show _ = Burst.snapshot n.snapshotEvery (n.seq + 1) (Burst.applied
        ⟨n.service, n.timers, n.seq + 1, n.stamp, fun i => n.clock (i + 1)⟩ (n.seq + 1) n.stamp
        fun state => svc.apply state (n.seq + 1) input)
    rw [← hseq, ← hstamp]
    rfl
  · rw [hkind, hpayload, hseq, hstamp]
    exact fun released n' hentered => hrest frame released n' hentered
  · rw [hkind, hpayload, hseq, hstamp]
    exact fun e n' h => hhalf e n' (.published h)

/-- **Submitting an input**: its frame, and then its burst. -/
theorem mwp_submit_burst {I : Node svc → Prop} {E : NodeError → Node svc → Prop} {input : svc.Input}
    (hinput : ∀ n', Entered n .input (encode input) (n.seq + 1) n.stamp (n.inputBurst input) n' → I n')
    (hhalf : ∀ e n', HalfEntered n n.timers .input (encode input) (n.seq + 1) n.stamp (n.inputBurst input) n' →
      E e n')
    (hfire : ∀ n id n', I n → n.burst.Due id → Fired n id n' → I n')
    (herr : ∀ e n id n', I n → n.burst.Due id → HalfFired n id n' → E e n') (fuel : ℕ) :
    mwp (submit fuel input) (fun _ n' => I n' ∧ n'.burst.Idle) E n := by
  refine mwp_input_burst (fun frame released n' hentered => ?_) hhalf
  exact mwp_seq (mwp_fireDueTimers_burst hfire herr fuel (hinput n' hentered)) fun more n'' h => mwp_pure h

/-- **A control frame**, and what follows it. -/
theorem mwp_control_burst {α : Type} {kind : FrameKind} {payload : Bytes} {rest : Frame → NProg svc α}
    {Q : α → Node svc → Prop} {E : NodeError → Node svc → Prop}
    (hrest : ∀ frame n', Entered n kind payload (n.seq + 1) n.stamp n.controlBurst n' →
      mwp (rest frame) Q E n')
    (hhalf : ∀ e n', HalfEntered n n.timers kind payload (n.seq + 1) n.stamp n.controlBurst n' → E e n') :
    mwp (do
      let frame ← sequence kind payload
      publish frame []
      maybeSnapshot frame.seq
      noteSelfProgress frame.seq
      rest frame) Q E n := by
  refine mwp_sequence_burst (fun frame clock journal hkind hpayload hseq hstamp hclock => ?_)
    fun e n' hservice htimers hevery hledger => hhalf e n' (.unpublished hservice htimers hevery hledger)
  subst hclock
  have hlogged : ∀ n', Finishing { n.advanced frame with
      clock := fun i => n.clock (i + 1), journal := journal } frame [] n' →
      Logged n kind payload (n.seq + 1) n.stamp n.controlBurst n' := by
    intro n' hfin
    rw [← hkind, ← hpayload, ← hseq, ← hstamp]
    refine .of_finishing hfin ?_ rfl rfl
    show _ = Burst.snapshot n.snapshotEvery (n.seq + 1)
      ⟨n.service, n.timers, n.seq + 1, n.stamp, fun i => n.clock (i + 1)⟩
    rw [← hseq, ← hstamp]
    rfl
  have hburst : (burst { n.advanced frame with clock := fun i => n.clock (i + 1), journal := journal }).snapshot
      n.snapshotEvery frame.seq = n.controlBurst := by
    show _ = Burst.snapshot n.snapshotEvery (n.seq + 1)
      ⟨n.service, n.timers, n.seq + 1, n.stamp, fun i => n.clock (i + 1)⟩
    rw [← hseq, ← hstamp]
    rfl
  refine mwp_bind (mwp_update (mwp_bind (mwp_mono mwp_maybeSnapshot_burst ?_ ?_)))
  · rintro - n' ⟨hfin, hburst', hcommit⟩
    obtain ⟨hservice, htimers, hevery, hledger⟩ := hlogged n' hfin
    refine mwp_bind (mwp_onCommit (fun hnone => ?_) fun state hstate => mwp_update ?_)
    · refine hrest frame n' ⟨⟨hservice, htimers, hevery, hledger⟩, hburst'.trans hburst, ?_⟩
      rw [own, own, hnone, ← show n'.commit = n.commit from hcommit, hnone]
      rfl
    · refine hrest frame _ ⟨⟨hservice, htimers, hevery, hledger⟩, hburst'.trans hburst, ?_⟩
      rw [own, own, ← show n'.commit = n.commit from hcommit, hstate, ← hseq]
      exact congrArg some own_record
  · exact fun e n' hfin => hhalf e n' (.published (hlogged n' hfin))

/-- **A tick**: its frame, and then the burst it causes. -/
theorem mwp_tick_burst {I : Node svc → Prop} {E : NodeError → Node svc → Prop}
    (htick : ∀ n', Entered n .tick [] (n.seq + 1) n.stamp n.controlBurst n' → I n')
    (hhalf : ∀ e n', HalfEntered n n.timers .tick [] (n.seq + 1) n.stamp n.controlBurst n' → E e n')
    (hfire : ∀ n id n', I n → n.burst.Due id → Fired n id n' → I n')
    (herr : ∀ e n id n', I n → n.burst.Due id → HalfFired n id n' → E e n') (fuel : ℕ) :
    mwp (tick fuel) (fun _ n' => I n' ∧ n'.burst.Idle) E n := by
  refine mwp_control_burst (fun frame n' hentered => ?_) hhalf
  exact mwp_seq (mwp_fireDueTimers_burst hfire herr fuel (htick n' hentered)) fun _ n'' h => mwp_pure h

/-- A fence fires nothing. -/
theorem mwp_fence_burst {Q : ℕ → Node svc → Prop} {E : NodeError → Node svc → Prop} {epoch : UInt64}
    (hfence : ∀ seq payload n', Entered n .epochChange payload (n.seq + 1) n.stamp n.controlBurst n' → Q seq n')
    (hhalf : ∀ e payload n', HalfEntered n n.timers .epochChange payload (n.seq + 1) n.stamp n.controlBurst n' →
      E e n') : mwp (fence epoch) Q E n := by
  refine mwp_bind (mwp_mem (mwp_bind (mwp_mono (mwp_nextSeq (E := fun _ _ => False) _) ?_ ?_)))
  · rintro next n₀ rfl
    exact mwp_control_burst (fun frame n' hentered => mwp_pure (hfence _ _ n' hentered))
      fun e n' h => hhalf e _ n' h
  · exact fun _ _ h => h.elim

/-! ## Batches -/

/-- The burst of an input whose frame was staged before. -/
def stagedBurst (n : Node svc) (input : svc.Input) (seq : ℕ) (stamp : UInt64) : Burst svc :=
  (n.burst.applied seq stamp fun state => svc.apply state seq input).snapshot n.snapshotEvery seq

/-- The node after the frames of a batch were staged. -/
def batchStaged (n : Node svc) (inputs : List svc.Input) : Node svc :=
  { n with
    clock := fun i => n.clock (i + 1)
    seq := n.seq + inputs.length
    lastTimestamp := n.stamp }

/-- The inputs of a batch, one after the other. `I` is told which of them are still to come. -/
theorem mwp_applyAll_burst {I : List svc.Input → Node svc → Prop} {stamp : UInt64}
    (hinput : ∀ input rest seq n n', I (input :: rest) n → Entered n .input (encode input) seq stamp
      (n.stagedBurst input seq stamp) n' → I rest n')
    (hfire : ∀ rest n id n', I rest n → n.burst.Due id → Fired n id n' → I rest n') {l : List (svc.Input × Frame)}
    (hframes : ∀ p ∈ l, p.2.kind = .input ∧ p.2.payload = encode p.1 ∧ p.2.timestamp = stamp) (fuel : ℕ)
    (h : I (l.map Prod.fst) n) :
    mwp (applyAll fuel l) (fun _ n' => I [] n' ∧ (n.burst.Idle ∨ l ≠ [] → n'.burst.Idle)) (fun _ _ => True) n := by
  induction l generalizing n with
  | nil => exact mwp_pure ⟨h, fun hidle => hidle.resolve_right fun hne => hne rfl⟩
  | cons p rest ih =>
    obtain ⟨input, frame⟩ := p
    obtain ⟨hkind, hpayload, hstamp⟩ := hframes _ (List.mem_cons_self ..)
    refine mwp_dataFrame (n := n) (b := n.stagedBurst input frame.seq frame.timestamp) rfl rfl rfl rfl
      (fun released n₁ hentered => ?_) fun _ _ _ => trivial
    have h₁ : I (rest.map Prod.fst) n₁ := by
      rw [hkind, hstamp, show frame.payload = encode input from hpayload] at hentered
      exact hinput input _ frame.seq n n₁ h hentered
    refine mwp_seq (mwp_fireDueTimers_burst (I := I (rest.map Prod.fst)) (hfire _) (fun _ _ _ _ _ _ _ => trivial)
      fuel h₁) ?_
    rintro more n₂ ⟨h₂, hidle₂⟩
    refine mwp_seq (ih (fun p hp => hframes p (List.mem_cons_of_mem _ hp)) h₂) ?_
    rintro results n₃ ⟨h₃, hidle₃⟩
    exact mwp_pure ⟨h₃, fun _ => hidle₃ (Or.inl hidle₂)⟩

/-- **Submitting a batch**: its frames are staged and journaled, and its inputs are applied in order. An empty
batch does nothing. -/
theorem mwp_submitBatch_burst {I : List svc.Input → Node svc → Prop} {inputs : List svc.Input}
    (hstaged : ∀ journal, I inputs { n.batchStaged inputs with journal := journal })
    (hinput : ∀ input rest seq n₁ n', I (input :: rest) n₁ → Entered n₁ .input (encode input) seq n.stamp
      (n₁.stagedBurst input seq n.stamp) n' → I rest n')
    (hfire : ∀ rest n id n', I rest n → n.burst.Due id → Fired n id n' → I rest n') (fuel : ℕ) :
    mwp (submitBatch fuel inputs)
      (fun _ n' => inputs = [] ∧ n' = n ∨ inputs ≠ [] ∧ I [] n' ∧ n'.burst.Idle) (fun _ _ => True) n := by
  unfold submitBatch
  by_cases hnil : inputs = []
  · rw [if_pos (List.isEmpty_iff.mpr hnil)]
    exact mwp_pure (Or.inl ⟨hnil, rfl⟩)
  · rw [if_neg fun hempty => hnil (List.isEmpty_iff.mp hempty)]
    refine mwp_bind (mwp_now (mwp_bind (mwp_mono (mwp_stageAll (E := fun _ _ => False) _ inputs) ?_
      fun _ _ h => h.elim)))
    rintro frames n₁ hstage
    have hlen : inputs.length = frames.length := hstage.staged.length_eq
    have hnode : n₁ = n.batchStaged inputs := by
      rw [hstage.node]
      simp only [hnil, if_false]
      rfl
    have hfst : (inputs.zip frames).map Prod.fst = inputs := List.map_fst_zip hlen.le
    -- what a frame of the batch looks like
    have hframe : ∀ p ∈ inputs.zip frames, p.2.kind = .input ∧ p.2.payload = encode p.1 ∧
        p.2.timestamp = n.stamp := by
      intro p hp
      obtain ⟨hkind, hpayload⟩ := List.forall₂_zip hstage.staged hp
      exact ⟨hkind, hpayload, hstage.stamps _ (List.of_mem_zip hp).2⟩
    subst hnode
    refine mwp_bind (mwp_onJournal (fun _ journal => ?_) fun e journal => trivial)
    refine mwp_mono (mwp_applyAll_burst hinput hfire hframe fuel (by rw [hfst]; exact hstaged journal)) ?_
      fun _ _ h => h
    rintro results n' ⟨h', hidle⟩
    refine Or.inr ⟨hnil, h', hidle (Or.inr fun hzip => hnil ?_)⟩
    rw [← hfst, hzip, List.map_nil]

end Node

end Ticktape.Runtime
