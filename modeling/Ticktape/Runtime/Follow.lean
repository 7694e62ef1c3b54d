import Ticktape.Runtime.Chronicle

/-!
# What the published frames keep

A property of a service state and its timers, given the frames published so far, holds along every run of calls if
every frame keeps it. A `TimerFired` frame comes only for a timer that was pending and due, which is more than a
journal says of itself.
-/

namespace Ticktape.Runtime

open Ticktape.Lib Ticktape.Core Ticktape.Journal

variable {svc : Service}

/-- **Every published frame keeps `I`.** -/
structure Follows (I : List Frame → svc.State → TimerWheel → Prop) : Prop where
  input : ∀ {past state timers frame input}, I past state timers → frame.kind = .input →
    frame.payload = encode input →
    I (past ++ [frame]) (svc.apply state frame.seq input ⟨frame.seq, frame.timestamp⟩).state
      (timers.applyAll (svc.apply state frame.seq input ⟨frame.seq, frame.timestamp⟩).timers (UInt64.ofNat frame.seq))
  timer : ∀ {past state timers frame id deadline armedAt}, I past state timers → frame.kind = .timerFired →
    frame.payload = encode id → timers.byId[id]? = some (deadline, armedAt) → deadline ≤ frame.timestamp →
    I (past ++ [frame]) (svc.onTimer state id ⟨frame.seq, frame.timestamp⟩).state
      ((timers.cancel id).applyAll (svc.onTimer state id ⟨frame.seq, frame.timestamp⟩).timers
        (UInt64.ofNat frame.seq))
  control : ∀ {past state timers frame}, I past state timers → frame.kind ≠ .input → frame.kind ≠ .timerFired →
    I (past ++ [frame]) state timers

section Follow

variable {I : List Frame → svc.State → TimerWheel → Prop} {n n' : Node svc}

/-- `I` holds of a node. -/
def Holds (I : List Frame → svc.State → TimerWheel → Prop) (n : Node svc) : Prop :=
  I (n.ledger.map (·.frame)) n.service n.timers

theorem Follows.marks (hI : Follows I) {past : List Frame} {state : svc.State} {timers : TimerWheel}
    (h : I past state timers) {marks : List (LedgerEntry svc)} (hmarks : ∀ e ∈ marks, e.frame.kind = .snapshotMark) :
    I (past ++ marks.map (·.frame)) state timers := by
  induction marks generalizing past with
  | nil =>
    rw [List.map_nil, List.append_nil]
    exact h
  | cons e marks ih =>
    have hkind := hmarks e (List.mem_cons_self ..)
    have hstep : I (past ++ [e.frame]) state timers := hI.control h (by rw [hkind]; decide) (by rw [hkind]; decide)
    rw [List.map_cons, List.append_cons]
    exact ih hstep fun e' he' => hmarks e' (List.mem_cons_of_mem _ he')

/-- One frame more, and the marks behind it. -/
theorem Follows.logged (hI : Follows I) {kind : FrameKind} {payload : Bytes} {seq : ℕ} {stamp : UInt64}
    {b : Burst svc} (hlogged : Node.Logged n kind payload seq stamp b n')
    (hframe : ∀ frame : Frame, frame.kind = kind → frame.payload = payload → frame.seq = seq →
      frame.timestamp = stamp → I (n.ledger.map (·.frame) ++ [frame]) b.service b.timers) : Holds I n' := by
  obtain ⟨frame, marks, outputs, hkind, hpayload, hseq, hstamp, hledger, hmarks⟩ := hlogged.ledger
  have hnext := hI.marks (hframe frame hkind hpayload hseq hstamp) fun e he => (hmarks e he).1
  rw [Holds, hlogged.service, hlogged.timers, hledger, List.map_append, List.map_cons, List.append_cons]
  exact hnext

theorem Follows.inputFrame (hI : Follows I) {input : svc.Input} {seq : ℕ} {stamp : UInt64} {b : Burst svc}
    (h : Holds I n) (hlogged : Node.Logged n .input (encode input) seq stamp b n')
    (hservice : b.service = (svc.apply n.service seq input ⟨seq, stamp⟩).state)
    (htimers : b.timers = n.timers.applyAll (svc.apply n.service seq input ⟨seq, stamp⟩).timers (UInt64.ofNat seq)) :
    Holds I n' := by
  apply hI.logged hlogged
  rintro frame hkind hpayload rfl rfl
  rw [hservice, htimers]
  exact hI.input h hkind hpayload

theorem Follows.timerFrame (hI : Follows I) {id : UInt64} (h : Holds I n) (hdue : n.burst.Due id)
    (hfired : Node.Fired n id n') : Holds I n' := by
  obtain ⟨deadline, armedAt, hget, hle, -⟩ := TimerWheel.popDue_some hdue
  have hservice : (n.burst.fired n.snapshotEvery id).service =
      (svc.onTimer n.service id ⟨n.seq + 1, n.lastTimestamp⟩).state := Node.snapshot_service ..
  have htimers : (n.burst.fired n.snapshotEvery id).timers = (n.timers.cancel id).applyAll
      (svc.onTimer n.service id ⟨n.seq + 1, n.lastTimestamp⟩).timers (UInt64.ofNat (n.seq + 1)) :=
    Node.snapshot_timers ..
  apply hI.logged hfired.toLogged
  rintro frame hkind hpayload hseq hstamp
  rw [hservice, htimers, ← hseq, ← hstamp]
  exact hI.timer h hkind hpayload hget (by rw [hstamp]; exact hle)

theorem Follows.controlFrame (hI : Follows I) {kind : FrameKind} {payload : Bytes} (h : Holds I n)
    (hkind : kind ≠ .input ∧ kind ≠ .timerFired)
    (hentered : Node.Entered n kind payload (n.seq + 1) n.stamp n.controlBurst n') : Holds I n' := by
  have hservice : n.controlBurst.service = n.service := Node.snapshot_service ..
  have htimers : n.controlBurst.timers = n.timers := Node.snapshot_timers ..
  apply hI.logged hentered.toLogged
  rintro frame hframe - - -
  rw [hservice, htimers]
  exact hI.control h (by rw [hframe]; exact hkind.1) (by rw [hframe]; exact hkind.2)

/-- **Step lemma**: every call that returns keeps `I`, and one that triggers leaves nothing due. -/
theorem mwp_call_follows (hI : Follows I) (call : Call svc) (h : Holds I n) :
    mwp call.run (fun _ n' => Holds I n' ∧ (call.Triggers → n'.burst.Idle)) (fun _ _ => True) n := by
  have hfire : ∀ (n : Node svc) id n', Holds I n → n.burst.Due id → Node.Fired n id n' → Holds I n' :=
    fun n id n' h hdue hfired => hI.timerFrame h hdue hfired
  cases call with
  | submit fuel input =>
    refine mwp_seq (Node.mwp_submit_burst (I := Holds I) (E := fun _ _ => True) ?_ (fun _ _ _ => trivial) hfire
      (fun _ _ _ _ _ _ _ => trivial) fuel) ?_
    · exact fun n' hentered =>
        hI.inputFrame h hentered.toLogged (Node.snapshot_service ..) (Node.snapshot_timers ..)
    · rintro result n' ⟨hholds, hidle⟩
      exact mwp_pure ⟨hholds, fun _ => hidle⟩
  | submitBatch fuel batch =>
    refine mwp_seq (Node.mwp_submitBatch_burst (I := fun _ n' => Holds I n') (fun _ => h) ?_ ?_ fuel) ?_
    · exact fun input rest seq n₁ n' h₁ hentered =>
        hI.inputFrame h₁ hentered.toLogged (Node.snapshot_service ..) (Node.snapshot_timers ..)
    · exact fun rest => hfire
    · rintro results n' (⟨rfl, rfl⟩ | ⟨hne, hholds, hidle⟩)
      · exact mwp_pure ⟨h, fun hne => absurd rfl hne⟩
      · exact mwp_pure ⟨hholds, fun _ => hidle⟩
  | tick fuel =>
    refine mwp_seq (Node.mwp_tick_burst (I := Holds I) (E := fun _ _ => True) (fun n' hentered =>
      hI.controlFrame h (by decide) hentered) (fun _ _ _ => trivial) hfire (fun _ _ _ _ _ _ _ => trivial) fuel) ?_
    rintro seq n' ⟨hholds, hidle⟩
    exact mwp_pure ⟨hholds, fun _ => hidle⟩
  | fence epoch =>
    refine mwp_seq (Node.mwp_fence_burst (Q := fun _ n' => Holds I n') (E := fun _ _ => True)
      (fun _ _ n' hentered => hI.controlFrame h (by decide) hentered) fun _ _ _ _ => trivial) ?_
    rintro seq n' hholds
    exact mwp_pure ⟨hholds, False.elim⟩
  | recordAck replica seq =>
    refine mwp_seq (Q := fun _ n' => n'.ledger = n.ledger ∧ n'.service = n.service ∧ n'.timers = n.timers) ?_ ?_
    · exact Node.mwp_onCommit (fun _ => ⟨rfl, rfl, rfl⟩) fun _ _ =>
        mwp_mono mwp_trivial (fun _ _ _ => ⟨rfl, rfl, rfl⟩) fun _ _ _ => trivial
    · rintro released n' ⟨hledger, hservice, htimers⟩
      refine mwp_pure ⟨?_, False.elim⟩
      rw [Holds, hledger, hservice, htimers]
      exact h

/-- **Run lemma**: `I` holds along every run of calls. -/
theorem Turns.follows {n₀ : Node svc} {inputs : List svc.Input} (hI : Follows I) (h : Turns n₀ inputs n)
    (hstart : Holds I n₀) : Holds I n := by
  induction h with
  | start => exact hstart
  | call call _ hrun ih => exact (mwp_ok (mwp_call_follows hI call ih) hrun).1

end Follow

end Ticktape.Runtime
