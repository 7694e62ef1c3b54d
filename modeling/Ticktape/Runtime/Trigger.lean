import Ticktape.Runtime.Chronicle
import Ticktape.Runtime.Ending

/-!
# The time of the trigger

The firing loop stamps its frames with the latest timestamp, which is that of the input or the tick that triggered
it, as long as no mark comes in between. A mark is stamped by the clock. So a burst carries the time of its trigger
exactly if no mark that moves the time on leaves a timer due (`firings_carry_trigger_time`).
-/

namespace Ticktape.Runtime

open Ticktape.Lib Ticktape.Core Ticktape.Journal

variable {svc : Service}

/-! ## Steady bursts -/

namespace Burst

variable {every : Option ℕ} {b b' : Burst svc} {l : List Firing} {time : UInt64}

/-- **Time stands still while the burst lasts**: whenever a timer is still due, it is `time`. -/
def Steady (every : Option ℕ) (time : UInt64) (b : Burst svc) : Prop :=
  ∀ l b', Fires every b l b' → ¬b'.Idle → b'.time = time

/-- A firing is of the timer that was due when it was made. -/
theorem Fires.mem (h : Fires every b l b') {f : Firing} (hf : f ∈ l) : ∃ l₁ b₁, Fires every b l₁ b₁ ∧
    b₁.Due f.id ∧ b₁.timers.byId[f.id]? = some (f.deadline, f.armedAt) ∧ f.stamp = b₁.time := by
  induction h with
  | none => cases hf
  | fire hdue hget hrest ih =>
    rcases List.mem_cons.mp hf with rfl | hf
    · exact ⟨[], _, .none, hdue, hget, rfl⟩
    · obtain ⟨l₁, b₁, hfires, hmade⟩ := ih hf
      exact ⟨_, b₁, .fire hdue hget hfires, hmade⟩

/-- Every burst on the way to the end goes on from there. -/
theorem Fires.rest {b₁ : Burst svc} {l₁ : List Firing} (h : Fires every b l b') (hidle : b'.Idle)
    (h₁ : Fires every b l₁ b₁) : ∃ l₂, l = l₁ ++ l₂ ∧ Fires every b₁ l₂ b' := by
  induction h₁ generalizing l with
  | none => exact ⟨l, rfl, h⟩
  | fire hdue hget _ ih =>
    cases h with
    | none => exact absurd hidle hdue.not_idle
    | fire hdue' hget' hfires =>
      obtain rfl := hdue.unique hdue'
      obtain ⟨rfl, rfl⟩ := Prod.mk.inj (Option.some.inj (hget.symm.trans hget'))
      obtain ⟨l₂, rfl, hrest⟩ := ih hfires
      exact ⟨l₂, rfl, hrest⟩

/-- In a steady burst every firing carries that time, and was due by then. -/
theorem Steady.firings (h : Steady every time b) (hfires : Fires every b l b') {f : Firing} (hf : f ∈ l) :
    f.stamp = time ∧ f.deadline ≤ time := by
  obtain ⟨l₁, b₁, hfires₁, hdue, hget, hstamp⟩ := hfires.mem hf
  have htime := h l₁ b₁ hfires₁ hdue.not_idle
  obtain ⟨deadline, armedAt, hget', hle, -⟩ := TimerWheel.popDue_some hdue
  obtain ⟨rfl, rfl⟩ := Prod.mk.inj (Option.some.inj (hget.symm.trans hget'))
  rw [htime] at hle hstamp
  exact ⟨hstamp, hle⟩

/-- A burst that came to its end and carried one time was steady. -/
theorem Fires.steady (h : Fires every b l b') (hidle : b'.Idle) (hstamps : ∀ f ∈ l, f.stamp = time) :
    Steady every time b := by
  intro l₁ b₁ hfires₁ hnotIdle
  obtain ⟨l₂, rfl, hrest⟩ := h.rest hidle hfires₁
  cases hrest with
  | none => exact absurd hidle hnotIdle
  | fire => exact hstamps _ (List.mem_append_right _ (List.mem_cons_self ..))

/-- Without snapshots time stands still. -/
theorem steady_of_no_snapshots (b : Burst svc) : Steady none b.time b := by
  rintro l b' hfires -
  induction hfires with
  | none => rfl
  | fire _ _ _ ih => exact ih

end Burst

/-! ## One call -/

/-- The calls that a client and the clock make. -/
inductive Trigger (svc : Service) where
  | submit (input : svc.Input)
  | tick

namespace Trigger

/-- Make the call. -/
def run (fuel : ℕ) : Trigger svc → NProg svc ℕ
  | submit input => do
    let result ← Node.submit fuel input
    pure result.1
  | tick => Node.tick fuel

/-- The kind of the frame that triggers. -/
def kind : Trigger svc → FrameKind
  | submit _ => .input
  | tick => .tick

/-- The burst that follows it. -/
def burst (n : Node svc) : Trigger svc → Burst svc
  | submit input => n.inputBurst input
  | tick => n.controlBurst

/-- **No mark that moves time on leaves a timer due** in the burst that the call triggers. -/
def Steady (trigger : Trigger svc) (n : Node svc) : Prop :=
  Burst.Steady n.snapshotEvery n.stamp (trigger.burst n)

/-- A node that takes no snapshots has only steady bursts. -/
theorem steady_of_no_snapshots {n : Node svc} (h : n.snapshotEvery = none) (trigger : Trigger svc) :
    trigger.Steady n := by
  have htime : (trigger.burst n).time = n.stamp := by
    cases trigger with
    | submit input =>
      simp only [burst, Node.inputBurst, h]
      rfl
    | tick =>
      simp only [burst, Node.controlBurst, h]
      rfl
  rw [Steady, h, ← htime]
  exact Burst.steady_of_no_snapshots _

end Trigger

/-- The call from `n` has published the frames `frames`: its own, unless it failed before, and those of the
firings `l`. -/
structure Published (trigger : Trigger svc) (n : Node svc) (l : List Firing) (frames : List Frame) : Prop where
  fired : frames.filterMap firedFrame = l.map (fun f => (encode f.id, f.stamp))
  stamps : ∀ f ∈ frames, f.kind = trigger.kind → f.timestamp = n.stamp
  triggered : l ≠ [] → ∃ f ∈ frames, f.kind = trigger.kind

/-- The call from `n` to `n'` has made the firings `l`. -/
structure Fired (trigger : Trigger svc) (n : Node svc) (l : List Firing) (n' : Node svc) : Prop where
  frames : ∃ frames, n'.ledger.map (·.frame) = n.ledger.map (·.frame) ++ frames ∧ Published trigger n l frames
  fires : ∃ b, Burst.Fires n.snapshotEvery (trigger.burst n) l b

/-- **The firings of the call carry the time of its trigger**, and only timers that were due by then fire. -/
structure OnTime (trigger : Trigger svc) (n n' : Node svc) : Prop where
  stamps : ∀ f ∈ n.since n', ∀ g ∈ n.since n', f.kind = trigger.kind → g.kind = .timerFired →
    g.timestamp = f.timestamp
  deadlines : ∃ l b, Burst.Fires n.snapshotEvery (trigger.burst n) l b ∧
    (n.since n').filterMap firedFrame = l.map (fun f => (encode f.id, f.stamp)) ∧
    ∀ f ∈ l, ∀ g ∈ n.since n', g.kind = trigger.kind → f.deadline ≤ g.timestamp

section Call

variable {trigger : Trigger svc} {n n' : Node svc} {l : List Firing}

/-- What was published since. -/
theorem since_eq {frames : List Frame} (h : n'.ledger.map (·.frame) = n.ledger.map (·.frame) ++ frames) :
    n.since n' = frames := by
  rw [Node.since, h, ← List.length_map (f := LedgerEntry.frame), List.drop_left]

theorem Fired.since (h : Fired trigger n l n') : Published trigger n l (n.since n') := by
  obtain ⟨frames, hledger, hpublished⟩ := h.frames
  rw [since_eq hledger]
  exact hpublished

/-- Every `TimerFired` frame of the call is that of a firing. -/
theorem Fired.stamp_mem (h : Fired trigger n l n') {g : Frame} (hg : g ∈ n.since n') (hkind : g.kind = .timerFired) :
    ∃ f ∈ l, f.stamp = g.timestamp := by
  have hmem : (g.payload, g.timestamp) ∈ (n.since n').filterMap firedFrame :=
    List.mem_filterMap.mpr ⟨g, hg, if_pos hkind⟩
  rw [h.since.fired] at hmem
  obtain ⟨f, hf, heq⟩ := List.mem_map.mp hmem
  exact ⟨f, hf, (Prod.mk.inj heq).2⟩

/-- And every firing has one. -/
theorem Fired.mem_stamp (h : Fired trigger n l n') {f : Firing} (hf : f ∈ l) :
    ∃ g ∈ n.since n', g.kind = .timerFired ∧ g.timestamp = f.stamp := by
  have hmem : (encode f.id, f.stamp) ∈ (n.since n').filterMap firedFrame := by
    rw [h.since.fired]
    exact List.mem_map_of_mem (f := fun f : Firing => (encode f.id, f.stamp)) hf
  obtain ⟨g, hg, heq⟩ := List.mem_filterMap.mp hmem
  unfold firedFrame at heq
  split at heq
  · rename_i hkind
    exact ⟨g, hg, hkind, (Prod.mk.inj (Option.some.inj heq)).2⟩
  · cases heq

/-- A steady burst is on time, however far it came. -/
theorem Fired.onTime (h : Fired trigger n l n') (hsteady : trigger.Steady n) : OnTime trigger n n' := by
  obtain ⟨b, hfires⟩ := h.fires
  obtain ⟨hfired, hstamp, -⟩ := h.since
  refine ⟨fun f hf g hg hkind hgkind => ?_, l, b, hfires, hfired, fun f hf g hg hkind => ?_⟩
  · obtain ⟨firing, hmem, heq⟩ := h.stamp_mem hg hgkind
    rw [hstamp f hf hkind, ← heq]
    exact (hsteady.firings hfires hmem).1
  · rw [hstamp g hg hkind]
    exact (hsteady.firings hfires hf).2

/-- What a frame and its marks add to the ledger. -/
theorem Node.Logged.frames {m : Node svc} {kind : FrameKind} {payload : Bytes} {seq : ℕ} {stamp : UInt64}
    {b : Burst svc} (h : Node.Logged m kind payload seq stamp b n') : ∃ frame marks,
      frame.kind = kind ∧ frame.payload = payload ∧ frame.timestamp = stamp ∧
      n'.ledger.map (·.frame) = m.ledger.map (·.frame) ++ frame :: marks ∧
      ∀ f ∈ marks, f.kind = .snapshotMark := by
  obtain ⟨frame, marks, outputs, hkind, hpayload, -, hstamp, hledger, hmarks⟩ := h.ledger
  refine ⟨frame, marks.map (·.frame), hkind, hpayload, hstamp, ?_, ?_⟩
  · rw [hledger, List.map_append, List.map_cons]
  · intro f hf
    obtain ⟨e, he, rfl⟩ := List.mem_map.mp hf
    exact (hmarks e he).1

theorem filterMap_marks {marks : List Frame} (h : ∀ f ∈ marks, f.kind = .snapshotMark) :
    marks.filterMap firedFrame = [] := by
  rw [List.filterMap_eq_nil_iff]
  intro f hf
  rw [firedFrame, if_neg (by rw [h f hf]; decide)]

theorem Trigger.kind_ne (trigger : Trigger svc) : trigger.kind ≠ .timerFired ∧ trigger.kind ≠ .snapshotMark := by
  cases trigger with
  | submit => exact ⟨by simp [kind], by simp [kind]⟩
  | tick => exact ⟨by simp [kind], by simp [kind]⟩

/-- The frame of the trigger. -/
theorem fired_trigger {payload : Bytes} {seq : ℕ} {b : Burst svc}
    (h : Node.Logged n trigger.kind payload seq n.stamp b n') :
    Fired trigger n [] n' ∧ ∃ f ∈ n.since n', f.kind = trigger.kind := by
  obtain ⟨frame, marks, hkind, -, hstamp, hledger, hmarks⟩ := h.frames
  refine ⟨⟨⟨frame :: marks, hledger, ?_, fun f hf hfkind => ?_, fun hne => absurd rfl hne⟩, _, .none⟩, frame,
    by rw [since_eq hledger]; exact List.mem_cons_self .., hkind⟩
  · rw [List.filterMap_cons, filterMap_marks hmarks, firedFrame, hkind, if_neg trigger.kind_ne.1]
    rfl
  · rcases List.mem_cons.mp hf with rfl | hf
    · exact hstamp
    · exact absurd (hfkind.symm.trans (hmarks f hf)) trigger.kind_ne.2

/-- A call that has published nothing. -/
theorem fired_nothing (hledger : n'.ledger = n.ledger) : Fired trigger n [] n' :=
  ⟨⟨[], by rw [hledger, List.append_nil], rfl, by simp, fun hne => absurd rfl hne⟩, _, .none⟩

/-- One firing more. -/
theorem Fired.snoc {m : Node svc} {id : UInt64} {b : Burst svc} (h : Fired trigger n l m)
    (htrigger : ∃ f ∈ n.since m, f.kind = trigger.kind)
    (hfires : Burst.Fires n.snapshotEvery (trigger.burst n) l m.burst) (hdue : m.burst.Due id)
    (hlogged : Node.Logged m .timerFired (encode id) (m.seq + 1) m.lastTimestamp b n') :
    ∃ deadline armedAt, m.burst.timers.byId[id]? = some (deadline, armedAt) ∧
      Fired trigger n (l ++ [⟨id, deadline, armedAt, m.seq + 1, m.lastTimestamp⟩]) n' ∧
      ∃ f ∈ n.since n', f.kind = trigger.kind := by
  obtain ⟨deadline, armedAt, hget, -⟩ := TimerWheel.popDue_some hdue
  obtain ⟨frames, hbefore, hfired, hstamp, -⟩ := h.frames
  obtain ⟨frame, marks, hkind, hpayload, htime, hledger, hmarks⟩ := hlogged.frames
  rw [hbefore, List.append_assoc] at hledger
  obtain ⟨f, hf, hfkind⟩ := htrigger
  rw [since_eq hbefore] at hf
  have htriggered : f ∈ frames ++ frame :: marks := List.mem_append_left _ hf
  refine ⟨deadline, armedAt, hget, ⟨⟨frames ++ frame :: marks, hledger, ?_, fun f hf hfkind => ?_,
    fun _ => ⟨f, htriggered, hfkind⟩⟩, _, hfires.snoc hdue hget⟩, f, by rw [since_eq hledger]; exact htriggered,
    hfkind⟩
  · rw [List.filterMap_append, List.filterMap_cons, filterMap_marks hmarks, hfired, firedFrame, if_pos hkind,
      hpayload, htime, List.map_append]
    rfl
  · rcases List.mem_append.mp hf with hold | hnew
    · exact hstamp f hold hfkind
    rcases List.mem_cons.mp hnew with rfl | hmark
    · exact absurd (hfkind.symm.trans hkind) trigger.kind_ne.1
    · exact absurd (hfkind.symm.trans (hmarks f hmark)) trigger.kind_ne.2

/-- **Step lemma**: a call that returns has made all the firings of its burst, one that fails the first of them. -/
theorem mwp_trigger (trigger : Trigger svc) (fuel : ℕ) :
    mwp (trigger.run fuel)
      (fun _ n' => ∃ l, Fired trigger n l n' ∧ Burst.Fires n.snapshotEvery (trigger.burst n) l n'.burst ∧
        n'.burst.Idle)
      (fun _ n' => ∃ l, Fired trigger n l n') n := by
  let I : Node svc → Prop := fun m => (m.snapshotEvery = n.snapshotEvery ∧
    ∃ f ∈ n.since m, f.kind = trigger.kind) ∧ ∃ l, Fired trigger n l m ∧ Burst.Fires n.snapshotEvery (trigger.burst n) l m.burst
  have hfire : ∀ (m : Node svc) id n', I m → m.burst.Due id → Node.Fired m id n' → I n' := by
    rintro m id n' ⟨⟨hevery, htrigger⟩, l, hfired, hfires⟩ hdue hnext
    obtain ⟨deadline, armedAt, hget, hfired', htrigger'⟩ := hfired.snoc htrigger hfires hdue hnext.toLogged
    refine ⟨⟨hnext.every.trans hevery, htrigger'⟩, _, hfired', ?_⟩
    rw [hnext.burst, hevery]
    exact hfires.snoc hdue hget
  have herr : ∀ (e : NodeError) (m : Node svc) id n', I m → m.burst.Due id → Node.HalfFired m id n' →
      ∃ l, Fired trigger n l n' := by
    rintro e m id n' ⟨⟨-, htrigger⟩, l, hfired, hfires⟩ hdue hhalf
    cases hhalf with
    | unpublished _ _ _ hledger =>
      obtain ⟨frames, hbefore, htold⟩ := hfired.frames
      exact ⟨l, ⟨frames, by rw [hledger, hbefore], htold⟩, hfired.fires⟩
    | published hlogged =>
      obtain ⟨deadline, armedAt, -, hfired', -⟩ := hfired.snoc htrigger hfires hdue hlogged
      exact ⟨_, hfired'⟩
  -- the frame of the trigger itself
  have hentered : ∀ {payload : Bytes} {seq : ℕ} {n' : Node svc},
      Node.Entered n trigger.kind payload seq n.stamp (trigger.burst n) n' → I n' := by
    intro payload seq n' h
    obtain ⟨hfired, htrigger⟩ := fired_trigger h.toLogged
    refine ⟨⟨h.every, htrigger⟩, [], hfired, ?_⟩
    rw [h.burst]
    exact .none
  have hhalf : ∀ {payload : Bytes} {seq : ℕ} {n' : Node svc},
      Node.HalfEntered n n.timers trigger.kind payload seq n.stamp (trigger.burst n) n' →
      ∃ l, Fired trigger n l n' := by
    intro payload seq n' h
    cases h with
    | unpublished _ _ _ hledger => exact ⟨[], fired_nothing hledger⟩
    | published hlogged => exact ⟨[], (fired_trigger hlogged).1⟩
  cases trigger with
  | submit input =>
    refine mwp_bind (mwp_mono (Node.mwp_submit_burst (fun n' h => hentered h) (fun e n' h => hhalf h) hfire herr fuel)
      ?_ fun _ _ h => h)
    rintro result n' ⟨⟨-, l, hfired, hfires⟩, hidle⟩
    exact mwp_pure ⟨l, hfired, hfires, hidle⟩
  | tick =>
    refine mwp_mono (Node.mwp_tick_burst (fun n' h => hentered h) (fun e n' h => hhalf h) hfire herr fuel)
      ?_ fun _ _ h => h
    rintro result n' ⟨⟨-, l, hfired, hfires⟩, hidle⟩
    exact ⟨l, hfired, hfires, hidle⟩

end Call

/-! ## Runs -/

/-- Runs of submissions and ticks, and what each call of them led from and to. -/
inductive TriggerRun (n₀ : Node svc) : List (Node svc × Trigger svc × Node svc) → Node svc → Prop where
  | start : TriggerRun n₀ [] n₀
  | returned {calls : List (Node svc × Trigger svc × Node svc)} {n n' : Node svc} {w w' : World JStore} {seq : ℕ}
      (trigger : Trigger svc) (fuel : ℕ) : TriggerRun n₀ calls n → trigger.run fuel n w = .ok seq n' w' →
      TriggerRun n₀ (calls ++ [(n, trigger, n')]) n'
  /-- A storage call failed, and with it the call that made it. -/
  | failed {calls : List (Node svc × Trigger svc × Node svc)} {n n' : Node svc} {w w' : World JStore} {e : NodeError}
      (trigger : Trigger svc) (fuel : ℕ) : TriggerRun n₀ calls n → trigger.run fuel n w = .err e n' w' →
      TriggerRun n₀ (calls ++ [(n, trigger, n')]) n'

/-- **Run lemma**: what every call of a run has fired. -/
theorem TriggerRun.fired {n₀ n : Node svc} {calls : List (Node svc × Trigger svc × Node svc)}
    (h : TriggerRun n₀ calls n) : ∀ c ∈ calls, ∃ l, Fired c.2.1 c.1 l c.2.2 := by
  induction h with
  | start =>
    intro c hc
    cases hc
  | returned trigger fuel _ hrun ih =>
    intro c hc
    rcases List.mem_append.mp hc with hold | hnew
    · exact ih c hold
    · rw [List.mem_singleton.mp hnew]
      obtain ⟨l, hfired, -⟩ := mwp_ok (mwp_trigger trigger fuel) hrun
      exact ⟨l, hfired⟩
  | failed trigger fuel _ hrun ih =>
    intro c hc
    rcases List.mem_append.mp hc with hold | hnew
    · exact ih c hold
    · rw [List.mem_singleton.mp hnew]
      exact mwp_err (mwp_trigger trigger fuel) hrun

/-- **Firings carry the time of their trigger** in every run whose bursts are steady, whether its calls return or
fail; and a call that returns has done so exactly if its burst was. -/
theorem firings_carry_trigger_time :
    (∀ (n₀ n : Node svc) (calls : List (Node svc × Trigger svc × Node svc)), TriggerRun n₀ calls n →
      (∀ c ∈ calls, c.2.1.Steady c.1) → ∀ c ∈ calls, OnTime c.2.1 c.1 c.2.2) ∧
    ∀ (trigger : Trigger svc) (fuel : ℕ) (n n' : Node svc) (w w' : World JStore) (seq : ℕ),
      trigger.run fuel n w = .ok seq n' w' → (OnTime trigger n n' ↔ trigger.Steady n) := by
  constructor
  · intro n₀ n calls h hsteady c hc
    obtain ⟨l, hfired⟩ := h.fired c hc
    exact hfired.onTime (hsteady c hc)
  · intro trigger fuel n n' w w' seq hrun
    obtain ⟨l, hfired, hfires, hidle⟩ := mwp_ok (mwp_trigger trigger fuel) hrun
    refine ⟨fun hontime => hfires.steady hidle fun f hf => ?_, hfired.onTime⟩
    -- the frame of the trigger is there to compare with
    obtain ⟨g, hg, hgkind, hgstamp⟩ := hfired.mem_stamp hf
    obtain ⟨t, ht, htkind⟩ := hfired.since.triggered (List.ne_nil_of_mem hf)
    rw [← hgstamp, hontime.stamps t ht g hg htkind hgkind, hfired.since.stamps t ht htkind]

/-- Submit an input to a node that was opened on an empty directory, while time passes from 5 on. -/
def submitInTime (every : Option ℕ) : Option (Node doubler × World JStore × Node doubler) := do
  let opening : Prog Unit JStore NodeError (Node doubler) :=
    Node.openWith ⟨⟨1024, .never⟩, 1, every, 1, none⟩ () fun i => 5 + UInt64.ofNat i
  let (n₀, _, w₀) ← (opening () (.healthy ⟨Disk.empty, History.fresh⟩)).returned
  let trigger : Trigger doubler := .submit (3 : UInt64)
  let (_, n, _) ← (trigger.run 4 n₀ w₀).returned
  pure (n₀, w₀, n)

/-- Without snapshots the timer that the input arms fires at the time of the input. -/
theorem firings_carry_trigger_time_of_input : ∃ n₀ n : Node doubler,
    (n₀.since n).map (fun f => (f.kind, f.timestamp)) = [(.input, 5), (.timerFired, 5)] ∧
    OnTime (.submit (3 : UInt64)) n₀ n := by
  have hplay : (submitInTime none).any (fun p => decide ((p.1.since p.2.2).map (fun f => (f.kind, f.timestamp)) =
      [(.input, 5), (.timerFired, 5)]) && p.1.snapshotEvery.isNone) = true := by decide +kernel
  obtain ⟨⟨n₀, w₀, n⟩, hplay, hchecks⟩ := (Option.any_eq_true _ _).mp hplay
  rw [Bool.and_eq_true, decide_eq_true_eq, Option.isNone_iff_eq_none] at hchecks
  obtain ⟨hframes, hevery⟩ := hchecks
  simp only [submitInTime, bind, Option.bind_eq_some_iff, pure, Option.some.injEq, Prod.mk.injEq] at hplay
  obtain ⟨⟨_, _, _⟩, -, ⟨_, _, _⟩, hsubmit, rfl, rfl, rfl⟩ := hplay
  rw [Outcome.returned_eq_some] at hsubmit
  refine ⟨_, _, hframes, (firings_carry_trigger_time.2 _ _ _ _ _ _ _ hsubmit).mpr ?_⟩
  exact Trigger.steady_of_no_snapshots hevery _

/-- **A mark moves time on.** The node snapshots every frame: the mark of the input is stamped 6, and so is the timer
that the input at time 5 has triggered. -/
theorem mark_moves_time : ∃ (n₀ n : Node doubler) (calls : List (Node doubler × Trigger doubler × Node doubler)),
    TriggerRun n₀ calls n ∧ (n₀, .submit (3 : UInt64), n) ∈ calls ∧
    (n₀.since n).map (fun f => (f.kind, f.timestamp)) =
      [(.input, 5), (.snapshotMark, 6), (.timerFired, 6), (.snapshotMark, 7)] ∧
    ¬OnTime (.submit (3 : UInt64)) n₀ n := by
  have hplay : (submitInTime (some 1)).any (fun p => decide ((p.1.since p.2.2).map (fun f => (f.kind, f.timestamp)) =
      [(.input, 5), (.snapshotMark, 6), (.timerFired, 6), (.snapshotMark, 7)])) = true := by decide +kernel
  obtain ⟨⟨n₀, w₀, n⟩, hplay, hframes⟩ := (Option.any_eq_true _ _).mp hplay
  replace hframes := of_decide_eq_true hframes
  simp only [submitInTime, bind, Option.bind_eq_some_iff, pure, Option.some.injEq, Prod.mk.injEq] at hplay
  obtain ⟨⟨_, _, _⟩, -, ⟨_, _, _⟩, hsubmit, rfl, rfl, rfl⟩ := hplay
  rw [Outcome.returned_eq_some] at hsubmit
  refine ⟨_, _, _, TriggerRun.start.returned _ 4 hsubmit, List.mem_singleton.mpr rfl, hframes, fun h => ?_⟩
  have hinput : (FrameKind.input, (5 : UInt64)) ∈ _ := hframes ▸ List.mem_cons_self ..
  have hfired : (FrameKind.timerFired, (6 : UInt64)) ∈ _ :=
    hframes ▸ List.mem_cons_of_mem _ (List.mem_cons_of_mem _ (List.mem_cons_self ..))
  obtain ⟨f, hf, heqf⟩ := List.mem_map.mp hinput
  obtain ⟨g, hg, heqg⟩ := List.mem_map.mp hfired
  obtain ⟨hfkind, hftime⟩ := Prod.mk.inj heqf
  obtain ⟨hgkind, hgtime⟩ := Prod.mk.inj heqg
  have hstamp := h.stamps f hf g hg hfkind hgkind
  rw [hftime, hgtime] at hstamp
  cases hstamp

end Ticktape.Runtime
