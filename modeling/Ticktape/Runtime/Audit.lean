import Ticktape.Journal.Reader
import Ticktape.Runtime.Publish
import Ticktape.Runtime.Replay

/-!
# The replay audit

`Node::verify_replay` (`ticktape-runtime/src/lib.rs`) replays the journal into a fresh service and compares its
snapshot with that of the live one. It starts from genesis whatever the journal starts from: while the first segment
is there it is never wrong (`verify_replay_holds`), but once snapshots have let the first segment go, it replays a
tail of the history as if it were the whole.
-/

namespace Ticktape.Runtime

open Ticktape.Lib Ticktape.Core Ticktape.Journal

variable {svc : Service}

namespace Node

/-! ## The audit -/

/-- What the audit carries from frame to frame. -/
structure Audit (svc : Service) where
  replayed : svc.State
  decodeErr : Option NodeError

/-- One step of the fresh service; its outputs and timer requests are dropped. -/
def Audit.step (audit : Audit svc) (frame : Frame) (step : svc.State → Ctx → Step svc.State svc.Output) : Audit svc :=
  { audit with replayed := (step audit.replayed ⟨frame.seq, frame.timestamp⟩).state }

/-- Replay one frame. Behind one that does not decode nothing is applied any more. -/
def auditFrame (frame : Frame) (audit : Audit svc) : Audit svc :=
  if audit.decodeErr.isSome then audit
  else
    match frame.kind with
    | .input =>
      match (decodeAll frame.payload : Except CodecError svc.Input) with
      | .ok input => audit.step frame fun state ctx => svc.apply state frame.seq input ctx
      | .error err => { audit with decodeErr := some (.corruptInput frame.seq err) }
    | .timerFired =>
      match (decodeAll frame.payload : Except CodecError UInt64) with
      | .ok id => audit.step frame fun state ctx => svc.onTimer state id ctx
      | .error err => { audit with decodeErr := some (.corruptInput frame.seq err) }
    | _ => audit

/-- Re-run genesis and the journal in a fresh service, and compare its snapshot with that of the live one. -/
def verifyReplay : NProg svc Bool := do
  sync
  let n ← Prog.mem
  let audit ← Prog.mapErr .journal (Prog.owning ⟨svc.genesis n.serviceConfig, none⟩ (do
    let _ ← Journal.replayOpen n.journal.config auditFrame
    pure ()))
  match audit.decodeErr with
  | some e => Prog.fail e
  | none => pure (encode (svc.snapshot n.service) == encode (svc.snapshot audit.replayed))

/-- The audit applies the frames that replay applies. -/
theorem foldl_auditFrame {r r' : Replayed svc} {frames : List Frame} (h : replay r frames = .ok r') :
    frames.foldl (fun audit frame => auditFrame frame audit) ⟨r.service, none⟩ = ⟨r'.service, none⟩ := by
  induction frames generalizing r with
  | nil =>
    obtain rfl : r = r' := Except.ok.inj h
    rfl
  | cons frame rest ih =>
    rw [replay] at h
    cases hframe : replayFrame r frame with
    | error e =>
      rw [hframe] at h
      cases h
    | ok r₁ =>
      rw [hframe] at h
      have hfirst : auditFrame frame ⟨r.service, none⟩ = (⟨r₁.service, none⟩ : Audit svc) := by
        unfold replayFrame at hframe
        unfold auditFrame
        cases hkind : frame.kind with
        | input =>
          simp only [hkind] at hframe
          split at hframe
          · cases hframe
          · next input hdec =>
            obtain rfl := Except.ok.inj hframe
            simp only [hdec]
            rfl
        | timerFired =>
          simp only [hkind] at hframe
          split at hframe
          · cases hframe
          · next id hdec =>
            obtain rfl := Except.ok.inj hframe
            simp only [hdec]
            rfl
        | _ =>
          simp only [hkind] at hframe
          obtain rfl := Except.ok.inj hframe
          rfl
      rw [List.foldl_cons, hfirst]
      exact ih h

end Node

/-! ## The verdict -/

section Verdict

variable {Live : List Frame → svc.State → TimerWheel → Prop} {tip : ℕ} {n : Node svc} {w : World JStore}

/-- A sync in a calm world: the bytes stay what they are, and of the node only the journal's clock and its dirty flag
change. -/
theorem sync_calm (h : Node.Current Live tip n w.st) (hcalm : w.Calm) :
    ∃ j w₁, Node.sync n w = .ok () { n with journal := j } w₁ ∧ w₁.Calm ∧ SamePlace n.journal j ∧
      SameBytes w.st w₁.st ∧ w₁.st.ghost.tape = w.st.ghost.tape ∧ JInv w.st.ghost.tape j w₁.st := by
  have hspec : wp Fate.calm Journal.sync _ (fun _ _ _ => False) (fun _ => False) n.journal w.st :=
    wp_sync (fun hcut => absurd hcut calm_no_cut) (fun k hk => absurd hk (calm_no_fault k)) h.store.journal
  obtain ⟨_, j, w₁, hrun, hcalm₁, hinv, -, hghost, -⟩ := wp_total hspec hcalm ends_sync
  have hat : wpAt Journal.sync _ _ n.journal w := wpAt_sync
  obtain ⟨hplace, hsynced, -⟩ := wpAt_ok hat hrun
  have hnode : Node.sync n w = .ok () { n with journal := j } w₁ := by
    unfold Node.sync Node.onJournal Prog.zoom Prog.mapErr
    rw [hrun]
  exact ⟨j, w₁, hnode, hcalm₁, hplace, hsynced.sameBytes, by rw [hghost], hinv⟩

/-- **The audit of a node whose history is all there** agrees with replay. -/
theorem verifyReplay_calm (h : Node.Current Live tip n w.st) (hcalm : w.Calm) (hfirst : FromGenesis w.st)
    (hbound : n.seq + 1 < 2 ^ 64) {r : Node.Replayed svc}
    (hreplay : Node.replay (Node.genesis svc n.serviceConfig) w.st.ghost.tape = .ok r) :
    ∃ j w₁ w', Node.sync n w = .ok () { n with journal := j } w₁ ∧ SamePlace n.journal j ∧ SameBytes w.st w₁.st ∧
      w₁.st.ghost.tape = w.st.ghost.tape ∧
      Node.verifyReplay n w = .ok (encode (svc.snapshot n.service) == encode (svc.snapshot r.service))
        { n with journal := j } w' ∧
      w'.st = { w₁.st with ghost := { w₁.st.ghost with window := .none } } := by
  obtain ⟨j, w₁, hsync, hcalm₁, hplace, hbytes, htape, hinv⟩ := sync_calm h hcalm
  have hlevel := h.level
  obtain ⟨opened, w', hopen, hframes, hst⟩ := openWith_live j.config (htape ▸ hinv) hcalm₁
    (hfirst.sameBytes hbytes) (by rw [htape]; omega)
  obtain ⟨p, hstream⟩ := replayOpen_of_openWith Node.auditFrame (⟨svc.genesis n.serviceConfig, none⟩ : Node.Audit svc)
    hopen
  rw [hframes, htape] at hstream
  have hfold := Node.foldl_auditFrame hreplay
  refine ⟨j, w₁, w', hsync, hplace, hbytes, htape, ?_, hst⟩
  simp only [Node.verifyReplay, bind, Prog.andThen, hsync, Prog.mem, Prog.mapErr, Prog.owning, hstream]
  rw [show (⟨svc.genesis n.serviceConfig, none⟩ : Node.Audit svc) = ⟨(Node.genesis svc n.serviceConfig).service, none⟩
    from rfl, hfold]
  rfl

end Verdict

/-! ## Runs -/

/-- A submission, a tick, a fence or a sync. -/
def NodeOp.Plain : NodeOp svc → Prop
  | .submit _ _ => True
  | .tick _ => True
  | .fence _ => True
  | .sync => True
  | _ => False

/-- Runs of a node in which every storage call succeeds, with reopenings in between; a clean one finds the directory as
it was left, any other may find less of what was not synced. No snapshot is too long for its length field when the node
is reopened. -/
inductive CalmRun (config : svc.Config) : Node svc → JStore → Prop where
  | opened {w w' : World JStore} {n : Node svc} (nodeConfig : NodeConfig) (clock : ℕ → UInt64) :
      w.st = ⟨Disk.empty, History.fresh⟩ → w.Calm → Node.openWith nodeConfig config clock () w = .ok n () w' →
      CalmRun config n (resume w'.st n.seq)
  | done {w w' : World JStore} {n n' : Node svc} (op : NodeOp svc) : CalmRun config n w.st → w.Calm → op.Plain →
      op.run n w = .ok () n' w' → CalmRun config n' w'.st
  | reopened {w w' : World JStore} {n n' : Node svc} {s : JStore} (nodeConfig : NodeConfig) (clock : ℕ → UInt64) :
      CalmRun config n s → s.PowerLoss w.st → w.Calm → Fitting w →
      Node.openWith nodeConfig config clock () w = .ok n' () w' → CalmRun config n' (resume w'.st n'.seq)

section Runs

variable {config : svc.Config} {R : svc.State → svc.State → Prop} {Live : List Frame → svc.State → TimerWheel → Prop}
  {tip : ℕ} {n : Node svc} {s : JStore}

/-- A sync leaves the node where it is on its tape. -/
theorem Node.wp_sync_current {F : Fate → Prop} (hF : ∀ k, ¬F (.fault k)) (h : Node.Current Live tip n s) :
    wp F (Node.sync : NProg svc Unit) (fun _ => Node.Current Live tip) (fun _ _ _ => True) (fun _ => True) n s := by
  refine wp_onJournal (wp_mono (h.store.sync hF) ?_ (fun _ _ _ _ => trivial) fun _ _ => trivial)
  rintro - j s' ⟨hinv, htape⟩
  exact ⟨hinv, by rw [htape]; exact h.level, by rw [htape]; exact h.live⟩

/-- **Step lemma**: an operation that returns leaves a node that has applied its whole tape. -/
theorem NodeOp.Plain.current {F : Fate → Prop} (hF : ∀ k, ¬F (.fault k)) (hT : Tracks config Live) {op : NodeOp svc}
    (hop : op.Plain) (h : Node.Current Live tip n s) :
    wp F op.run (fun _ => Node.Current Live tip) (fun _ _ _ => True) (fun _ => True) n s := by
  cases op with
  | submit fuel input =>
    apply wp_seq (wp_mono (Node.wp_submit hF hT fuel input h.inv) (fun _ _ _ h => h) (fun _ _ _ _ => trivial)
      fun _ _ => trivial)
    exact fun _ _ _ h' => wp_pure h'
  | tick fuel =>
    apply wp_seq (wp_mono (Node.wp_tick hF hT fuel h.inv) (fun _ _ _ h => h) (fun _ _ _ _ => trivial)
      fun _ _ => trivial)
    exact fun _ _ _ h' => wp_pure h'
  | fence epoch =>
    apply wp_seq (wp_mono (Node.wp_fence hF hT epoch h.inv) (fun _ _ _ h => h) (fun _ _ _ _ => trivial)
      fun _ _ => trivial)
    exact fun _ _ _ h' => wp_pure h'
  | sync => exact Node.wp_sync_current hF h
  | submitBatch | recordAck | subscribe => exact hop.elim

/-- No frame changes what the service was configured with. -/
theorem publishing_serviceConfig (config : svc.Config) :
    Node.Publishing fun n : Node svc => n.serviceConfig = config where
  blind _ _ _ h := h
  control h _ _ := h
  input h _ _ _ := h
  timer _ h _ _ _ := h

theorem NodeOp.Plain.serviceConfig {op : NodeOp svc} (hop : op.Plain) (h : n.serviceConfig = config) :
    mwp op.run (fun _ n' => n'.serviceConfig = config) (fun _ _ => True) n := by
  have hI := publishing_serviceConfig config
  cases op with
  | submit fuel input => exact mwp_seq (hI.mwp_submit fuel input h) fun _ _ h' => mwp_pure h'
  | tick fuel => exact mwp_seq (hI.mwp_tick fuel h) fun _ _ h' => mwp_pure h'
  | fence epoch => exact mwp_seq (hI.mwp_fence epoch h) fun _ _ h' => mwp_pure h'
  | sync => exact Node.mwp_onJournal (fun _ _ => h) fun _ _ => trivial
  | submitBatch | recordAck | subscribe => exact hop.elim

/-- A node that was opened has applied its whole tape. -/
theorem opened_current (h : svc.Lawful config R) {w w' : World JStore} {nodeConfig : NodeConfig} {clock : ℕ → UInt64}
    (hloss : Node.NLoss (Replays config R) w.st) (hcalm : w.Calm) (hfits : Fitting w)
    (hopen : Node.openWith nodeConfig config clock () w = .ok n () w') :
    Node.Current (Replays config R) n.seq n (resume w'.st n.seq) ∧ n.serviceConfig = config := by
  have hinv := ((tracked_replays h).opened hloss (benign_of_calm hcalm) hfits hopen).2
  constructor
  · have hle := hinv.store.tip_le
    have hge := hinv.store.behind
    exact hinv.current (by omega)
  · obtain ⟨journal, fromSeq, tip, frames, r, rfl⟩ := mwp_ok Node.mwp_openWith hopen
    rfl

/-- **Run lemma.** -/
theorem CalmRun.current (h : svc.Lawful config R) (hrun : CalmRun config n s) :
    (∃ tip, Node.Current (Replays config R) tip n s) ∧ n.serviceConfig = config := by
  induction hrun with
  | opened nodeConfig clock hst hcalm hopen =>
    have hloss : Node.NLoss (Replays config R) _ := hst ▸ nloss_fresh
    obtain ⟨hcurrent, hconfig⟩ := opened_current h hloss hcalm (by rw [Fitting, hst]; rfl) hopen
    exact ⟨⟨_, hcurrent⟩, hconfig⟩
  | done op _ hcalm hplain hrun ih =>
    obtain ⟨⟨tip, hcurrent⟩, hconfig⟩ := ih
    have hsame := mwp_ok (hplain.serviceConfig hconfig) hrun
    have hnext := wp_ok (hplain.current calm_no_fault (tracks_replays h) hcurrent) hcalm hrun
    exact ⟨⟨tip, hnext⟩, hsame⟩
  | reopened nodeConfig clock _ hloss hcalm hfits hopen ih =>
    obtain ⟨⟨tip, hcurrent⟩, -⟩ := ih
    obtain ⟨hcurrent', hconfig⟩ := opened_current h (hcurrent.store.crash.loss hloss) hcalm hfits hopen
    exact ⟨⟨_, hcurrent'⟩, hconfig⟩

/-- **The audit is never wrong about a history that is all there.** In every run in which all storage calls succeed,
whenever the first segment has not been removed, the audit returns true. It ends with the node and the directory that
a sync alone would have left: the run goes on from there, with the same state, timers and frames. -/
theorem verify_replay_holds (h : svc.Lawful config R) {w : World JStore} (hrun : CalmRun config n w.st)
    (hcalm : w.Calm) (hfirst : FromGenesis w.st) (hbound : n.seq + 1 < 2 ^ 64) :
    ∃ j w₁ w', Node.verifyReplay n w = .ok true { n with journal := j } w' ∧
      Node.sync n w = .ok () { n with journal := j } w₁ ∧ CalmRun config { n with journal := j } w₁.st ∧
      w'.st = { w₁.st with ghost := { w₁.st.ghost with window := .none } } ∧
      SamePlace n.journal j ∧ SameBytes w.st w'.st ∧ w'.st.ghost.tape = w.st.ghost.tape := by
  obtain ⟨⟨tip, hcurrent⟩, hconfig⟩ := hrun.current h
  obtain ⟨r, hreplay, hR, -⟩ := hcurrent.live
  rw [← hconfig] at hreplay
  obtain ⟨j, w₁, w', hsync, hplace, hbytes, htape, hverify, hst⟩ :=
    verifyReplay_calm hcurrent hcalm hfirst hbound hreplay
  rw [h.bisim.snapshot hR, beq_self_eq_true] at hverify
  refine ⟨j, w₁, w', hverify, hsync, .done .sync hrun hcalm trivial hsync, hst, hplace, ?_, ?_⟩
  · rw [hst]
    exact hbytes
  · rw [hst]
    exact htape

end Runs

/-! ## Runs of the doubler -/

/-- A node that took one input, its store, and what the audit says. -/
structure Audited where
  node : Node doubler
  store : JStore
  verdict : Bool
  next : Node doubler
  world : World JStore

/-- Open an empty directory, submit one input, audit. Every frame is followed by a snapshot, and only one is kept. -/
def submitAndAudit (segmentBytes : ℕ) : Option Audited := do
  let (n, _, w) ← (Node.openWith ⟨⟨segmentBytes, .everyFrame⟩, 1, some 1, 1, none⟩ () (fun _ => 5) ()
    (.healthy ⟨Disk.empty, History.fresh⟩)).returned
  let (_, n₁, w₁) ← ((@NodeOp.submit doubler 4 (3 : UInt64)).run n (.healthy (resume w.st n.seq))).returned
  let (verdict, n', w') ← (Node.verifyReplay n₁ (.healthy w₁.st)).returned
  pure ⟨n₁, w₁.st, verdict, n', w'⟩

theorem calmRun_submitAndAudit {segmentBytes : ℕ} {a : Audited} (h : submitAndAudit segmentBytes = some a) :
    CalmRun () a.node a.store ∧ Node.verifyReplay a.node (.healthy a.store) = .ok a.verdict a.next a.world := by
  simp only [submitAndAudit, bind, Option.bind_eq_some_iff] at h
  obtain ⟨⟨n, _, w⟩, hopen, ⟨_, n₁, w₁⟩, hsubmit, ⟨verdict, n', w'⟩, haudit, heq⟩ := h
  cases heq
  rw [Outcome.returned_eq_some] at hopen hsubmit haudit
  have hcalm : ∀ s : JStore, (World.healthy s).Calm := fun s f hf => by cases hf
  have hopened : CalmRun () n (resume w.st n.seq) := .opened (w := .healthy _) _ _ rfl (hcalm _) hopen
  exact ⟨.done (.submit 4 (3 : UInt64)) hopened (hcalm _) trivial hsubmit, haudit⟩

/-- A journal in one segment: the audit says what the theorem says. -/
theorem verify_replay_holds_of_input : ∃ (n : Node doubler) (w : World JStore), FromGenesis w.st ∧
    n.service = (6 : UInt64) ∧ ∃ j w₁ w', Node.verifyReplay n w = .ok true { n with journal := j } w' ∧
      Node.sync n w = .ok () { n with journal := j } w₁ ∧ CalmRun () { n with journal := j } w₁.st ∧
      w'.st = { w₁.st with ghost := { w₁.st.ghost with window := .none } } ∧
      SamePlace n.journal j ∧ SameBytes w.st w'.st ∧ w'.st.ghost.tape = w.st.ghost.tape := by
  let total : Audited → UInt64 := fun a => a.node.service
  have hrun : (submitAndAudit 1024).any (fun a => decide (total a = 6 ∧ a.store.ghost.tape.length < 10 ∧
      (a.store.disk.get (segName 1)).isSome = true)) = true := by decide +kernel
  obtain ⟨a, hrun, hvals⟩ := (Option.any_eq_true _ _).mp hrun
  obtain ⟨hservice, htape, hfirst⟩ : total a = 6 ∧ a.store.ghost.tape.length < 10 ∧
      (a.store.disk.get (segName 1)).isSome = true := of_decide_eq_true hvals
  obtain ⟨hcalmRun, -⟩ := calmRun_submitAndAudit hrun
  have hcalm : (World.healthy a.store).Calm := fun f hf => by cases hf
  obtain ⟨⟨tip, hcurrent⟩, -⟩ := hcalmRun.current doubler_lawful
  have hbound : a.node.seq + 1 < 2 ^ 64 := by
    rw [hcurrent.level]
    omega
  exact ⟨a.node, .healthy a.store, Or.inr hfirst, hservice,
    verify_replay_holds doubler_lawful (w := .healthy a.store) hcalmRun hcalm (Or.inr hfirst) hbound⟩

/-- **The first segment compacted away**: one input and its snapshots have made it superfluous for recovery, and the
audit calls the history that is left a divergence. -/
theorem audit_of_compacted_journal : ∃ (n n' : Node doubler) (w w' : World JStore), CalmRun () n w.st ∧ w.Calm ∧
    n.seq + 1 < 2 ^ 64 ∧ Node.verifyReplay n w = .ok false n' w' := by
  have hrun : (submitAndAudit 1).any (fun a => decide (a.store.ghost.tape.length < 10 ∧ a.verdict = false)) = true := by
    decide +kernel
  obtain ⟨a, hrun, hvals⟩ := (Option.any_eq_true _ _).mp hrun
  obtain ⟨htape, hverdict⟩ : a.store.ghost.tape.length < 10 ∧ a.verdict = false := of_decide_eq_true hvals
  obtain ⟨hcalmRun, haudit⟩ := calmRun_submitAndAudit hrun
  rw [hverdict] at haudit
  obtain ⟨⟨tip, hcurrent⟩, -⟩ := hcalmRun.current doubler_lawful
  have hbound : a.node.seq + 1 < 2 ^ 64 := by
    rw [hcurrent.level]
    omega
  have hcalm : (World.healthy a.store).Calm := fun f hf => by cases hf
  exact ⟨a.node, a.next, .healthy a.store, a.world, hcalmRun, hcalm, hbound, haudit⟩

end Ticktape.Runtime
