import Ticktape.Sim.Recovery
import Ticktape.Sim.Shrink

/-!
# Alarms

When a simulated run fails. As long as no timer fires, the simulator's guess is right: every frame that an
operation writes besides its own is a mark, the shadow agrees with the history after every step, and a run fails
only for a reason (`Cause`). A timer that fires is taken for a mark, and what its handler does is not replayed.
-/

namespace Ticktape.Sim

open Ticktape.Lib Ticktape.Core Ticktape.Journal Ticktape.Runtime

variable {svc : Service} {setup : Setup svc} {config : SimConfig}

/-! ## Causes -/

/-- The node at the simulated time. -/
def SimState.timed (sim : SimState svc) : Node svc := { sim.node with clock := fun _ => sim.nanos }

/-- The store after the power loss that the generator would cause now. -/
def SimState.crashed (config : SimConfig) (sim : SimState svc) (s : JStore) : JStore :=
  { s with disk := (crashDisk config.tornTails s.disk sim.rng).1 }

/-- Opening the node at the simulated time. -/
def SimState.reopen (setup : Setup svc) (config : SimConfig) (sim : SimState svc) :
    Prog (SimState svc) JStore NodeError (Node svc) :=
  Node.openWith config.nodeConfig setup.serviceConfig fun _ => sim.nanos

/-- **Why the next step may fail** of a simulator in the state `sim` over the store `s`: the operation fails, the
node cannot be opened after the power loss, it comes back without frames that had been synced, or its state is not
the one that replaying the surviving history gives. -/
inductive Cause (setup : Setup svc) (config : SimConfig) (Synced : ℕ → Prop) (sim : SimState svc) (s : JStore) :
    Prop where
  | sync {e} : Fails Fate.calm Node.sync sim.timed s e → Cause setup config Synced sim s
  | tick {e} : Fails Fate.calm (Node.tick setup.fuel) sim.timed s e → Cause setup config Synced sim s
  | submit {e} : Fails Fate.calm (Node.submit setup.fuel (setup.genInput sim.rng).1) sim.timed s e →
      Cause setup config Synced sim s
  | recovery {u e} : Fails Fate.calm (sim.reopen setup config) u (sim.crashed config s) e →
      Cause setup config Synced sim s
  | lost {u n s' seq} : Returns Fate.calm (sim.reopen setup config) u (sim.crashed config s) n u s' → Synced seq →
      n.seq < seq → Cause setup config Synced sim s
  | diverged {u n s' r} : Returns Fate.calm (sim.reopen setup config) u (sim.crashed config s) n u s' →
      Node.replay (Node.genesis svc setup.serviceConfig) (s.ghost.tape.take n.seq) = .ok r →
      encode (svc.snapshot n.service) ≠ encode (svc.snapshot r.service) → Cause setup config Synced sim s

theorem Cause.mono {Synced Synced' : ℕ → Prop} {sim : SimState svc} {s : JStore}
    (h : Cause setup config Synced sim s) (himp : ∀ seq, Synced seq → Synced' seq) :
    Cause setup config Synced' sim s := by
  cases h with
  | sync h => exact .sync h
  | tick h => exact .tick h
  | submit h => exact .submit h
  | recovery h => exact .recovery h
  | lost hopen hsynced hlt => exact .lost hopen (himp _ hsynced) hlt
  | diverged hopen hreplay hne => exact .diverged hopen hreplay hne

/-! ## Steps -/

/-- No timer fired. -/
def Quiet (tape : List Frame) : Prop := ∀ f ∈ tape, f.kind ≠ .timerFired

/-- **The invariant of a run without timer firings**, between two steps. -/
structure SimInv (sim : SimState svc) (s : JStore) : Prop where
  node : OnTape sim.node s
  shadow : Shadows sim.expected s.ghost.tape

/-- What an operation writes besides its own frame is a mark, if no timer fired. -/
theorem Shadows.followed {expected : List Expected} {tape tape' : List Frame} {frame : Frame}
    (h : Shadows expected tape) (exp : Expected) (hagrees : exp.agrees frame = true) (hfollows : Node.Follows (tape ++ [frame]) tape')
    (hquiet : Quiet tape') : Shadows (expected ++ exp :: pushMarks tape.length tape'.length) tape' := by
  obtain ⟨rest, rfl, hkinds⟩ := hfollows
  have hmarks : ∀ f ∈ rest, f.kind = .snapshotMark := fun f hf =>
    (hkinds f hf).resolve_right (hquiet f (List.mem_append_right _ hf))
  have hcount : (tape ++ [frame] ++ rest).length - tape.length - 1 = rest.length := by
    rw [List.length_append, List.length_append, List.length_singleton]
    omega
  have hrest : Shadows (List.replicate rest.length .mark) rest := by
    clear hcount hkinds hquiet
    induction rest with
    | nil => exact .nil
    | cons f rest ih =>
      rw [List.length_cons, List.replicate_succ]
      exact .cons (decide_eq_true (hmarks f (List.mem_cons_self ..)))
        (ih fun g hg => hmarks g (List.mem_cons_of_mem _ hg))
  rw [pushMarks, hcount, List.append_assoc]
  exact List.rel_append h (.cons hagrees hrest)

section Step

variable {sim : SimState svc} {s : JStore} {step : ℕ}

theorem wp_onNode {α : Type} {F : Fate → Prop} {failed : NodeError → SimFailure} {p : NProg svc α}
    {Q : α → SimState svc → JStore → Prop} {E : SimFailure → SimState svc → JStore → Prop} {C : JStore → Prop}
    (h : wp F p (fun a n s' => Q a { sim with node := n } s') (fun e n s' => E (failed e) { sim with node := n } s') C
      { sim.node with clock := fun _ => sim.nanos } s) : wp F (onNode failed p) Q E C sim s := by
  apply wp_bind
  apply wp_update
  exact wp_zoom (wp_mapErr h)

theorem wp_draw {α : Type} {F : Fate → Prop} {f : Rng → α × Rng} {Q : α → SimState svc → JStore → Prop}
    {E : SimFailure → SimState svc → JStore → Prop} {C : JStore → Prop} (h : Q (f sim.rng).1 { sim with rng := (f sim.rng).2 } s) :
    wp F (draw f) Q E C sim s := by
  apply wp_bind
  apply wp_mem
  apply wp_bind
  apply wp_update
  exact wp_pure h

theorem wp_addDials {F : Fate → Prop} {a b : ℕ} {Q : ℕ → SimState svc → JStore → Prop}
    {E : SimFailure → SimState svc → JStore → Prop} (h : ∀ sum, Q sum sim s) :
    wp F (addDials a b) Q E (fun _ => True) sim s := by
  unfold addDials
  split
  · exact wp_pure (h _)
  · exact wp_panic trivial

/-- **The checks of a recovered node** that has applied what is left of the history. -/
theorem wp_checkRecovered (sim : SimState svc) (synced : ℕ) (journalConfig : JournalConfig)
    (fail : String → SimFailure) (hcodecs : svc.Codecs) (htimeless : Timeless svc)
    (hcheck : ∀ state, setup.check state = .ok ()) {expected : List Expected} {node : Node svc} {full : List Frame}
    (hnode : OnTape node s) (hshadow : Shadows expected full) (hfull : SeqRun 1 full) (htape : s.ghost.tape = full.take node.seq)
    (hle : node.seq ≤ full.length) :
    wp Fate.calm (checkRecovered setup fail journalConfig synced expected node)
      (fun _ sim' s' => sim' = { sim with expected := expected.take node.seq, synced := node.seq } ∧
        OnTape node s' ∧ s'.ghost.tape = s.ghost.tape)
      (fun _ _ _ => node.seq < synced ∨ ∃ r,
        Node.replay (Node.genesis svc setup.serviceConfig) s.ghost.tape = .ok r ∧
          encode (svc.snapshot node.service) ≠ encode (svc.snapshot r.service)) (fun _ => True) sim s := by
  have hlevel := hnode.level
  have hrun := hnode.journal.run
  unfold checkRecovered
  split
  · rename_i hlost
    exact wp_fail (Or.inl hlost)
  · rename_i hdurable
    rw [if_neg (by rw [List.Forall₂.length_eq hshadow]; exact Nat.not_lt_of_le hle)]
    -- the journal is read again
    apply wp_bind
    apply wp_mapErr
    apply wp_mono (wp_openWith_live (E := fun _ _ _ => False) journalConfig hnode.journal)
    · rintro re sim' s' ⟨rfl, hreread⟩
      have hmem : ∀ f ∈ re.frames, f ∈ full := by
        intro f hf
        rw [hreread.frames, htape] at hf
        exact List.mem_of_mem_take (List.mem_of_mem_drop hf)
      have hsurvivors : SeqRun (re.firstSeq + 0) re.frames := by
        have hpos := hreread.first_pos
        have hfirst := hreread.first_le
        have htail := hrun.drop (n := re.firstSeq - 1) (by omega)
        rw [hreread.frames]
        rw [show 1 + (re.firstSeq - 1) = re.firstSeq + 0 by omega] at htail
        exact htail
      have hbelow : ∀ f ∈ re.frames, f.seq ≤ node.seq := by
        intro f hf
        rw [hreread.frames] at hf
        have hbounds := (hrun.bounds (List.mem_of_mem_drop hf)).2
        omega
      apply wp_bind
      apply wp_checkFrames hreread.first_pos hsurvivors hbelow fun f hf => hshadow.at_seq hfull (hmem f hf)
      apply wp_bind
      apply wp_checkAnchor (by rw [journalLast_of_reread hrun hreread, hlevel])
      apply wp_bind
      apply wp_update
      -- the state
      have hpart : Shadows (expected.take node.seq) s.ghost.tape := htape ▸ hshadow.take node.seq
      obtain ⟨r, hreplay, hfresh⟩ := shadowReplay_eq setup fail htimeless (svc.genesis setup.serviceConfig) .new hpart
        hrun (hnode.decodes hcodecs)
      unfold checkState
      rw [hfresh]
      apply wp_bind
      apply wp_pure
      split
      · rename_i hne
        exact wp_fail (Or.inr ⟨r, hreplay, hne⟩)
      · rw [hcheck]
        exact wp_pure ⟨rfl, hnode.reread hreread, by rw [hreread.store]⟩
    · exact fun _ _ _ h => h.elim
    · exact fun _ _ => trivial

/-- Nothing was sequenced since the last sync or the last recovery. -/
def Durable (sim : SimState svc) : Prop := sim.synced = sim.node.seq

theorem wp_recoverAndCheck (sim : SimState svc) {E : Prop} (hcodecs : svc.Codecs) (htimeless : Timeless svc)
    (hcheck : ∀ state, setup.check state = .ok ()) {fail : String → SimFailure} (h : SimInv sim s) {s₁ : JStore}
    (hloss : s.PowerLoss s₁) (hrecovery : ∀ e, Fails Fate.calm (sim.reopen setup config) sim s₁ e → E)
    (hlost : ∀ n s₂, Returns Fate.calm (sim.reopen setup config) sim s₁ n sim s₂ → n.seq < sim.synced → E)
    (hdiverged : ∀ n s₂ r, Returns Fate.calm (sim.reopen setup config) sim s₁ n sim s₂ →
      Node.replay (Node.genesis svc setup.serviceConfig) (s.ghost.tape.take n.seq) = .ok r →
      encode (svc.snapshot n.service) ≠ encode (svc.snapshot r.service) → E) :
    wp Fate.calm (recoverAndCheck setup fail config.nodeConfig) (fun _ sim' s' => SimInv sim' s' ∧ Durable sim')
      (fun _ _ _ => E) (fun _ => True) sim s₁ := by
  obtain ⟨hnloss, htopped⟩ := h.node.loss hloss
  have htape₁ : s₁.ghost.tape = s.ghost.tape := by rw [hloss.2]
  apply wp_bind
  apply wp_mem
  apply wp_bind
  apply wp_mapErr
  apply wp_mono (wp_runs (wp_reopen hcodecs hnloss htopped))
  · rintro n sim₂ s₂ ⟨⟨hsame, hle, htape₂, hnode⟩, hreturns⟩
    obtain rfl : sim = sim₂ := hsame.symm
    apply wp_bind
    apply wp_note
    have hcut : (resume s₂ n.seq).ghost.tape = s.ghost.tape.take n.seq := by
      show s₂.ghost.tape.take n.seq = _
      rw [htape₂, htape₁]
    rw [htape₁] at hle
    have hchecks := wp_checkRecovered sim sim.synced config.nodeConfig.journal fail hcodecs htimeless hcheck hnode
      h.shadow h.node.journal.run hcut hle
    apply wp_seq (wp_mono hchecks (fun _ _ _ h => h) ?_ fun _ h => h)
    · rintro _ sim₃ s₃ ⟨rfl, hnode₃, htape₃⟩
      apply wp_update
      refine ⟨⟨hnode₃, ?_⟩, rfl⟩
      rw [htape₃, hcut]
      exact h.shadow.take n.seq
    · rintro _ _ _ (hlt | ⟨r, hreplay, hne⟩)
      · exact hlost n s₂ hreturns hlt
      · rw [hcut] at hreplay
        exact hdiverged n s₂ r hreturns hreplay hne
  · exact fun e _ _ hfails => hrecovery e hfails.2
  · exact fun _ _ => trivial

/-- **A crash.** -/
theorem wp_crashStep (hcodecs : svc.Codecs) (htimeless : Timeless svc)
    (hcheck : ∀ state, setup.check state = .ok ()) (h : SimInv sim s) :
    wp Fate.calm (crashStep setup config step) (fun _ sim' s' => SimInv sim' s' ∧ Durable sim')
      (fun _ _ _ => Cause setup config (· = sim.synced) sim s) (fun _ => True) sim s := by
  apply wp_bind
  apply wp_update
  apply wp_bind
  apply wp_joint
  have hloss : s.PowerLoss { s with disk := (crashDisk config.tornTails s.disk sim.rng).1 } :=
    ⟨crashDisk_powerLoss _ _ _, rfl⟩
  exact wp_recoverAndCheck
    { sim with
      stats := { sim.stats with crashes := sim.stats.crashes + 1 }
      rng := (crashDisk config.tornTails s.disk sim.rng).2 }
    hcodecs htimeless hcheck ⟨h.node, h.shadow⟩ hloss (fun _ hopen => .recovery hopen)
    (fun _ _ hopen hlt => .lost hopen rfl hlt) fun _ _ _ hopen hreplay hne => .diverged hopen hreplay hne

/-- **A sync.** -/
theorem wp_syncStep (h : SimInv sim s) :
    wp Fate.calm (syncStep setup config step) (fun _ sim' s' => SimInv sim' s' ∧ Durable sim')
      (fun _ _ _ => Cause setup config (· = sim.synced) sim s) (fun _ => True) sim s := by
  apply wp_bind
  apply wp_update
  obtain ⟨tip, hcurrent⟩ := h.node.clocked fun _ => sim.nanos
  have hlen := h.shadow.length_eq
  -- the journal syncs, and the tape stays as it is
  have hsync : wp Fate.calm Node.sync (fun _ n' s' => OnTape n' s' ∧ n'.seq = sim.node.seq ∧
      s'.ghost.tape = s.ghost.tape) (fun _ _ _ => True) (fun _ => True)
      { sim.node with clock := fun _ => sim.nanos } s := by
    refine Node.wp_onJournal (wp_mono (hcurrent.store.sync calm_no_fault) ?_ (fun _ _ _ _ => trivial)
      fun _ _ => trivial)
    rintro _ j s' ⟨hinv, htape⟩
    exact ⟨⟨tip, hinv, by rw [htape]; exact hcurrent.level, trivial⟩, rfl, htape⟩
  apply wp_bind
  apply wp_onNode
  apply wp_mono (wp_runs hsync)
  · rintro _ n s' ⟨⟨hnode, hseq, htape⟩, -⟩
    apply wp_update
    refine ⟨⟨hnode, by rw [htape]; exact h.shadow⟩, ?_⟩
    show sim.expected.length = n.seq
    rw [hlen, hseq, h.node.level]
  · exact fun _ _ _ hfails => .sync hfails.2
  · exact fun _ h => h

/-- What a step of the run keeps, if no timer fired in it. -/
def Keeping (synced : ℕ) (sim' : SimState svc) (s' : JStore) : Prop :=
  Quiet s'.ghost.tape → SimInv sim' s' ∧ (sim'.synced = synced ∨ Durable sim')

/-- **A tick.** -/
theorem wp_tickStep (h : SimInv sim s) :
    wp Fate.calm (tickStep setup config step) (fun _ => Keeping sim.synced)
      (fun _ _ _ => Cause setup config (· = sim.synced) sim s) (fun _ => True) sim s := by
  have hnode := h.node.clocked fun _ => sim.nanos
  apply wp_bind
  apply wp_update
  apply wp_bind
  apply wp_mem
  apply wp_bind
  apply wp_onNode
  apply wp_mono (wp_runs (wp_and (hnode.tick setup.serviceConfig setup.fuel) (Node.wp_tick_tape setup.fuel)))
  · rintro _ n s' ⟨⟨hafter, frame, hkind, hfollows⟩, -⟩
    apply wp_update
    refine fun hquiet => ⟨⟨hafter, ?_⟩, Or.inl rfl⟩
    have hgrown := h.shadow.followed .tick (decide_eq_true hkind) hfollows hquiet
    rw [← h.node.level, ← hafter.level] at hgrown
    exact hgrown
  · exact fun _ _ _ hfails => .tick hfails.2
  · exact fun _ _ => trivial

/-- **An input.** -/
theorem wp_inputStep (hcheck : ∀ state, setup.check state = .ok ()) (h : SimInv sim s) :
    wp Fate.calm (inputStep setup config step) (fun _ => Keeping sim.synced)
      (fun _ _ _ => Cause setup config (· = sim.synced) sim s) (fun _ => True) sim s := by
  have hnode := h.node.clocked fun _ => sim.nanos
  apply wp_bind
  apply wp_update
  apply wp_bind
  apply wp_draw
  apply wp_bind
  apply wp_mem
  apply wp_bind
  apply wp_onNode
  apply wp_mono (wp_runs (wp_and (hnode.submit setup.serviceConfig setup.fuel (setup.genInput sim.rng).1)
    (Node.wp_submit_tape setup.fuel _)))
  · rintro _ n s' ⟨⟨hafter, frame, hkind, hpayload, hfollows⟩, -⟩
    apply wp_bind
    apply wp_update
    apply wp_bind
    apply wp_mem
    rw [hcheck]
    refine wp_pure fun hquiet => ⟨⟨hafter, ?_⟩, Or.inl rfl⟩
    have hgrown := h.shadow.followed (.input (encode (setup.genInput sim.rng).1))
      (decide_eq_true ⟨hkind, hpayload⟩) hfollows hquiet
    rw [← h.node.level, ← hafter.level] at hgrown
    exact hgrown
  · exact fun _ _ _ hfails => .submit hfails.2
  · exact fun _ _ => trivial

/-- The simulator when it makes its next step: time has passed, and the die was thrown. -/
def SimState.advance (sim : SimState svc) : SimState svc :=
  { sim with
    rng := (Rng.below 1000 (Rng.below 1000000000 sim.rng).2).2
    nanos := sim.nanos + UInt64.ofNat (Rng.below 1000000000 sim.rng).1 }

theorem advance_node (sim : SimState svc) : sim.advance.node = sim.node := by rw [SimState.advance]

theorem advance_expected (sim : SimState svc) : sim.advance.expected = sim.expected := by rw [SimState.advance]

theorem advance_synced (sim : SimState svc) : sim.advance.synced = sim.synced := by rw [SimState.advance]

/-- **Step lemma.** -/
theorem wp_simStep (hcodecs : svc.Codecs) (htimeless : Timeless svc)
    (hcheck : ∀ state, setup.check state = .ok ()) (h : SimInv sim s) :
    wp Fate.calm (simStep setup config step) (fun _ => Keeping sim.synced)
      (fun _ _ _ => Cause setup config (· = sim.synced) sim.advance s) (fun _ => True) sim s := by
  have hnow : SimInv sim.advance s := by
    refine ⟨?_, ?_⟩
    · rw [advance_node]
      exact h.node
    · rw [advance_expected]
      exact h.shadow
  rw [← advance_synced]
  apply wp_bind
  apply wp_draw
  apply wp_bind
  apply wp_update
  apply wp_bind
  apply wp_draw
  split
  · exact wp_mono (wp_crashStep hcodecs htimeless hcheck hnow) (fun _ _ _ h => fun _ => ⟨h.1, Or.inr h.2⟩)
      (fun _ _ _ h => h) fun _ h => h
  · apply wp_bind
    apply wp_addDials
    intro syncs
    split
    · exact wp_mono (wp_syncStep hnow) (fun _ _ _ h => fun _ => ⟨h.1, Or.inr h.2⟩) (fun _ _ _ h => h) fun _ h => h
    · apply wp_bind
      apply wp_addDials
      intro ticks
      split
      · exact wp_tickStep hnow
      · exact wp_inputStep hcheck hnow

end Step

/-! ## Runs -/

/-- The run gets to the state `sim` on the disk `w` by its first `k` steps. -/
def Reached (setup : Setup svc) (config : SimConfig) (k : ℕ) (sim : SimState svc) (w : World JStore) : Prop :=
  simLoop setup { config with steps := k } () blankDisk = .ok sim () w

/-- The last step of a schedule that returned. -/
theorem simSteps_ok {n step : ℕ} {sim sim' : SimState svc} {w w' : World JStore}
    (h : simSteps setup config (n + 1) step sim w = .ok () sim' w') :
    ∃ sim₁ w₁, simSteps setup config n step sim w = .ok () sim₁ w₁ ∧
      simStep setup config (step + n) sim₁ w₁ = .ok () sim' w' := by
  induction n generalizing step sim w with
  | zero =>
    obtain ⟨u, sim₁, w₁, hstep, hrest⟩ := Prog.bind_ok h
    cases hrest
    exact ⟨sim, w, rfl, hstep⟩
  | succ n ih =>
    obtain ⟨u, sim₁, w₁, hstep, hrest⟩ := Prog.bind_ok h
    obtain ⟨sim₂, w₂, hsteps, hlast⟩ := ih hrest
    refine ⟨sim₂, w₂, ?_, ?_⟩
    · rw [simSteps, Prog.bind_of_ok hstep]
      exact hsteps
    · rw [show step + (n + 1) = step + 1 + n by omega]
      exact hlast

/-- The step that a schedule failed at. -/
theorem simSteps_failed {n step : ℕ} {sim sim' : SimState svc} {w w' : World JStore} {failure : SimFailure}
    (h : simSteps setup config n step sim w = .err failure sim' w') :
    ∃ k < n, ∃ sim₁ w₁, simSteps setup config k step sim w = .ok () sim₁ w₁ ∧
      simStep setup config (step + k) sim₁ w₁ = .err failure sim' w' := by
  induction n generalizing step sim w with
  | zero => cases h
  | succ n ih =>
    rcases Prog.bind_err h with hstep | ⟨u, sim₁, w₁, hstep, hrest⟩
    · exact ⟨0, Nat.succ_pos n, sim, w, rfl, hstep⟩
    · obtain ⟨k, hk, sim₂, w₂, hsteps, hlast⟩ := ih hrest
      refine ⟨k + 1, Nat.succ_lt_succ hk, sim₂, w₂, ?_, ?_⟩
      · rw [simSteps, Prog.bind_of_ok hstep]
        exact hsteps
      · rw [show step + (k + 1) = step + 1 + k by omega]
        exact hlast

section Run

variable {k : ℕ} {sim : SimState svc} {w : World JStore}

/-- The node that was opened at the start, and the steps since. -/
theorem reached_iff : Reached setup config k sim w ↔ ∃ node w₀,
    initialOpen setup config () blankDisk = .ok node () w₀ ∧
      simSteps setup config k 0 (.start config node) w₀ = .ok () sim w := by
  unfold Reached simLoop
  rw [initialOpen_steps]
  constructor
  · intro h
    obtain ⟨node, u, w₀, hopen, hrest⟩ := Prog.bind_ok h
    obtain ⟨hsteps, -⟩ := Prog.owning_ok hrest
    rw [start_steps, simSteps_steps] at hsteps
    exact ⟨node, w₀, hopen, hsteps⟩
  · rintro ⟨node, w₀, hopen, hsteps⟩
    rw [Prog.bind_of_ok hopen, start_steps, simSteps_steps, Prog.owning, hsteps]

theorem Reached.before (h : Reached setup config (k + 1) sim w) :
    ∃ sim₁ w₁, Reached setup config k sim₁ w₁ ∧ simStep setup config k sim₁ w₁ = .ok () sim w := by
  obtain ⟨node, w₀, hopen, hsteps⟩ := reached_iff.mp h
  obtain ⟨sim₁, w₁, hbefore, hlast⟩ := simSteps_ok hsteps
  rw [Nat.zero_add] at hlast
  exact ⟨sim₁, w₁, reached_iff.mpr ⟨node, w₀, hopen, hbefore⟩, hlast⟩

/-- **No timer fires** in the run: none of the states that it gets to has a frame of a fired timer in its history. -/
def NoTimerFires (setup : Setup svc) (config : SimConfig) : Prop :=
  ∀ k ≤ config.steps, ∀ sim w, Reached setup config k sim w → Quiet w.st.ghost.tape

/-- At one of the first `k` steps the frames up to `seq` were everything there was, and were synced or had
survived. -/
def SyncedBy (setup : Setup svc) (config : SimConfig) (k seq : ℕ) : Prop :=
  ∃ j ≤ k, ∃ sim w, Reached setup config j sim w ∧ Durable sim ∧ sim.node.seq = seq

theorem wp_initialOpen (hcodecs : svc.Codecs) :
    wp Fate.calm (initialOpen setup config) (fun node _ s' => OnTape node s' ∧ s'.ghost.tape = [])
      (fun _ _ _ => ∃ e, Fails Fate.calm (Node.openWith config.nodeConfig setup.serviceConfig fun _ => 1000000000) ()
        blankDisk.st e) (fun _ => True) () blankDisk.st := by
  have htopped : Topped (blankDisk.st.ghost.tape.length) blankDisk.st := by
    intro p f hget
    rw [show blankDisk.st.disk = Disk.empty from rfl, Disk.get_empty] at hget
    cases hget
  apply wp_bind
  apply wp_mapErr
  apply wp_mono (wp_runs (wp_reopen hcodecs nloss_fresh htopped))
  · rintro node _ s' ⟨⟨-, -, htape, hnode⟩, -⟩
    apply wp_bind
    apply wp_note
    refine wp_pure ⟨hnode, ?_⟩
    show s'.ghost.tape.take node.seq = []
    rw [htape]
    exact List.take_nil
  · exact fun e _ _ hfails => ⟨e, hfails.2⟩
  · exact fun _ _ => trivial

theorem blankDisk_calm : blankDisk.Calm := fun _ hf => by cases hf

/-- A step of a run is one in a calm world. -/
theorem wp_calm {μ ε α : Type} {p : Prog μ JStore ε α} {Q : α → μ → JStore → Prop} {E : ε → μ → JStore → Prop}
    {C : JStore → Prop} {m m' : μ} {w w' : World JStore} {a : α} (h : wp Fate.calm p Q E C m w.st) (hw : w.Calm)
    (hrun : p m w = .ok a m' w') : w'.Calm ∧ Q a m' w'.st := by
  have hsat := h w rfl hw
  rw [hrun] at hsat
  exact hsat

/-- **Run lemma**: without timer firings the shadow agrees with the history in every state that the run gets to, and
what it takes to be durable was synced. -/
theorem reached_inv (hcodecs : svc.Codecs) (htimeless : Timeless svc)
    (hcheck : ∀ state, setup.check state = .ok ()) (hquiet : NoTimerFires setup config) (hk : k ≤ config.steps)
    (h : Reached setup config k sim w) : w.Calm ∧ SimInv sim w.st ∧ SyncedBy setup config k sim.synced := by
  induction k generalizing sim w with
  | zero =>
    obtain ⟨node, w₀, hopen, hsteps⟩ := reached_iff.mp h
    obtain ⟨hcalm, hnode, htape⟩ := wp_calm (wp_initialOpen hcodecs) blankDisk_calm hopen
    cases hsteps
    have hseq : (0 : ℕ) = node.seq := by
      rw [hnode.level, htape]
      rfl
    refine ⟨hcalm, ⟨hnode, ?_⟩, 0, Nat.le_refl 0, _, _, h, hseq, hseq.symm⟩
    rw [htape]
    exact .nil
  | succ k ih =>
    obtain ⟨sim₁, w₁, hbefore, hstep⟩ := h.before
    obtain ⟨hcalm₁, hinv₁, j, hj, hsynced⟩ := ih (by omega) hbefore
    obtain ⟨hcalm, hkeeping⟩ := wp_calm (wp_simStep hcodecs htimeless hcheck hinv₁) hcalm₁ hstep
    obtain ⟨hinv, hsame | hdurable⟩ := hkeeping (hquiet (k + 1) hk sim w h)
    · rw [hsame]
      exact ⟨hcalm, hinv, j, by omega, hsynced⟩
    · exact ⟨hcalm, hinv, k + 1, Nat.le_refl _, sim, w, h, hdurable, hdurable.symm⟩

end Run

/-! ## False alarms -/

/-- A run that fails does so when the node is opened for the first time, at a step, or at its final crash. -/
theorem simulate_failed {failure : SimFailure} (h : simulate setup config = some (.error failure)) :
    (∃ w', initialOpen setup config () blankDisk = .err failure () w') ∨
      (∃ k < config.steps, ∃ sim w sim' w', Reached setup config k sim w ∧
        simStep setup config k sim w = .err failure sim' w') ∨
      ∃ sim w sim' w', Reached setup config config.steps sim w ∧
        crashStep setup config (config.steps - 1) sim w = .err failure sim' w' := by
  obtain ⟨w', hrun⟩ := simulate_eq_error.mp h
  rcases Prog.bind_err hrun with hloop | ⟨sim, u, w₁, hloop, hrest⟩
  · rcases Prog.bind_err hloop with hopen | ⟨node, u, w₀, hopen, hsteps⟩
    · exact Or.inl ⟨w', hopen⟩
    · obtain ⟨sim', hsteps⟩ := Prog.owning_err hsteps
      obtain ⟨k, hk, sim, w, hbefore, hstep⟩ := simSteps_failed hsteps
      rw [Nat.zero_add] at hstep
      exact Or.inr (Or.inl ⟨k, hk, sim, w, sim', w', reached_iff.mpr ⟨node, w₀, hopen, hbefore⟩, hstep⟩)
  · rcases Prog.bind_err hrest with hcrash | ⟨sim', u', w₂, -, hpure⟩
    · obtain ⟨sim', hcrash⟩ := Prog.owning_err hcrash
      exact Or.inr (Or.inr ⟨sim, w₁, sim', w', hloop, hcrash⟩)
    · cases hpure

/-- The run makes its next operation from the state `sim` on the disk `w`, and `k` steps are behind it: another step,
or the crash that ends it. -/
def Operates (setup : Setup svc) (config : SimConfig) (k : ℕ) (sim : SimState svc) (w : World JStore) : Prop :=
  (k < config.steps ∧ ∃ before, Reached setup config k before w ∧ sim = before.advance) ∨
    (k = config.steps ∧ Reached setup config k sim w)

/-- **The simulator raises no false alarms** in runs in which no timer fires. For every service whose steps do not
read the time, and a check that always passes: a run fails only if the node could not be opened at the start, or at
an operation that fails, or at a power loss after which the recovery fails, or comes back short of frames that were
synced before, or to a state that replaying what is left of the history does not give. A frame that is read again
never differs from the one that was sequenced. -/
theorem alarms_are_genuine (hcodecs : svc.Codecs) (htimeless : Timeless svc)
    (hcheck : ∀ state, setup.check state = .ok ()) (hquiet : NoTimerFires setup config) {failure : SimFailure}
    (hfails : simulate setup config = some (.error failure)) :
    (∃ e, Fails Fate.calm (Node.openWith config.nodeConfig setup.serviceConfig fun _ => 1000000000) () blankDisk.st
      e) ∨
    ∃ k sim w, Operates setup config k sim w ∧ Cause setup config (SyncedBy setup config k) sim w.st := by
  rcases simulate_failed hfails with ⟨w', hopen⟩ | ⟨k, hk, sim, w, sim', w', hreached, hstep⟩ |
    ⟨sim, w, sim', w', hreached, hcrash⟩
  · exact Or.inl (wp_err (wp_initialOpen hcodecs) blankDisk_calm hopen)
  · obtain ⟨hcalm, hinv, hsynced⟩ := reached_inv hcodecs htimeless hcheck hquiet hk.le hreached
    have hcause := wp_err (wp_simStep hcodecs htimeless hcheck hinv) hcalm hstep
    exact Or.inr ⟨k, sim.advance, w, Or.inl ⟨hk, sim, hreached, rfl⟩, hcause.mono fun _ heq => heq ▸ hsynced⟩
  · obtain ⟨hcalm, hinv, hsynced⟩ := reached_inv hcodecs htimeless hcheck hquiet (Nat.le_refl _) hreached
    have hcause := wp_err (wp_crashStep hcodecs htimeless hcheck hinv) hcalm hcrash
    exact Or.inr ⟨config.steps, sim, w, Or.inr ⟨rfl, hreached⟩, hcause.mono fun _ heq => heq ▸ hsynced⟩

/-! ## Runs of a tally -/

/-- A service that adds up its inputs. Every input makes the timer requests `requests`, a timer doubles the total, and
`restored` is what restoring makes of a snapshot. -/
def tally (requests : List TimerReq) (restored : UInt64 → UInt64) : Service where
  State := UInt64
  Input := UInt64
  Output := UInt64
  Snapshot := UInt64
  Config := Unit
  SCHEMA_VERSION := 1
  genesis _ := 0
  apply total _ input _ := ⟨total + input, [total + input], requests⟩
  onTimer total _ _ := ⟨2 * total, [2 * total], []⟩
  snapshot total := total
  restore snapshot _ := restored snapshot

section Tally

variable {requests : List TimerReq} {restored : UInt64 → UInt64}

theorem tally_codecs : (tally requests restored).Codecs :=
  ⟨inferInstanceAs (LawfulCodec UInt64), inferInstanceAs (LawfulCodec UInt64)⟩

theorem tally_timeless : Timeless (tally requests restored) := ⟨fun _ _ _ _ _ _ => rfl, fun _ _ _ _ _ => rfl⟩

/-- It is lawful if restoring is exact. -/
theorem tally_lawful : (tally requests id).Lawful () Eq where
  toCodecs := tally_codecs
  symm := Eq.symm
  trans := Eq.trans
  genesis := rfl
  bisim := ⟨fun h _ _ _ => h ▸ ⟨rfl, rfl, rfl⟩, fun h _ _ => h ▸ ⟨rfl, rfl, rfl⟩, fun h => h ▸ rfl⟩
  restore := fun _ => rfl

end Tally

/-- A tally under random inputs and a check that always passes. -/
def tallySetup (requests : List TimerReq) (restored : UInt64 → UInt64) : Setup (tally requests restored) where
  serviceConfig := ()
  genInput rng := (UInt64.ofNat (rng.below 100).1, (rng.below 100).2)
  check _ := .ok ()
  texts := ⟨fun _ => "", fun _ => "", fun _ => ""⟩
  fuel := 10

/-- One input, with a snapshot behind it. -/
def oneInput : SimConfig := ⟨0, 1, 0, 0, 0, 512, false, some 1⟩

/-- A tally that restores nothing. -/
abbrev forgetful : Setup (tally [] fun _ => 0) := tallySetup [] fun _ => 0

theorem forgetful_quiet : NoTimerFires forgetful oneInput := by
  have hrun : ∀ k ≤ 1, (simLoop forgetful { oneInput with steps := k } () blankDisk).returned.all (fun p =>
      p.2.2.st.ghost.tape.all fun f => f.kind ≠ .timerFired) = true := by decide +kernel
  intro k hk sim w hreached f hf
  have hall := hrun k hk
  rw [Outcome.returned_eq_some.mpr hreached] at hall
  exact of_decide_eq_true (List.all_eq_true.mp hall f hf)

/-- An alarm with a cause. -/
theorem alarms_are_genuine_of_forgetful : ∃ failure, simulate forgetful oneInput = some (.error failure) ∧
    ((∃ e, Fails Fate.calm (Node.openWith oneInput.nodeConfig forgetful.serviceConfig fun _ => 1000000000) ()
      blankDisk.st e) ∨
    ∃ k sim w, Operates forgetful oneInput k sim w ∧
      Cause forgetful oneInput (SyncedBy forgetful oneInput k) sim w.st) := by
  have hrun : (failureOf (simulate forgetful oneInput)).isSome = true := by decide +kernel
  obtain ⟨failure, hfailure⟩ := Option.isSome_iff_exists.mp hrun
  have hfails := failureOf_eq_some.mp hfailure
  exact ⟨failure, hfails, alarms_are_genuine tally_codecs tally_timeless (fun _ => rfl) forgetful_quiet hfails⟩

/-- A tally whose inputs arm a timer that is due at once. -/
abbrev bell : Setup (tally [.set 1 0] id) := tallySetup [.set 1 0] id

/-- **A false alarm.** An input arms a timer, which fires, and everything is synced. The final crash loses nothing: the
recovery succeeds, the journal that is read again holds every frame as it was sequenced, and the recovered state is the
one that replaying them gives. The simulator reports a violation. -/
theorem timers_raise_false_alarms : (tally [.set 1 0] id).Lawful () Eq ∧ Timeless (tally [.set 1 0] id) ∧
    (∀ state, bell.check state = .ok ()) ∧ ∃ failure sim w n u w' re w'' r,
      simulate bell (twoSteps 3) = some (.error failure) ∧
      simLoop bell (twoSteps 3) () blankDisk = .ok sim () w ∧
      sim.reopen bell (twoSteps 3) sim { w with st := sim.crashed (twoSteps 3) w.st } = .ok n u w' ∧
      n.seq = w.st.ghost.tape.length ∧ sim.synced ≤ n.seq ∧
      (Journal.openWith (twoSteps 3).nodeConfig.journal : Prog Unit JStore JournalError Recovered) () w' =
        .ok re () w'' ∧ re.frames = w.st.ghost.tape ∧
      Node.replay (Node.genesis (tally [.set 1 0] id) ()) w.st.ghost.tape = .ok r ∧
      encode ((tally [.set 1 0] id).snapshot n.service) = encode ((tally [.set 1 0] id).snapshot r.service) := by
  have hfailed : (failureOf (simulate bell (twoSteps 3))).isSome = true := by decide +kernel
  have hrun : (simLoop bell (twoSteps 3) () blankDisk).returned.any (fun p =>
      (p.1.reopen bell (twoSteps 3) p.1 { p.2.2 with st := p.1.crashed (twoSteps 3) p.2.2.st }).returned.any fun q =>
        q.1.seq = p.2.2.st.ghost.tape.length ∧ p.1.synced ≤ q.1.seq ∧
        ((Journal.openWith (twoSteps 3).nodeConfig.journal : Prog Unit JStore JournalError Recovered) ()
          q.2.2).returned.any (fun re => re.1.frames = p.2.2.st.ghost.tape) = true ∧
        (Node.replay (Node.genesis (tally [.set 1 0] id) ()) p.2.2.st.ghost.tape).toOption.any (fun r =>
          encode ((tally [.set 1 0] id).snapshot q.1.service) =
            encode ((tally [.set 1 0] id).snapshot r.service)) = true) = true := by decide +kernel
  obtain ⟨failure, hfailure⟩ := Option.isSome_iff_exists.mp hfailed
  obtain ⟨⟨sim, ⟨⟩, w⟩, hloop, hcrash⟩ := (Option.any_eq_true _ _).mp hrun
  obtain ⟨⟨n, u, w'⟩, hreopen, hafter⟩ := (Option.any_eq_true _ _).mp hcrash
  obtain ⟨hseq, hsynced, hreread, hreplayed⟩ := of_decide_eq_true hafter
  obtain ⟨⟨re, ⟨⟩, w''⟩, hopen, hframes⟩ := (Option.any_eq_true _ _).mp hreread
  obtain ⟨r, hreplay, hstate⟩ := (Option.any_eq_true _ _).mp hreplayed
  refine ⟨tally_lawful, tally_timeless, fun _ => rfl, failure, sim, w, n, u, w', re, w'', r,
    failureOf_eq_some.mp hfailure, Outcome.returned_eq_some.mp hloop, Outcome.returned_eq_some.mp hreopen, hseq,
    hsynced, Outcome.returned_eq_some.mp hopen, of_decide_eq_true hframes, ?_, of_decide_eq_true hstate⟩
  cases hresult : Node.replay (Node.genesis (tally [.set 1 0] id) ()) w.st.ghost.tape with
  | error e =>
    rw [hresult] at hreplay
    cases hreplay
  | ok r' =>
    rw [hresult] at hreplay
    cases hreplay
    rfl

end Ticktape.Sim
