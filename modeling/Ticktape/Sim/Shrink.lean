import Ticktape.Sim.Simulate

/-!
# Shrinking

Cutting a schedule at the failing step reproduces the failure. No draw, clock reading or storage decision of a
step looks at the length of the schedule, so two runs that differ only in it agree on every step they share; and
the crash at the end of a run counts as its last step, so that a failure found there is found by the same run
again.
-/

namespace Ticktape.Sim

open Ticktape.Lib Ticktape.Core Ticktape.Journal Ticktape.Runtime

variable {svc : Service} {setup : Setup svc} {config : SimConfig}

/-! ## Failures carry their step -/

/-- `p` fails with failures in `P` only. -/
def FailsIn {μ α : Type} (P : SimFailure → Prop) (p : Prog μ JStore SimFailure α) : Prop :=
  ∀ m s, wp (fun _ => True) p (fun _ _ _ => True) (fun failure _ _ => P failure) (fun _ => True) m s

section FailsIn

variable {μ α β : Type} {P : SimFailure → Prop} {fail : String → SimFailure}

theorem FailsIn.bind {p : Prog μ JStore SimFailure α} {f : α → Prog μ JStore SimFailure β} (hp : FailsIn P p)
    (hf : ∀ a, FailsIn P (f a)) : FailsIn P (p >>= f) := fun m s => wp_seq (hp m s) fun a m' s' _ => hf a m' s'

theorem failsIn_pure (a : α) : FailsIn P (pure a : Prog μ JStore SimFailure α) := fun _ _ => wp_pure trivial

theorem failsIn_mem : FailsIn P (Prog.mem : Prog μ JStore SimFailure μ) := fun _ _ => wp_mem trivial

theorem failsIn_update (f : μ → μ) : FailsIn P (Prog.update f : Prog μ JStore SimFailure Unit) := fun _ _ =>
  wp_update trivial

theorem failsIn_note (f : JStore → JStore) : FailsIn P (Prog.note f : Prog μ JStore SimFailure Unit) :=
  fun _ _ => wp_note trivial

theorem failsIn_panic : FailsIn P (Prog.panic : Prog μ JStore SimFailure α) := fun _ _ => wp_panic trivial

theorem failsIn_fail {failure : SimFailure} (h : P failure) :
    FailsIn P (Prog.fail failure : Prog μ JStore SimFailure α) := fun _ _ => wp_fail h

theorem failsIn_draw (f : Rng → α × Rng) : FailsIn P (draw f : SProg svc α) :=
  failsIn_mem.bind fun _ => (failsIn_update _).bind fun _ => failsIn_pure _

theorem failsIn_addDials {a b : ℕ} : FailsIn P (addDials a b : SProg svc ℕ) := by
  unfold addDials
  split
  · exact failsIn_pure _
  · exact failsIn_panic

theorem failsIn_addSeqs {a b : ℕ} : FailsIn P (addSeqs a b : SProg svc ℕ) := by
  unfold addSeqs
  split
  · exact failsIn_pure _
  · exact failsIn_panic

/-- The error of an operation below, reported as a violation. -/
theorem failsIn_mapErr {ε : Type} {p : Prog μ JStore ε α} {failed : ε → SimFailure} (h : ∀ e, P (failed e)) :
    FailsIn P (Prog.mapErr failed p) := fun _ _ =>
  wp_mapErr (wp_mono (wp_trivial fun _ => trivial) (fun _ _ _ h => h) (fun _ _ _ _ => h _) fun _ h => h)

theorem failsIn_onNode {p : NProg svc α} {failed : NodeError → SimFailure} (h : ∀ e, P (failed e)) :
    FailsIn P (onNode failed p) := by
  apply (failsIn_update _).bind
  intro _ m s
  exact wp_zoom (failsIn_mapErr h _ s)

variable (hfail : ∀ what, P (fail what))
include hfail

theorem failsIn_checkFrames (expected : List Expected) (recovered first i : ℕ) (frames : List Frame) :
    FailsIn P (checkFrames fail expected recovered first i frames : SProg svc Unit) := by
  induction frames generalizing i with
  | nil => exact failsIn_pure _
  | cons frame rest ih =>
    unfold checkFrames
    apply failsIn_addSeqs.bind
    intro seq
    split
    · exact failsIn_fail (hfail _)
    · split
      · exact failsIn_fail (hfail _)
      · split
        · exact failsIn_panic
        · split
          · exact failsIn_panic
          · split
            · exact failsIn_fail (hfail _)
            · exact ih (i + 1)

theorem failsIn_checkAnchor (recovered last : ℕ) (anchor : Option ℕ) :
    FailsIn P (checkAnchor fail recovered last anchor : SProg svc Unit) := by
  unfold checkAnchor
  split
  · exact failsIn_pure _
  · split
    · exact failsIn_pure _
    · exact failsIn_fail (hfail _)

theorem failsIn_shadowReplay (i : ℕ) (fresh : svc.State) (expected : List Expected) :
    FailsIn P (shadowReplay setup fail i fresh expected) := by
  induction expected generalizing i fresh with
  | nil => exact failsIn_pure _
  | cons exp rest ih =>
    cases exp with
    | input bytes =>
      unfold shadowReplay
      split
      · exact failsIn_fail (hfail _)
      · exact ih _ _
    | tick | mark => exact ih _ _

theorem failsIn_checkState (expected : List Expected) (node : Node svc) :
    FailsIn P (checkState setup fail expected node) := by
  apply (failsIn_shadowReplay hfail _ _ _).bind
  intro fresh
  split
  · exact failsIn_fail (hfail _)
  · split
    · exact failsIn_fail (hfail _)
    · exact failsIn_pure _

theorem failsIn_checkRecovered (journalConfig : JournalConfig) (synced : ℕ) (expected : List Expected)
    (node : Node svc) : FailsIn P (checkRecovered setup fail journalConfig synced expected node) := by
  unfold checkRecovered
  split
  · exact failsIn_fail (hfail _)
  · split
    · exact failsIn_fail (hfail _)
    · apply (failsIn_mapErr fun _ => hfail _).bind
      intro re
      apply (failsIn_checkFrames hfail _ _ _ _ _).bind
      intro _
      apply (failsIn_checkAnchor hfail _ _ _).bind
      intro _
      apply (failsIn_update _).bind
      intro _
      exact failsIn_checkState hfail _ _

theorem failsIn_recoverAndCheck (nodeConfig : NodeConfig) :
    FailsIn P (recoverAndCheck setup fail nodeConfig) := by
  apply failsIn_mem.bind
  intro sim
  apply (failsIn_mapErr fun _ => hfail _).bind
  intro node
  apply (failsIn_note _).bind
  intro _
  apply (failsIn_checkRecovered hfail _ _ _ _).bind
  intro _
  exact failsIn_update _

end FailsIn

/-- A failure of this run at this step. -/
def At (config : SimConfig) (step : ℕ) (failure : SimFailure) : Prop :=
  failure.seed = config.seed ∧ failure.step = step

section Step

variable {step : ℕ}

theorem at_fail (what : String) : At config step (config.fail step what) := ⟨rfl, rfl⟩

theorem failsIn_crashStep : FailsIn (At config step) (crashStep setup config step) := by
  apply (failsIn_update _).bind
  intro _
  apply FailsIn.bind fun _ _ => wp_joint trivial
  intro _
  exact failsIn_recoverAndCheck at_fail _

theorem failsIn_inputStep : FailsIn (At config step) (inputStep setup config step) := by
  apply (failsIn_update _).bind
  intro _
  apply (failsIn_draw _).bind
  intro input
  apply failsIn_mem.bind
  intro sim
  apply (failsIn_onNode fun _ => at_fail _).bind
  intro _
  apply (failsIn_update _).bind
  intro _
  apply failsIn_mem.bind
  intro sim'
  split
  · exact failsIn_fail (at_fail _)
  · exact failsIn_pure _

/-- **Step lemma**: what a step fails with names the step. -/
theorem failsIn_simStep : FailsIn (At config step) (simStep setup config step) := by
  apply (failsIn_draw _).bind
  intro nanos
  apply (failsIn_update _).bind
  intro _
  apply (failsIn_draw _).bind
  intro dice
  split
  · exact failsIn_crashStep
  · apply failsIn_addDials.bind
    intro syncs
    split
    · apply (failsIn_update _).bind
      intro _
      apply (failsIn_onNode fun _ => at_fail _).bind
      intro _
      exact failsIn_update _
    · apply failsIn_addDials.bind
      intro ticks
      split
      · apply (failsIn_update _).bind
        intro _
        apply failsIn_mem.bind
        intro sim
        apply (failsIn_onNode fun _ => at_fail _).bind
        intro _
        exact failsIn_update _
      · exact failsIn_inputStep

end Step

/-- What a run that failed failed with. -/
theorem FailsIn.err {μ α : Type} {P : SimFailure → Prop} {p : Prog μ JStore SimFailure α} (h : FailsIn P p)
    {m m' : μ} {w w' : World JStore} {failure : SimFailure} (hrun : p m w = .err failure m' w') : P failure :=
  wp_err (h m w.st) (fun _ _ => trivial) hrun

/-! ## Runs that share their steps -/

/-- The length of the schedule is not looked at during a step. -/
theorem simStep_steps (k step : ℕ) :
    simStep setup { config with steps := k } step = simStep setup config step := rfl

theorem simSteps_steps (k n step : ℕ) :
    simSteps setup { config with steps := k } n step = simSteps setup config n step := by
  induction n generalizing step with
  | zero => rfl
  | succ n ih => rw [simSteps, simSteps, ih, simStep_steps]

/-- **Prefix lemma**: a schedule that fails does so at one of its steps, and so does every schedule that gets to
that step. -/
theorem simSteps_err {n step : ℕ} {sim sim' : SimState svc} {w w' : World JStore} {failure : SimFailure}
    (h : simSteps setup config n step sim w = .err failure sim' w') :
    failure.seed = config.seed ∧ step ≤ failure.step ∧ failure.step < step + n ∧
      ∀ n', failure.step < step + n' → simSteps setup config n' step sim w = .err failure sim' w' := by
  induction n generalizing step sim w with
  | zero => cases h
  | succ n ih =>
    rw [simSteps] at h
    rcases Prog.bind_err h with hstep | ⟨u, sim₁, w₁, hstep, hrest⟩
    · obtain ⟨hseed, hat⟩ := failsIn_simStep.err hstep
      refine ⟨hseed, hat.ge, by omega, fun n' hn' => ?_⟩
      cases n' with
      | zero => omega
      | succ n' =>
        rw [simSteps]
        exact Prog.bind_of_err hstep
    · obtain ⟨hseed, hle, hlt, hshared⟩ := ih hrest
      refine ⟨hseed, by omega, by omega, fun n' hn' => ?_⟩
      cases n' with
      | zero => omega
      | succ n' =>
        rw [simSteps, Prog.bind_of_ok hstep]
        exact hshared n' (by omega)

theorem initialOpen_steps (k : ℕ) : initialOpen setup { config with steps := k } = initialOpen setup config := rfl

theorem start_steps (k : ℕ) (node : Node svc) :
    SimState.start { config with steps := k } node = SimState.start config node := rfl

theorem failsIn_initialOpen : FailsIn (At config 0) (initialOpen setup config) := by
  apply (failsIn_mapErr fun _ => at_fail _).bind
  intro node
  apply (failsIn_note _).bind
  intro _
  exact failsIn_pure _

/-- A failure inside the loop is found by every schedule that gets to its step. -/
theorem simLoop_err {w' : World JStore} {failure : SimFailure}
    (h : simLoop setup config () blankDisk = .err failure () w') :
    failure.seed = config.seed ∧ ∀ n, failure.step < n →
      simLoop setup { config with steps := n } () blankDisk = .err failure () w' := by
  unfold simLoop at h ⊢
  rcases Prog.bind_err h with hopen | ⟨node, u, w₁, hopen, hrest⟩
  · -- the node does not open, whatever the schedule
    refine ⟨(failsIn_initialOpen.err hopen).1, fun n _ => ?_⟩
    rw [initialOpen_steps]
    exact Prog.bind_of_err hopen
  · obtain ⟨sim', hsteps⟩ := Prog.owning_err hrest
    obtain ⟨hseed, -, -, hshared⟩ := simSteps_err hsteps
    refine ⟨hseed, fun n hn => ?_⟩
    rw [initialOpen_steps, Prog.bind_of_ok hopen, start_steps, simSteps_steps, Prog.owning,
      hshared n (by omega)]

/-! ## The reproduction -/

/-- The loop of a run fails, and its final crash is not reached. -/
def FailsInLoop (setup : Setup svc) (config : SimConfig) (failure : SimFailure) : Prop :=
  ∃ w', simLoop setup config () blankDisk = .err failure () w'

theorem simulate_eq_error {failure : SimFailure} :
    simulate setup config = some (.error failure) ↔ ∃ w', simRun setup config () blankDisk = .err failure () w' := by
  unfold simulate
  cases simRun setup config () blankDisk <;> simp

/-- A run fails inside its loop, or at the crash behind its last step. -/
theorem simRun_err {w' : World JStore} {failure : SimFailure}
    (h : simRun setup config () blankDisk = .err failure () w') :
    FailsInLoop setup config failure ∨ failure.seed = config.seed ∧ failure.step = config.steps - 1 := by
  rcases Prog.bind_err h with hloop | ⟨sim, u, w₁, hloop, hrest⟩
  · exact Or.inl ⟨w', hloop⟩
  · rcases Prog.bind_err hrest with hcrash | ⟨sim', u', w₂, -, hpure⟩
    · obtain ⟨sim', hcrash⟩ := Prog.owning_err hcrash
      exact Or.inr (failsIn_crashStep.err hcrash)
    · cases hpure

/-- A failure inside the loop shows up in every schedule that gets to its step. -/
theorem FailsInLoop.simulate {failure : SimFailure} (h : FailsInLoop setup config failure) {n : ℕ}
    (hn : failure.step < n) : simulate setup { config with steps := n } = some (.error failure) := by
  obtain ⟨w', hloop⟩ := h
  exact simulate_eq_error.mpr ⟨w', Prog.bind_of_err ((simLoop_err hloop).2 n hn)⟩

/-- The schedule cut behind the failing step. -/
theorem simulate_shrunk {failure : SimFailure} (hsteps : 1 ≤ config.steps)
    (h : simulate setup config = some (.error failure)) : failure.seed = config.seed ∧
      simulate setup { config with steps := failure.step + 1 } = some (.error failure) := by
  obtain ⟨w', hrun⟩ := simulate_eq_error.mp h
  rcases simRun_err hrun with hloop | ⟨hseed, hlast⟩
  · obtain ⟨w'', hfails⟩ := hloop
    exact ⟨(simLoop_err hfails).1, FailsInLoop.simulate ⟨w'', hfails⟩ (Nat.lt_succ_self _)⟩
  · -- the final crash: this is the same schedule
    have hsame : failure.step + 1 = config.steps := by omega
    exact ⟨hseed, by rw [hsame]; exact h⟩

/-- A reproduction confirms what it reproduces. -/
theorem failsWith_self (failure : SimFailure) : failsWith failure.violation (.error failure) = true :=
  decide_eq_true rfl

/-- If failures are reproduced by the schedule cut behind them, that is what the loop reports. -/
theorem shrinkFirst_error {run : SimConfig → Option (Except SimFailure SimStats)} {base : SimConfig}
    (hshrunk : ∀ seed failure, run { base with seed := seed } = some (.error failure) → failure.seed = seed ∧
      run { base with seed := seed, steps := failure.step + 1 } = some (.error failure))
    {seeds : List UInt64} {totals : SimStats} {shrunk : ShrunkFailure}
    (h : shrinkFirst run base seeds totals = some (.error shrunk)) :
    shrunk.minSteps = shrunk.failure.step + 1 ∧
      run { base with seed := shrunk.failure.seed, steps := shrunk.minSteps } = some (.error shrunk.failure) := by
  induction seeds generalizing totals with
  | nil => cases h
  | cons seed seeds ih =>
    rw [shrinkFirst] at h
    cases hfirst : run { base with seed := seed } with
    | none =>
      rw [hfirst] at h
      cases h
    | some result =>
      rw [hfirst] at h
      cases result with
      | ok stats => exact ih h
      | error failure =>
        obtain ⟨rfl, hagain⟩ := hshrunk seed failure hfirst
        simp only [hagain, failsWith_self, if_true] at h
        cases h
        exact ⟨rfl, hagain⟩

/-- **A shrunk failure always reproduces.** A run that fails at some step fails with the same violation when its
schedule is cut behind that step, and, if it failed before its final crash, under every schedule that gets there.
So whatever `vopr` reports, its seed and its number of steps lead to the same failure, and that number is the
failing step and one. -/
theorem shrunk_failure_reproduces (setup : Setup svc) :
    (∀ (config : SimConfig) (failure : SimFailure), 1 ≤ config.steps →
      simulate setup config = some (.error failure) →
      simulate setup { config with steps := failure.step + 1 } = some (.error failure) ∧
        (FailsInLoop setup config failure → ∀ n, failure.step < n →
          simulate setup { config with steps := n } = some (.error failure))) ∧
    ∀ (base : SimConfig) (seeds : List UInt64) (shrunk : ShrunkFailure), 1 ≤ base.steps →
      vopr setup base seeds = some (.error shrunk) →
      shrunk.minSteps = shrunk.failure.step + 1 ∧
        simulate setup { base with seed := shrunk.failure.seed, steps := shrunk.minSteps } =
          some (.error shrunk.failure) := by
  constructor
  · intro config failure hsteps hfails
    exact ⟨(simulate_shrunk hsteps hfails).2, fun hloop n hn => hloop.simulate hn⟩
  · intro base seeds shrunk hsteps hreport
    have hshrunk : ∀ seed failure, simulate setup { base with seed := seed } = some (.error failure) →
        failure.seed = seed ∧ simulate setup { base with seed := seed, steps := failure.step + 1 } =
          some (.error failure) := by
      intro seed failure hfails
      have hone : 1 ≤ ({ base with seed := seed } : SimConfig).steps := hsteps
      exact simulate_shrunk hone hfails
    exact shrinkFirst_error hshrunk hreport

/-! ## Runs of the doubler -/

/-- What failed, if anything did. -/
def failureOf {ε α : Type} : Option (Except ε α) → Option ε
  | some (.error e) => some e
  | _ => none

theorem failureOf_eq_some {ε α : Type} {o : Option (Except ε α)} {e : ε} :
    failureOf o = some e ↔ o = some (.error e) := by
  rcases o with _ | _ | _ <;> simp [failureOf]

/-- The doubler under random inputs. -/
def doublerSetup (check : UInt64 → Except InvariantViolation Unit) : Setup doubler where
  serviceConfig := ()
  genInput rng := (UInt64.ofNat (rng.below 100).1, (rng.below 100).2)
  check := check
  texts := ⟨fun _ => "", fun _ => "", fun _ => ""⟩
  fuel := 10

/-- Two steps, each an input or a sync. -/
def twoSteps (seed : UInt64) : SimConfig := ⟨seed, 2, 0, 500, 0, 512, false, none⟩

/-- No total is right. -/
def neverRight : Setup doubler := doublerSetup fun _ => .error ⟨"not right"⟩

/-- The first input of the second seed violates the check. -/
theorem shrunk_failure_reproduces_of_check : ∃ failure shrunk, FailsInLoop neverRight (twoSteps 0) failure ∧
    failure.step = 0 ∧ vopr neverRight (twoSteps 5) [2, 0] = some (.error shrunk) ∧
    simulate neverRight { twoSteps 0 with steps := failure.step + 1 } = some (.error failure) ∧
    (∀ n, failure.step < n → simulate neverRight { twoSteps 0 with steps := n } = some (.error failure)) ∧
    shrunk.minSteps = shrunk.failure.step + 1 ∧
    simulate neverRight { twoSteps 5 with seed := shrunk.failure.seed, steps := shrunk.minSteps } =
      some (.error shrunk.failure) := by
  have hrun : (simLoop neverRight (twoSteps 0) () blankDisk).failed.any (fun p => p.1.step = 0) = true := by
    decide +kernel
  obtain ⟨⟨failure, ⟨⟩, w'⟩, hfailed, hstep⟩ := (Option.any_eq_true _ _).mp hrun
  have hloop : FailsInLoop neverRight (twoSteps 0) failure := ⟨w', Outcome.failed_eq_some.mp hfailed⟩
  have hzero : failure.step = 0 := of_decide_eq_true hstep
  have hfails : simulate neverRight (twoSteps 0) = some (.error failure) := hloop.simulate (n := 2) (by omega)
  have hreport : (failureOf (vopr neverRight (twoSteps 5) [2, 0])).isSome = true := by decide +kernel
  obtain ⟨shrunk, hshrunk⟩ := Option.isSome_iff_exists.mp hreport
  have hvopr := failureOf_eq_some.mp hshrunk
  obtain ⟨hcut, hlonger⟩ := (shrunk_failure_reproduces neverRight).1 (twoSteps 0) failure (by decide) hfails
  obtain ⟨hmin, hagain⟩ := (shrunk_failure_reproduces neverRight).2 (twoSteps 5) [2, 0] shrunk (by decide) hvopr
  exact ⟨failure, shrunk, hloop, hzero, hvopr, hcut, hlonger hloop, hmin, hagain⟩

end Ticktape.Sim
