import Ticktape.Journal.Run
import Ticktape.Runtime.Node

/-!
# The simulator

Deterministic simulation testing (`ticktape-sim/src/lib.rs`, `rng.rs`, `storage.rs`): a node on a simulated
disk, driven by one seeded generator through inputs, ticks, syncs and power losses, and checked after every
recovery against a shadow of what it was given.

A simulated run is a program whose memory is the simulator's own state and whose store is the simulated
disk: no storage call fails there, so it is run in a world where every call takes effect. The clock is the
simulator's, and a node operation reads the same time however often it asks. A node that lost power is
fenced off by its handles' epoch; here it is simply replaced.

The texts of the errors below (`Display`) are a parameter.
-/

namespace Ticktape.Sim

open Ticktape.Lib Ticktape.Core Ticktape.Journal Ticktape.Runtime

/-! ## The generator -/

/-- A deterministic, seedable generator (SplitMix64). -/
structure Rng where
  state : UInt64
  deriving DecidableEq, Repr

namespace Rng

def new (seed : UInt64) : Rng := ⟨seed⟩

def nextU64 (rng : Rng) : UInt64 × Rng :=
  let state := rng.state + 0x9E3779B97F4A7C15
  let z := (state ^^^ (state >>> 30)) * 0xBF58476D1CE4E5B9
  let z := (z ^^^ (z >>> 27)) * 0x94D049BB133111EB
  (z ^^^ (z >>> 31), ⟨state⟩)

/-- Uniform-ish below `n`. -/
def below (n : ℕ) (rng : Rng) : ℕ × Rng := (rng.nextU64.1.toNat % n, rng.nextU64.2)

/-- True with probability `num / den`. -/
def chance (num den : ℕ) (rng : Rng) : Bool × Rng := ((rng.below den).1 < num, (rng.below den).2)

end Rng

/-! ## Power loss -/

/-- Flip bit `bit` of byte `idx`. -/
def flipBit (idx bit : ℕ) (bytes : Bytes) : Bytes := bytes.modify idx (· ^^^ (1 <<< UInt8.ofNat bit))

/-- What is left of the unsynced bytes of a file: a prefix, in which a bit may be flipped. -/
def crashTail (torn : Bool) (tail : Bytes) (rng : Rng) : Bytes × Rng :=
  let (keep, rng) := rng.below (tail.length + 1)
  if torn = true ∧ keep > 0 then
    let (flip, rng) := rng.chance 1 4
    if flip then
      let (idx, rng) := rng.below keep
      let (bit, rng) := rng.below 8
      (flipBit idx bit (tail.take keep), rng)
    else (tail.take keep, rng)
  else (tail.take keep, rng)

/-- A file after a power loss: the survivors are what is on the disk now. -/
def crashFile (torn : Bool) (f : FileData) (rng : Rng) : FileData × Rng :=
  (⟨f.synced ++ (crashTail torn f.unsynced rng).1, []⟩, (crashTail torn f.unsynced rng).2)

/-- The files lose power one after the other, in the order of their names. -/
def crashFiles (torn : Bool) : List (FileName × FileData) → Disk FileName → Rng → Disk FileName × Rng
  | [], d, rng => (d, rng)
  | (k, f) :: rest, d, rng => crashFiles torn rest (d.put k (crashFile torn f rng).1) (crashFile torn f rng).2

/-- `SimStorage::crash`. -/
def crashDisk (torn : Bool) (d : Disk FileName) (rng : Rng) : Disk FileName × Rng :=
  crashFiles torn d.files.toList d rng

/-! ## Configuration and state -/

/-- A broken safety property. -/
structure InvariantViolation where
  what : String
  deriving DecidableEq, Repr

/-- Knobs for one simulated run; what the per-mille dials leave submits an input. -/
structure SimConfig where
  seed : UInt64
  steps : ℕ
  crashPerMille : ℕ
  syncPerMille : ℕ
  tickPerMille : ℕ
  segmentBytes : ℕ
  tornTails : Bool
  snapshotEvery : Option ℕ

/-- The node that a run simulates. -/
def SimConfig.nodeConfig (config : SimConfig) : NodeConfig where
  journal := ⟨config.segmentBytes, .never⟩
  streamId := 1
  snapshotEvery := config.snapshotEvery
  retainSnapshots := 2
  commit := none

/-- A clean run's tallies. -/
structure SimStats where
  inputs : ℕ
  ticks : ℕ
  syncs : ℕ
  crashes : ℕ
  deriving DecidableEq, Repr

/-- Nothing tallied yet. -/
def SimStats.zero : SimStats := ⟨0, 0, 0, 0⟩

def SimStats.add (a b : SimStats) : SimStats :=
  ⟨a.inputs + b.inputs, a.ticks + b.ticks, a.syncs + b.syncs, a.crashes + b.crashes⟩

/-- A failed run; `step` is where the violation was detected. -/
structure SimFailure where
  seed : UInt64
  step : ℕ
  violation : InvariantViolation
  deriving DecidableEq, Repr

/-- What the simulator expects to find in the journal for one sequenced frame. -/
inductive Expected where
  | input (bytes : Bytes)
  | tick
  | mark
  deriving DecidableEq

/-- How errors print. -/
structure ErrorTexts where
  node : NodeError → String
  journal : JournalError → String
  codec : CodecError → String

/-- What a run is given besides its configuration: the service's, the workload, the application's own
safety property, and the fuel that the timer loop is run with. -/
structure Setup (svc : Service) where
  serviceConfig : svc.Config
  genInput : Rng → svc.Input × Rng
  check : svc.State → Except InvariantViolation Unit
  texts : ErrorTexts
  fuel : ℕ

/-- The state of the simulator. -/
structure SimState (svc : Service) where
  rng : Rng
  nanos : UInt64
  node : Node svc
  expected : List Expected
  synced : ℕ
  stats : SimStats

/-- Programs of the simulator. -/
abbrev SProg (svc : Service) (α : Type) := Prog (SimState svc) JStore SimFailure α

variable {svc : Service}

/-- A failure at a step. -/
def SimConfig.fail (config : SimConfig) (step : ℕ) (what : String) : SimFailure :=
  ⟨config.seed, step, ⟨what⟩⟩

/-- Draw from the generator. -/
def draw {α : Type} (f : Rng → α × Rng) : SProg svc α := do
  let sim ← Prog.mem
  Prog.update fun sim => { sim with rng := (f sim.rng).2 }
  pure (f sim.rng).1

/-- The sum of two dials; an overflow panics. -/
def addDials (a b : ℕ) : SProg svc ℕ := if a + b < 2 ^ 32 then pure (a + b) else Prog.panic

/-- Run a node operation at the simulated time. -/
def onNode {α : Type} (failed : NodeError → SimFailure) (p : NProg svc α) : SProg svc α := do
  Prog.update fun sim => { sim with node := { sim.node with clock := fun _ => sim.nanos } }
  Prog.zoom (·.node) (fun node sim => { sim with node := node }) (Prog.mapErr failed p)

/-- The disk loses power. -/
def crash (torn : Bool) : SProg svc Unit :=
  Prog.joint fun sim s =>
    ({ sim with rng := (crashDisk torn s.disk sim.rng).2 }, { s with disk := (crashDisk torn s.disk sim.rng).1 })

/-- The sum of two seqs; an overflow panics. -/
def addSeqs (a b : ℕ) : SProg svc ℕ := if a + b < 2 ^ 64 then pure (a + b) else Prog.panic

/-- One op consumes one seq; any extra seqs are taken to be marks. -/
def pushMarks (before after : ℕ) : List Expected := List.replicate (after - before - 1) .mark

/-! ## Recovery

`fail` turns the text of a violation into a failure of the step at hand. -/

section Recovery

variable (setup : Setup svc) (fail : String → SimFailure)

/-- Whether a surviving frame is the expected one. -/
def Expected.agrees (frame : Frame) : Expected → Bool
  | .input bytes => frame.kind = .input ∧ frame.payload = bytes
  | .tick => frame.kind = .tick
  | .mark => frame.kind = .snapshotMark

/-- The surviving frames against the shadow: a gapless run from `first` on, at most up to `recovered`. An
index outside the shadow panics. -/
def checkFrames (expected : List Expected) (recovered first : ℕ) : ℕ → List Frame → SProg svc Unit
  | _, [] => pure ()
  | i, frame :: rest => do
    let seq ← addSeqs first i
    if frame.seq ≠ seq then
      Prog.fail (fail
        s!"total order broken: journal frame {i} has seq {frame.seq} (expected {seq})")
    else if seq > recovered then
      Prog.fail (fail s!"journal frame at seq {seq} exceeds recovered tip {recovered}")
    else if seq = 0 then Prog.panic
    else
      match expected[seq - 1]? with
      | none => Prog.panic
      | some exp =>
        if exp.agrees frame = false then
          Prog.fail (fail
            s!"journal frame at seq {frame.seq} does not match the submitted input")
        else checkFrames expected recovered first (i + 1) rest

/-- How an optional seq prints. -/
def debugSeq : Option ℕ → String
  | none => "None"
  | some seq => s!"Some(Seq({seq}))"

/-- A tip beyond the journal needs a snapshot that anchored it. -/
def checkAnchor (recovered journalLast : ℕ) (anchor : Option ℕ) : SProg svc Unit :=
  if recovered ≤ journalLast then pure ()
  else if anchor.any (· ≥ journalLast) then pure ()
  else Prog.fail (fail (s!"recovered tip {recovered} exceeds journal_last {journalLast}" ++
    s!"                      with no anchoring snapshot (recovery snapshot_seq {debugSeq anchor})"))

/-- The independent replay of the shadow: inputs are applied, at time zero, and everything else is
skipped. -/
def shadowReplay : ℕ → svc.State → List Expected → SProg svc svc.State
  | _, fresh, [] => pure fresh
  | i, fresh, .input bytes :: rest =>
    match (decodeAll bytes : Except CodecError svc.Input) with
    | .error e =>
      Prog.fail (fail
        s!"shadow input no longer decodes at seq {i + 1}: {setup.texts.codec e}")
    | .ok input => shadowReplay (i + 1) (svc.apply fresh (i + 1) input ⟨i + 1, 0⟩).state rest
  | i, fresh, _ :: rest => shadowReplay (i + 1) fresh rest

/-- The seq of the last frame read from the journal, or the one before the first that would be. -/
def journalLast (re : Recovered) : ℕ := (re.frames.getLast?.map (·.seq)).getD (re.firstSeq - 1)

/-- The state of a recovered node against the shadow, and the application's own check. -/
def checkState (expected : List Expected) (node : Node svc) : SProg svc Unit := do
  let fresh ← shadowReplay setup fail 0 (svc.genesis setup.serviceConfig) expected
  if encode (svc.snapshot node.service) ≠ encode (svc.snapshot fresh) then
    Prog.fail (fail ("determinism violated: recovered state does not byte-match an independent " ++
      "replay of the same inputs (ambient state, nondeterministic iteration, or clock leak?)"))
  else
    match setup.check node.service with
    | .error violation => Prog.fail (fail violation.what)
    | .ok () => pure ()

/-- The checks of a recovered node. The journal is read again; it has nothing to sync when it is dropped. The
lost tail is no longer expected, and what survived is durable. -/
def checkRecovered (journalConfig : JournalConfig) (synced : ℕ) (expected : List Expected) (node : Node svc) :
    SProg svc Unit :=
  if node.seq < synced then
    Prog.fail (fail (s!"durability violated: {synced} frames were synced but only " ++
      s!"{node.seq} survived"))
  else if node.seq > expected.length then
    Prog.fail (fail s!"phantom frames: {expected.length} submitted, {node.seq} recovered")
  else do
    let re ← Prog.mapErr (fun e => fail s!"journal re-read failed: {setup.texts.journal e}")
      (Journal.openWith journalConfig)
    checkFrames fail expected node.seq re.firstSeq 0 re.frames
    checkAnchor fail node.seq (journalLast re) node.recovery.snapshotSeq
    Prog.update fun sim => { sim with expected := expected.take node.seq, synced := node.seq }
    checkState setup fail (expected.take node.seq) node

/-- Reopen the node after a crash and run the checks. -/
def recoverAndCheck (nodeConfig : NodeConfig) : SProg svc Unit := do
  let sim ← Prog.mem
  let node ← Prog.mapErr (fun e => fail s!"recovery failed after crash: {setup.texts.node e}")
    (Node.openWith nodeConfig setup.serviceConfig fun _ => sim.nanos)
  Prog.note fun s => resume s node.seq
  checkRecovered setup fail nodeConfig.journal sim.synced sim.expected node
  Prog.update fun sim => { sim with node := node }

end Recovery

/-! ## Steps -/

section Steps

variable (setup : Setup svc) (config : SimConfig) (step : ℕ)

/-- Lose power, recover and check. -/
def crashStep : SProg svc Unit := do
  Prog.update fun sim => { sim with stats := { sim.stats with crashes := sim.stats.crashes + 1 } }
  crash config.tornTails
  recoverAndCheck setup (config.fail step) config.nodeConfig

/-- Sync the journal: everything expected is durable. -/
def syncStep : SProg svc Unit := do
  Prog.update fun sim => { sim with stats := { sim.stats with syncs := sim.stats.syncs + 1 } }
  onNode (fun e => config.fail step s!"sync failed: {setup.texts.node e}") Node.sync
  Prog.update fun sim => { sim with synced := sim.expected.length }

/-- Sequence a tick. -/
def tickStep : SProg svc Unit := do
  Prog.update fun sim => { sim with stats := { sim.stats with ticks := sim.stats.ticks + 1 } }
  let sim ← Prog.mem
  let _ ← onNode (fun e => config.fail step s!"tick failed: {setup.texts.node e}") (Node.tick setup.fuel)
  Prog.update fun sim' => { sim' with
    expected := sim'.expected ++ .tick :: pushMarks sim.node.seq sim'.node.seq }

/-- Submit an input of the workload. -/
def inputStep : SProg svc Unit := do
  Prog.update fun sim => { sim with stats := { sim.stats with inputs := sim.stats.inputs + 1 } }
  let input ← draw setup.genInput
  let sim ← Prog.mem
  let _ ← onNode (fun e => config.fail step s!"submit failed: {setup.texts.node e}")
    (Node.submit setup.fuel input)
  Prog.update fun sim' => { sim' with
    expected := sim'.expected ++ .input (encode input) :: pushMarks sim.node.seq sim'.node.seq }
  let sim ← Prog.mem
  match setup.check sim.node.service with
  | .error violation => Prog.fail (config.fail step violation.what)
  | .ok () => pure ()

/-- One simulated operation: time passes, and a die decides. -/
def simStep : SProg svc Unit := do
  let nanos ← draw (Rng.below 1000000000)
  Prog.update fun sim => { sim with nanos := sim.nanos + UInt64.ofNat nanos }
  let dice ← draw (Rng.below 1000)
  if dice < config.crashPerMille then crashStep setup config step
  else do
    let syncs ← addDials config.crashPerMille config.syncPerMille
    if dice < syncs then syncStep setup config step
    else do
      let ticks ← addDials syncs config.tickPerMille
      if dice < ticks then tickStep setup config step
      else inputStep setup config step

/-- `n` operations from `step` on. -/
def simSteps : ℕ → ℕ → SProg svc Unit
  | 0, _ => pure ()
  | n + 1, step => do
    simStep setup config step
    simSteps n (step + 1)

end Steps

/-! ## Runs -/

/-- Open the node for the first time, at one second past the epoch. -/
def initialOpen (setup : Setup svc) (config : SimConfig) : Prog Unit JStore SimFailure (Node svc) := do
  let node ← Prog.mapErr (fun e => config.fail 0 s!"initial open failed: {setup.texts.node e}")
    (Node.openWith config.nodeConfig setup.serviceConfig fun _ => 1000000000)
  Prog.note fun s => resume s node.seq
  pure node

/-- The simulator at the start of a run. -/
def SimState.start (config : SimConfig) (node : Node svc) : SimState svc where
  rng := .new config.seed
  nanos := 1000000000
  node := node
  expected := []
  synced := 0
  stats := .zero

/-- The part of a run before its final crash: the node is opened and the schedule is run. -/
def simLoop (setup : Setup svc) (config : SimConfig) : Prog Unit JStore SimFailure (SimState svc) := do
  let node ← initialOpen setup config
  Prog.owning (.start config node) (simSteps setup config config.steps 0)

/-- A whole run, which ends with a crash and the full checklist. -/
def simRun (setup : Setup svc) (config : SimConfig) : Prog Unit JStore SimFailure SimStats := do
  let sim ← simLoop setup config
  let sim ← Prog.owning sim (crashStep setup config (config.steps - 1))
  pure sim.stats

/-- The simulated disk at the start of a run. -/
def blankDisk : World JStore := .healthy ⟨Disk.empty, History.fresh⟩

/-- **Run one seeded simulation.** `none` stands for a panic, or a timer loop that used up its fuel. -/
def simulate (setup : Setup svc) (config : SimConfig) : Option (Except SimFailure SimStats) :=
  match simRun setup config () blankDisk with
  | .ok stats _ _ => some (.ok stats)
  | .err failure _ _ => some (.error failure)
  | .down _ => none
  | .spin => none

/-- A failure found by `vopr` and the number of steps that is to reproduce it. -/
structure ShrunkFailure where
  failure : SimFailure
  minSteps : ℕ
  deriving DecidableEq

/-- Whether a run failed with the violation `v`. -/
def failsWith (v : InvariantViolation) : Except SimFailure SimStats → Bool
  | .error again => again.violation = v
  | .ok _ => false

/-- Many seeds, and on the first failure the schedule is cut at the failing step and the reproduction
verified. `run` is one simulated run. -/
def shrinkFirst (run : SimConfig → Option (Except SimFailure SimStats)) (base : SimConfig) :
    List UInt64 → SimStats → Option (Except ShrunkFailure SimStats)
  | [], totals => some (.ok totals)
  | seed :: seeds, totals =>
    match run { base with seed := seed } with
    | none => none
    | some (.ok stats) => shrinkFirst run base seeds (totals.add stats)
    | some (.error failure) =>
      match run { base with seed := seed, steps := failure.step + 1 } with
      | none => none
      | some reproduced =>
        some (.error ⟨failure, if failsWith failure.violation reproduced then failure.step + 1 else base.steps⟩)

/-- **The VOPR loop.** -/
def vopr (setup : Setup svc) (base : SimConfig) (seeds : List UInt64) :
    Option (Except ShrunkFailure SimStats) := shrinkFirst (simulate setup) base seeds .zero

end Ticktape.Sim
