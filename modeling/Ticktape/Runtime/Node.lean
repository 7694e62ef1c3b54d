import Ticktape.Journal.Snapshot
import Ticktape.Runtime.Commit
import Ticktape.Runtime.Timer

/-!
# The node

A single-node sequencer and service host (`ticktape-runtime/src/lib.rs`): submitting inputs one by
one or in batches, ticks, fences and acknowledgements, timers, snapshots, and recovery in
`openWith`. The scratch buffers of the source are empty between steps and left out.

`ledger` is a history variable: every published frame with the service state and the outputs right
after it was applied. Nothing reads it.
-/

namespace Ticktape.Runtime

open Ticktape.Lib Ticktape.Core Ticktape.Journal

/-! ## State -/

/-- Why a node operation failed. -/
inductive NodeError where
  | journal (e : JournalError)
  /-- A journaled input failed to decode. -/
  | corruptInput (seq : ℕ) (err : CodecError)
  /-- The journal was compacted and no usable snapshot covers the seqs before it. -/
  | uncoveredHistory (journalFirst : ℕ)
  deriving DecidableEq

/-- The configuration of a node. -/
structure NodeConfig where
  journal : JournalConfig
  streamId : UInt16
  /-- Snapshot every so many frames; `none` is never. -/
  snapshotEvery : Option ℕ
  retainSnapshots : ℕ
  commit : Option CommitConfig

/-- How the last open rebuilt state. -/
structure RecoveryInfo where
  snapshotSeq : Option ℕ
  inputsReplayed : ℕ
  deriving DecidableEq

/-- One subscriber of the bus and the frames it has received. `since` is history: the seq of the node
when it subscribed. -/
structure Subscriber where
  connected : Bool
  received : List Frame
  since : ℕ

/-- One published frame and what the service made of it. -/
structure LedgerEntry (svc : Service) where
  frame : Frame
  state : svc.State
  outputs : List svc.Output

/-- A sequencer and its service. `clock` holds the readings the time source has yet to give. -/
structure Node (svc : Service) where
  service : svc.State
  serviceConfig : svc.Config
  journal : Journal
  snapshotEvery : Option ℕ
  retainSnapshots : ℕ
  clock : ℕ → UInt64
  streamId : UInt16
  seq : ℕ
  lastTimestamp : UInt64
  bus : List Subscriber
  recovery : RecoveryInfo
  commit : Option (CommitState svc.Output)
  timers : TimerWheel
  ledger : List (LedgerEntry svc)

/-- Node operations. -/
abbrev NProg (svc : Service) (α : Type) := Prog (Node svc) JStore NodeError α

namespace Node

variable {svc : Service}

/-- A journal operation inside a node operation. -/
def onJournal {α : Type} (p : JProg α) : NProg svc α :=
  Prog.zoom (·.journal) (fun j n => { n with journal := j }) (Prog.mapErr .journal p)

/-- A snapshot store operation inside a node operation. -/
def onSnapshots {α : Type} (p : Prog (Node svc) JStore JournalError α) : NProg svc α :=
  Prog.mapErr .journal p

/-! ## Sequencing -/

/-- Read the time source. -/
def now : NProg svc UInt64 := do
  let n ← Prog.mem
  Prog.update fun n => { n with clock := fun i => n.clock (i + 1) }
  pure (n.clock 0)

/-- Assign the next seq and a timestamp that never runs backwards, without journaling. Both the
overflow of the seq and a payload over the cap panic. -/
def stageFrame (kind : FrameKind) (payload : Bytes) (time : UInt64) : NProg svc Frame := do
  let n ← Prog.mem
  if h : n.seq + 1 < 2 ^ 64 ∧ payload.length ≤ MAX_PAYLOAD_LEN then do
    let frame : Frame :=
      ⟨n.seq + 1, max time n.lastTimestamp, n.streamId, kind, payload, h.1, h.2⟩
    Prog.update fun n => { n with seq := frame.seq, lastTimestamp := frame.timestamp }
    pure frame
  else Prog.panic

/-- Sequence and journal a frame stamped at `time` (clamped). -/
def sequenceAt (kind : FrameKind) (payload : Bytes) (time : UInt64) : NProg svc Frame := do
  let frame ← stageFrame kind payload time
  onJournal (Journal.append frame)
  pure frame

/-- Sequence and journal a frame stamped now. -/
def sequence (kind : FrameKind) (payload : Bytes) : NProg svc Frame := do
  let time ← now
  sequenceAt kind payload time

/-- Hand a frame to every connected subscriber; disconnected ones are dropped. -/
def publish (frame : Frame) (outputs : List svc.Output) : NProg svc Unit :=
  Prog.update fun n => { n with
    bus := (n.bus.filter (·.connected)).map fun sub => { sub with received := sub.received ++ [frame] }
    ledger := n.ledger ++ [⟨frame, n.service, outputs⟩] }

/-- Subscribe to all frames from now on. -/
def subscribe : NProg svc Unit :=
  Prog.update fun n => { n with bus := n.bus ++ [⟨true, [], n.seq⟩] }

/-! ## Snapshots -/

/-- The snapshot payload: the service state and the pending timers. -/
def snapshotPayload (svc : Service) (state : svc.State) (timers : TimerWheel) : Bytes :=
  encode (svc.snapshot state, timers.snapshot)

/-- Write a snapshot of the state at `seq`, advertise it with a mark, prune old snapshots and
compact the journal below the oldest one kept. -/
def takeSnapshot (seq : ℕ) : NProg svc Unit := do
  let n ← Prog.mem
  onSnapshots (Snapshots.write seq 0 (snapshotPayload svc n.service n.timers))
  let mark ← sequence .snapshotMark (encode (UInt64.ofNat seq))
  publish mark []
  let oldest ← onSnapshots (Snapshots.pruneKeepNewest n.retainSnapshots)
  match oldest with
  | none => pure ()
  | some oldest => do
    let _ ← onJournal (Journal.compactBelow (oldest - 1))
    pure ()

/-- Snapshot on cadence. -/
def maybeSnapshot (seq : ℕ) : NProg svc Unit := do
  let n ← Prog.mem
  match n.snapshotEvery with
  | none => pure ()
  | some every => Prog.when (seq % max every 1 = 0) (takeSnapshot seq)

/-! ## Applying frames -/

/-- Run one service step and fold its timer requests into the wheel. Returns its outputs. -/
def runStep (frame : Frame) (step : svc.State → Ctx → Step svc.State svc.Output) :
    NProg svc (List svc.Output) := do
  let n ← Prog.mem
  let result := step n.service ⟨frame.seq, frame.timestamp⟩
  Prog.update fun n => { n with
    service := result.state
    timers := n.timers.applyAll result.timers (UInt64.ofNat frame.seq) }
  pure result.outputs

/-- Operate on the quorum-commit state. -/
def onCommit {α : Type} (p : Prog (CommitState svc.Output) JStore NodeError α) (none : α) :
    NProg svc α := do
  let n ← Prog.mem
  match n.commit with
  | .none => pure none
  | some state =>
    Prog.zoom (fun _ => state) (fun state n => { n with commit := some state }) p

/-- Withhold the outputs of a frame and release what is committed now. -/
def withhold (seq : ℕ) (outputs : List svc.Output) :
    Prog (CommitState svc.Output) JStore NodeError (List svc.Output) := do
  Prog.update fun state =>
    { state with pending := state.pending.insert seq outputs }.record state.selfReplica seq
  let released ← CommitState.drainCommitted
  pure (released.flatMap (·.2))

/-- Publish an applied frame, snapshot on cadence and route its outputs through the commit path. -/
def finishFrame (frame : Frame) (outputs : List svc.Output) : NProg svc (List svc.Output) := do
  publish frame outputs
  maybeSnapshot frame.seq
  onCommit (withhold frame.seq outputs) outputs

/-- Take the earliest timer that is due out of the wheel. -/
def popDue : NProg svc (Option UInt64) := do
  let n ← Prog.mem
  match n.timers.popDue n.lastTimestamp with
  | none => pure none
  | some (id, timers) => do
    Prog.update fun n => { n with timers := timers }
    pure (some id)

/-- Fire every timer that is due, each as its own journaled frame. A handler may re-arm timers that
are due at once, so the loop is run with fuel. -/
def fireDueTimers : ℕ → NProg svc (List svc.Output)
  | 0 => Prog.spin
  | fuel + 1 => do
    match ← popDue with
    | none => pure []
    | some id => do
      let n ← Prog.mem
      let frame ← sequenceAt .timerFired (encode id) n.lastTimestamp
      let outputs ← runStep frame fun state ctx => svc.onTimer state id ctx
      let released ← finishFrame frame outputs
      let more ← fireDueTimers fuel
      pure (released ++ more)

/-! ## Operations -/

/-- Sequence, journal and apply one input. Returns its seq and the outputs released. -/
def submit (fuel : ℕ) (input : svc.Input) : NProg svc (ℕ × List svc.Output) := do
  let frame ← sequence .input (encode input)
  let outputs ← runStep frame fun state ctx => svc.apply state frame.seq input ctx
  let released ← finishFrame frame outputs
  let more ← fireDueTimers fuel
  pure (frame.seq, released ++ more)

/-- Stage a frame for every input. -/
def stageAll (time : UInt64) : List svc.Input → NProg svc (List Frame)
  | [] => pure []
  | input :: rest => do
    let frame ← stageFrame .input (encode input) time
    let frames ← stageAll time rest
    pure (frame :: frames)

/-- Apply staged inputs in order. -/
def applyAll (fuel : ℕ) : List (svc.Input × Frame) → NProg svc (List (ℕ × List svc.Output))
  | [] => pure []
  | (input, frame) :: rest => do
    let outputs ← runStep frame fun state ctx => svc.apply state frame.seq input ctx
    let released ← finishFrame frame outputs
    let more ← fireDueTimers fuel
    let results ← applyAll fuel rest
    pure ((frame.seq, released ++ more) :: results)

/-- Group commit: journal a batch of inputs with one write, then apply them in order. -/
def submitBatch (fuel : ℕ) (inputs : List svc.Input) : NProg svc (List (ℕ × List svc.Output)) :=
  if inputs.isEmpty then pure []
  else do
    let time ← now
    let frames ← stageAll time inputs
    onJournal (Journal.appendBatch frames)
    applyAll fuel (inputs.zip frames)

/-- A frame without outputs still advances the leader's own high-water. -/
def noteSelfProgress (seq : ℕ) : NProg svc Unit :=
  onCommit (Prog.update fun state => state.record state.selfReplica seq) ()

/-- Inject a sequenced tick. -/
def tick (fuel : ℕ) : NProg svc ℕ := do
  let frame ← sequence .tick []
  publish frame []
  maybeSnapshot frame.seq
  noteSelfProgress frame.seq
  let _ ← fireDueTimers fuel
  pure frame.seq

/-- Sequence an epoch fence. -/
def fence (epoch : UInt64) : NProg svc ℕ := do
  let n ← Prog.mem
  let next ← nextSeq n.seq
  let frame ← sequence .epochChange (encode (epoch, UInt64.ofNat next, svc.SCHEMA_VERSION))
  publish frame []
  maybeSnapshot frame.seq
  noteSelfProgress frame.seq
  pure frame.seq

/-- Follower `replica` has journaled everything up to `seq`: returns what is released. -/
def recordAck (replica : UInt32) (seq : ℕ) : NProg svc (List (ℕ × List svc.Output)) :=
  onCommit (do
    Prog.update fun state => state.record replica seq
    CommitState.drainCommitted) []

/-- Force outstanding appends to stable storage. -/
def sync : NProg svc Unit := onJournal Journal.sync

/-! ## Recovery -/

/-- The state that replay rebuilds. -/
structure Replayed (svc : Service) where
  service : svc.State
  timers : TimerWheel

/-- One service step during replay: outputs are discarded. -/
def replayStep (r : Replayed svc) (frame : Frame)
    (step : svc.State → Ctx → Step svc.State svc.Output) : Replayed svc :=
  let result := step r.service ⟨frame.seq, frame.timestamp⟩
  ⟨result.state, r.timers.applyAll result.timers (UInt64.ofNat frame.seq)⟩

/-- Replay one frame: inputs and fired timers are applied, control frames are skipped. A fired
timer left the wheel before its handler ran. -/
def replayFrame (r : Replayed svc) (frame : Frame) : Except NodeError (Replayed svc) :=
  match frame.kind with
  | .input =>
    match (decodeAll frame.payload : Except CodecError svc.Input) with
    | .error err => .error (.corruptInput frame.seq err)
    | .ok input => .ok (replayStep r frame fun state ctx => svc.apply state frame.seq input ctx)
  | .timerFired =>
    match (decodeAll frame.payload : Except CodecError UInt64) with
    | .error err => .error (.corruptInput frame.seq err)
    | .ok id =>
      .ok (replayStep { r with timers := r.timers.cancel id } frame
        fun state ctx => svc.onTimer state id ctx)
  | _ => .ok r

/-- Replay frames in order. -/
def replay (r : Replayed svc) : List Frame → Except NodeError (Replayed svc)
  | [] => .ok r
  | frame :: rest =>
    match replayFrame r frame with
    | .error e => .error e
    | .ok r' => replay r' rest

/-- The state before any frame. -/
def genesis (svc : Service) (config : svc.Config) : Replayed svc := ⟨svc.genesis config, .new⟩

/-- The newest snapshot that the surviving journal can continue from and that decodes. -/
def chooseAnchor {μ : Type} (config : svc.Config) (journalFirst : ℕ) :
    List LoadedSnapshot → Prog μ JStore NodeError (Option (ℕ × Replayed svc))
  | [] => pure none
  | snap :: rest => do
    let next ← nextSeq snap.seq
    if next < journalFirst then chooseAnchor config journalFirst rest
    else
      match (decodeAll snap.payload :
          Except CodecError (svc.Snapshot × List (UInt64 × UInt64 × UInt64))) with
      | .error _ => chooseAnchor config journalFirst rest
      | .ok (state, timers) =>
        pure (some (snap.seq, ⟨svc.restore state config, .restore timers⟩))

/-- Reseat the journal when the anchor lies beyond its surviving tail. -/
def reseatIfNeeded {μ : Type} (journal : Journal) (fromSeq tip : ℕ) :
    Prog μ JStore NodeError Journal :=
  if fromSeq > journal.lastSeq then do
    let next ← nextSeq tip
    Prog.mapErr .journal (Prog.owning journal (Journal.reseatTo next))
  else pure journal

/-- The node that recovery assembles. -/
def assemble (config : NodeConfig) (serviceConfig : svc.Config) (clock : ℕ → UInt64)
    (journal : Journal) (fromSeq tip : ℕ) (frames : List Frame) (r : Replayed svc) : Node svc where
  service := r.service
  serviceConfig := serviceConfig
  journal := journal
  snapshotEvery := config.snapshotEvery
  retainSnapshots := config.retainSnapshots
  clock := clock
  streamId := config.streamId
  seq := tip
  lastTimestamp := (frames.getLast?.map (·.timestamp)).getD 0
  bus := []
  recovery := ⟨if fromSeq > 0 then some fromSeq else none,
    (frames.filter fun f => f.seq > fromSeq ∧ f.kind = .input).length⟩
  commit := config.commit.map fun c => CommitState.new c tip
  timers := r.timers
  ledger := []

/-- Open the node: recover from a snapshot and the journal behind it, and resume above both. -/
def openWith {μ : Type} (config : NodeConfig) (serviceConfig : svc.Config) (clock : ℕ → UInt64) :
    Prog μ JStore NodeError (Node svc) := do
  let recovered ← Prog.mapErr .journal (Journal.openWith config.journal)
  let journalLast := recovered.journal.lastSeq
  let highWater ← Prog.mapErr .journal Snapshots.highWaterSeq
  let candidates ← Prog.mapErr .journal (Snapshots.loadCandidates (max journalLast highWater))
  let anchor ← chooseAnchor serviceConfig recovered.firstSeq candidates
  if anchor.isNone ∧ recovered.firstSeq > 1 then Prog.fail (.uncoveredHistory recovered.firstSeq)
  else do
    let fromSeq := (anchor.map Prod.fst).getD 0
    let tip := max journalLast fromSeq
    Prog.mapErr .journal (Snapshots.purgeAfter tip)
    let journal ← reseatIfNeeded recovered.journal fromSeq tip
    let r ← Prog.ofExcept (replay ((anchor.map Prod.snd).getD (genesis svc serviceConfig))
      (recovered.frames.filter (·.seq > fromSeq)))
    pure (assemble config serviceConfig clock journal fromSeq tip recovered.frames r)

end Node

end Ticktape.Runtime
