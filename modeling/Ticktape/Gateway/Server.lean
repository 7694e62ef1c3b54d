import Ticktape.Gateway.Flow
import Ticktape.Gateway.Wire
import Ticktape.Runtime.Node

/-!
# The sequencer thread of the gateway

One thread owns the node and handles the requests of all connections, one at a time
(`ticktape-gateway/src/server.rs`). A connection is known here by the channel its replies go to;
whether a send finds the other end alive is up to the environment. Events are kept in the outbox as
values where the source keeps their encoding.
-/

namespace Ticktape.Gateway

open Std Ticktape.Lib Ticktape.Core Ticktape.Journal Ticktape.Runtime

/-- The sending half of a connection's channel. -/
abbrev Sink := ℕ

/-- How the gateway is configured. -/
structure ServeConfig where
  window : ℕ := 64
  /-- The last admitted number of each recovered session. -/
  resume : List (UInt64 × ℕ) := []
  outboxCapacity : ℕ := 1024

/-- Requests of the connection threads. -/
inductive Req (C : Type) where
  /-- A command connection claimed `session`. -/
  | attach (session : UInt64) (fromEventSeq : ℕ) (sink : Sink)
  /-- A drop-copy observer for `session`. -/
  | watch (session : UInt64) (fromEventSeq : ℕ) (sink : Sink)
  | cmd (session clientSeq : UInt64) (cmd : C)
  /-- The command connection dropped. -/
  | close (session : UInt64)

/-- Per-session edge state: the live sinks plus a bounded replay outbox. -/
structure SessionSinks (E : Type) where
  cmd : Option Sink
  watchers : List Sink
  /-- The next event number to assign. -/
  nextEventSeq : ℕ
  /-- Recent events, oldest first. -/
  outbox : List (ℕ × E)

namespace SessionSinks

variable {E : Type}

def new : SessionSinks E := ⟨none, [], 1, []⟩

/-- Every event after `from` still held, in order. -/
def replayAfter (entry : SessionSinks E) (after : ℕ) : List (ServerMsg E) :=
  (entry.outbox.filter fun e => after < e.1).map fun e => .event e.1 e.2

/-- Assign a number to an event and retain it, dropping the oldest past the capacity. -/
def retain (entry : SessionSinks E) (event : E) (capacity : ℕ) : SessionSinks E :=
  let outbox := entry.outbox ++ [(entry.nextEventSeq, event)]
  { entry with
    nextEventSeq := entry.nextEventSeq + 1
    outbox := outbox.drop (outbox.length - capacity) }

end SessionSinks

/-- A service hosted by the gateway: its inputs are the envelopes, its outputs are addressed. -/
structure SessionAware (svc : Service) (C E : Type) where
  input : svc.Input ≃ GatewayInput C
  output : svc.Output ≃ Addressed E

/-- The state of the sequencer thread. -/
structure Sequencer (svc : Service) (E : Type) where
  node : Node svc
  flows : ExtTreeMap UInt64 SessionFlow
  sinks : ExtTreeMap UInt64 (SessionSinks E)
  window : ℕ
  outboxCapacity : ℕ
  /-- Whether the next sends find their receivers. -/
  up : ℕ → Bool
  /-- Every message sent so far. -/
  sent : List (Sink × ServerMsg E)

variable {svc : Service} {C E : Type}

/-- Steps of the sequencer thread. -/
abbrev GProg (svc : Service) (E α : Type) := Prog (Sequencer svc E) JStore Empty α

namespace Sequencer

/-- Resume one session; `none` if its number overflows. -/
def resumeOne (window : ℕ) (flows : ExtTreeMap UInt64 SessionFlow) (entry : UInt64 × ℕ) :
    Option (ExtTreeMap UInt64 SessionFlow) :=
  (SessionFlow.resume entry.2 window).map fun flow => flows.insert entry.1 flow

/-- The sessions resumed from their last admitted numbers. -/
def resumeAll (window : ℕ) (resume : List (UInt64 × ℕ)) : Option (ExtTreeMap UInt64 SessionFlow) :=
  resume.foldlM (resumeOne window) ∅

/-- The sequencer thread as it starts. -/
def start (node : Node svc) (config : ServeConfig) (up : ℕ → Bool) : Option (Sequencer svc E) :=
  (resumeAll config.window config.resume).map fun flows => {
    node := node
    flows := flows
    sinks := ∅
    window := config.window
    outboxCapacity := config.outboxCapacity
    up := up
    sent := [] }

/-- The admission state of a session, a fresh one if it has none. -/
def flowOf (g : Sequencer svc E) (session : UInt64) : SessionFlow :=
  g.flows.getD session (.new g.window)

/-- The sinks of a session, fresh ones if it has none. -/
def sinksOf (g : Sequencer svc E) (session : UInt64) : SessionSinks E := g.sinks.getD session .new

def setFlow (g : Sequencer svc E) (session : UInt64) (flow : SessionFlow) : Sequencer svc E :=
  { g with flows := g.flows.insert session flow }

def setSinks (g : Sequencer svc E) (session : UInt64) (entry : SessionSinks E) : Sequencer svc E :=
  { g with sinks := g.sinks.insert session entry }

/-- Forget the session's command connection. -/
def dropCmd (g : Sequencer svc E) (session : UInt64) : Sequencer svc E :=
  match g.sinks[session]? with
  | none => g
  | some entry => g.setSinks session { entry with cmd := none }

/-! ## Sending -/

/-- Send on a channel; false if the receiver is gone. -/
def send (sink : Sink) (msg : ServerMsg E) : GProg svc E Bool := do
  let g ← Prog.mem
  Prog.update fun g => { g with up := fun i => g.up (i + 1), sent := g.sent ++ [(sink, msg)] }
  pure (g.up 0)

/-- Send messages in order, stopping at the first that fails. -/
def sendAll (sink : Sink) : List (ServerMsg E) → GProg svc E Bool
  | [] => pure true
  | msg :: rest => do
    let alive ← send sink msg
    if alive then sendAll sink rest else pure false

/-- Send a message to every watcher and keep those that are alive. -/
def sendWatchers (msg : ServerMsg E) : List Sink → GProg svc E (List Sink)
  | [] => pure []
  | sink :: rest => do
    let alive ← send sink msg
    let kept ← sendWatchers msg rest
    pure (if alive then sink :: kept else kept)

/-- Send to a command connection, if there is one; a dead one is forgotten. -/
def sendCmd (cmd : Option Sink) (msg : ServerMsg E) : GProg svc E (Option Sink) :=
  match cmd with
  | none => pure none
  | some sink => do
    let alive ← send sink msg
    pure (if alive then some sink else none)

/-- Reply on the session's command connection. -/
def sendToCmd (session : UInt64) (msg : ServerMsg E) : GProg svc E Unit := do
  let g ← Prog.mem
  match g.sinks[session]? with
  | none => pure ()
  | some entry => do
    let cmd ← sendCmd entry.cmd msg
    Prog.update fun g => g.setSinks session { entry with cmd := cmd }

/-- Number one event, retain it, and send it to the session's connection and observers. -/
def routeEvent (addressed : Addressed E) : GProg svc E Unit := do
  let g ← Prog.mem
  let entry := g.sinksOf addressed.session
  let msg := ServerMsg.event entry.nextEventSeq addressed.event
  let cmd ← sendCmd entry.cmd msg
  let watchers ← sendWatchers msg entry.watchers
  Prog.update fun g => g.setSinks addressed.session
    { entry.retain addressed.event g.outboxCapacity with cmd := cmd, watchers := watchers }

def routeEvents : List (Addressed E) → GProg svc E Unit
  | [] => pure ()
  | addressed :: rest => do
    routeEvent addressed
    routeEvents rest

/-! ## Requests -/

/-- Run a node operation and hand over its error. -/
def onNode {α : Type} (p : NProg svc α) : GProg svc E (Except NodeError α) :=
  Prog.zoom (·.node) (fun node g => { g with node := node }) (Prog.attempt p)

def attach (session : UInt64) (fromEventSeq : ℕ) (sink : Sink) : GProg svc E Unit := do
  Prog.update fun g => g.setFlow session (g.flowOf session)
  Prog.update fun g => g.setSinks session { g.sinksOf session with cmd := some sink }
  let g ← Prog.mem
  let alive ← sendAll sink ((g.sinksOf session).replayAfter fromEventSeq)
  Prog.when (alive = false) do
    Prog.update fun g => g.setSinks session { g.sinksOf session with cmd := none }

def watch (session : UInt64) (fromEventSeq : ℕ) (sink : Sink) : GProg svc E Unit := do
  let _ ← send sink (.ack 0 0)
  Prog.update fun g => g.setSinks session (g.sinksOf session)
  let g ← Prog.mem
  let alive ← sendAll sink ((g.sinksOf session).replayAfter fromEventSeq)
  Prog.when (alive = true) do
    Prog.update fun g => g.setSinks session
      { g.sinksOf session with watchers := (g.sinksOf session).watchers ++ [sink] }

/-- Sequence an admitted command. The error is the one the source logs. -/
def sequenceCmd (aware : SessionAware svc C E) (fuel : ℕ) (session clientSeq : UInt64) (cmd : C)
    (flow : SessionFlow) : GProg svc E (Option NodeError) := do
  let result ← onNode (Node.submit fuel (aware.input.symm (.client session clientSeq cmd)))
  match result with
  | .ok (seq, outputs) => do
    Prog.update fun g => g.setFlow session flow.onAcked
    sendToCmd session (.ack clientSeq.toNat seq)
    routeEvents (outputs.map aware.output)
    pure none
  | .error e => do
    Prog.update fun g => { g with sinks := g.sinks.erase session }
    pure (some e)

/-- A client command: admit it, and sequence it or say why not. -/
def command (aware : SessionAware svc C E) (fuel : ℕ) (session clientSeq : UInt64) (cmd : C) :
    GProg svc E (Option NodeError) := do
  let g ← Prog.mem
  match (g.flowOf session).admitSeq clientSeq.toNat with
  | none => Prog.panic
  | some (verdict, flow) => do
    Prog.update fun g => g.setFlow session flow
    match verdict with
    | .accept => sequenceCmd aware fuel session clientSeq cmd flow
    | .duplicate => do
      sendToCmd session (.rejected clientSeq.toNat .duplicate)
      pure none
    | .gap expected => do
      sendToCmd session (.rejected clientSeq.toNat (.gap expected))
      pure none
    | .throttled => do
      sendToCmd session (.rejected clientSeq.toNat .throttled)
      pure none

/-- The command connection dropped: the close is itself a sequenced input. -/
def close (aware : SessionAware svc C E) (fuel : ℕ) (session : UInt64) :
    GProg svc E (Option NodeError) := do
  Prog.update fun g => g.dropCmd session
  let result ← onNode (Node.submit fuel (aware.input.symm (.sessionClosed session)))
  match result with
  | .ok (_, outputs) => do
    routeEvents (outputs.map aware.output)
    pure none
  | .error e => pure (some e)

/-- One round of `sequencer_loop`. Returns the error of a failed submission. -/
def serve (aware : SessionAware svc C E) (fuel : ℕ) : Req C → GProg svc E (Option NodeError)
  | .attach session fromEventSeq sink => do
    attach session fromEventSeq sink
    pure none
  | .watch session fromEventSeq sink => do
    watch session fromEventSeq sink
    pure none
  | .cmd session clientSeq cmd => command aware fuel session clientSeq cmd
  | .close session => close aware fuel session

end Sequencer

end Ticktape.Gateway
