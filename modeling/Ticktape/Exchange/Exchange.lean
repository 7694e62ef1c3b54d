import Ticktape.Gateway.Wire
import Ticktape.Orderbook.Codec
import Std.Data.ExtTreeSet.Lemmas

/-!
# The exchange

The order book wrapped in sessions (`examples/exchange/src/lib.rs`): who owns a resting order, which command numbers
of a session were applied, cancel-on-disconnect, and the addressing of events. All of it is state of the service.

The timer requests of the inner book are dropped, as in the source: a good-till-date order never expires here.
-/

namespace Ticktape

open Ticktape.Lib Ticktape.Core Ticktape.Orderbook Ticktape.Gateway Std

/-- The exchange. -/
structure Exchange where
  book : Book
  /-- Owner of every currently resting order. -/
  owners : ExtTreeMap UInt64 UInt64
  /-- Reverse index for cancel-on-disconnect. -/
  owned : ExtTreeMap UInt64 (ExtTreeSet UInt64)
  /-- Highest client number applied per session. -/
  lastClientSeq : ExtTreeMap UInt64 UInt64

namespace Exchange

/-- Book snapshot, ownership and dedup state. -/
abbrev Snapshot := Bytes × List (UInt64 × UInt64) × List (UInt64 × UInt64)

/-- What an input leaves: the exchange and what it emitted. -/
abbrev Answer := Exchange × List (Addressed Evt)

def genesis : Exchange := ⟨.genesis, ∅, ∅, ∅⟩

/-- The orders a session owns. -/
def ownedBy (x : Exchange) (session : UInt64) : ExtTreeSet UInt64 := x.owned.getD session ∅

/-- Drive the inner book. Its timer requests are dropped. -/
def runBook (x : Exchange) (cmd : Cmd) : Option (Exchange × List Evt) :=
  (x.book.apply cmd).map fun step => ({ x with book := step.state }, step.outputs)

/-! ## Ownership -/

/-- An order comes to rest. -/
def own (x : Exchange) (id session : UInt64) : Exchange :=
  { x with
    owners := x.owners.insert id session
    owned := x.owned.insert session ((x.ownedBy session).insert id) }

/-- An order has left the book. -/
def disown (x : Exchange) (id : UInt64) : Exchange :=
  match x.owners[id]? with
  | none => x
  | some owner =>
    { x with
      owners := x.owners.erase id
      owned :=
        match x.owned[owner]? with
        | none => x.owned
        | some ids => x.owned.insert owner (ids.erase id) }

/-- Address one book event to every interested session and keep the ownership indexes in sync with residency. -/
def route (x : Exchange) (origin : UInt64) (event : Evt) : Answer :=
  match event with
  | .accepted id => (if id ∈ x.book.index then x.own id origin else x, [⟨origin, event⟩])
  | .trade _ maker _ _ =>
    (if maker ∈ x.book.index then x else x.disown maker,
      ⟨origin, event⟩ ::
        match x.owners[maker]? with
        | some owner => if owner ≠ origin then [⟨owner, event⟩] else []
        | none => [])
  | .canceled id _ | .expired id _ => (x.disown id, [⟨origin, event⟩])
  | .rejected _ _ => (x, [⟨origin, event⟩])

def routeAll (x : Exchange) (origin : UInt64) : List Evt → Answer
  | [] => (x, [])
  | event :: events =>
    let routed := x.route origin event
    let rest := routeAll routed.1 origin events
    (rest.1, routed.2 ++ rest.2)

/-! ## Inputs -/

/-- Whether a command may not pass: only the owner of a resting order may cancel it. -/
def forbidden (x : Exchange) (session : UInt64) : Cmd → Option UInt64
  | .cancel id => if x.owners[id]? ≠ some session then some id else none
  | _ => none

def applyClient (x : Exchange) (session clientSeq : UInt64) (cmd : Cmd) : Option Answer :=
  let last := x.lastClientSeq.getD session 0
  if clientSeq ≤ last then
    -- a duplicate has no effect, but the session has an entry from now on
    some ({ x with lastClientSeq := x.lastClientSeq.insert session last }, [])
  else
    let x := { x with lastClientSeq := x.lastClientSeq.insert session clientSeq }
    match x.forbidden session cmd with
    | some id => some (x, [⟨session, .rejected id .unknownOrder⟩])
    | none => (x.runBook cmd).map fun driven => driven.1.routeAll session driven.2

/-- Cancel orders one after the other on behalf of a session that is gone. -/
def cancelAll (session : UInt64) : List UInt64 → Exchange → Option Answer
  | [], x => some (x, [])
  | id :: ids, x => do
    let driven ← x.runBook (.cancel id)
    let routed := driven.1.routeAll session driven.2
    let rest ← cancelAll session ids routed.1
    some (rest.1, routed.2 ++ rest.2)

/-- Cancel-on-disconnect: pull every resting order the session owns, in order of their ids. -/
def closeSession (x : Exchange) (session : UInt64) : Option Answer :=
  let ids := match x.owned[session]? with
    | some ids => ids.toList
    | none => []
  (cancelAll session ids x).map fun answer =>
    ({ answer.1 with owned := answer.1.owned.erase session }, answer.2)

def apply (x : Exchange) : GatewayInput Cmd → Option Answer
  | .client session clientSeq cmd => x.applyClient session clientSeq cmd
  | .sessionClosed session => x.closeSession session

/-! ## Snapshots -/

def snapshot (x : Exchange) : Snapshot := (encode x.book.snapshot, x.owners.toList, x.lastClientSeq.toList)

/-- The reverse index of the owners. -/
def reverse (owners : List (UInt64 × UInt64)) : ExtTreeMap UInt64 (ExtTreeSet UInt64) :=
  owners.foldl (fun owned e => owned.insert e.2 ((owned.getD e.2 ∅).insert e.1)) ∅

/-- Rebuild from a snapshot; a book that does not decode panics. -/
def restore (snap : Snapshot) : Option Exchange :=
  match (decodeAll snap.1 : Except CodecError BookSnapshot) with
  | .error _ => none
  | .ok book =>
    let owners := insertAll ∅ snap.2.1
    some ⟨.restore book, owners, reverse owners.toList, insertAll ∅ snap.2.2⟩

/-- The last number of each session, for a gateway that restarts. -/
def sessions (x : Exchange) : List (UInt64 × UInt64) := x.lastClientSeq.toList

/-! ## The check -/

/-- Every owned order rests, and its owner knows it. -/
def checkOwners (x : Exchange) : List (UInt64 × UInt64) → Except String Unit
  | [] => .ok ()
  | (id, owner) :: rest =>
    if id ∉ x.book.index then .error s!"owner map holds departed order {id}"
    else if id ∉ x.ownedBy owner then .error s!"reverse ownership index missing order {id}"
    else checkOwners x rest

def check (x : Exchange) : Except String Unit := do
  x.book.check
  checkOwners x x.owners.toList
  if x.owners.size ≠ x.book.index.size then
    .error s!"{x.owners.size} owners for {x.book.index.size} resting orders"
  else .ok ()
  if (x.owned.toList.map (·.2.size)).sum ≠ x.owners.size then .error "reverse ownership index out of sync"
  else .ok ()

/-! ## Runs -/

/-- Inputs in order: what each emitted, and the exchange after them. -/
def run : Exchange → List (GatewayInput Cmd) → Option (Exchange × List (List (Addressed Evt)))
  | x, [] => some (x, [])
  | x, input :: inputs => do
    let answer ← x.apply input
    let rest ← run answer.1 inputs
    some (rest.1, answer.2 :: rest.2)

end Exchange

end Ticktape
