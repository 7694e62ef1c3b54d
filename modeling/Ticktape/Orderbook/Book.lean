import Ticktape.Core.Service
import Std.Data.ExtTreeMap.Lemmas

/-!
# The order book

A price-time-priority central limit order book as a service (`examples/orderbook/src/lib.rs`): two sides of
price levels, each level a queue, and an index from the resting orders to where they sit.

An `expect` that fails is `none`. The loop over the opposite levels is run with fuel. The share counters wrap, as
they do in a release build.
-/

namespace Ticktape.Orderbook

open Ticktape.Lib Ticktape.Core Std

/-! ## Data -/

inductive Side where
  | buy
  | sell
  deriving DecidableEq, Repr

/-- The side a taker matches against. -/
def Side.opposite : Side → Side
  | .buy => .sell
  | .sell => .buy

inductive Cmd where
  | submit (id : UInt64) (side : Side) (price qty : UInt32)
  /-- A good-till-date order: a remainder that rests is cancelled when sequenced time reaches `expireAt`. -/
  | submitGtd (id : UInt64) (side : Side) (price qty : UInt32) (expireAt : UInt64)
  | cancel (id : UInt64)
  deriving DecidableEq, Repr

inductive Reject where
  | zeroQty
  /-- The id is already resting on the book. -/
  | duplicateId
  | unknownOrder
  deriving DecidableEq, Repr

inductive Evt where
  | accepted (id : UInt64)
  | trade (taker maker : UInt64) (price qty : UInt32)
  | canceled (id : UInt64) (remaining : UInt32)
  /-- A good-till-date order's resting remainder reached its deadline. -/
  | expired (id : UInt64) (remaining : UInt32)
  | rejected (id : UInt64) (reason : Reject)
  deriving DecidableEq, Repr

structure Resting where
  id : UInt64
  qty : UInt32
  deriving DecidableEq, Repr

/-- One side: the queue at each price. -/
abbrev Levels := ExtTreeMap UInt32 (List Resting)

/-- The book. Bids match from the highest price, asks from the lowest. -/
structure Book where
  bids : Levels
  asks : Levels
  /-- Where each resting order sits, for cancels and duplicate checks. -/
  index : ExtTreeMap UInt64 (Side × UInt32)
  acceptedShares : UInt64
  tradedShares : UInt64
  canceledShares : UInt64

/-- Canonical serialized book: levels in ascending price order, queues in order, and the counters. -/
structure BookSnapshot where
  bids : List (UInt32 × List (UInt64 × UInt32))
  asks : List (UInt32 × List (UInt64 × UInt32))
  acceptedShares : UInt64
  tradedShares : UInt64
  canceledShares : UInt64
  deriving DecidableEq

namespace Book

def genesis : Book := ⟨∅, ∅, ∅, 0, 0, 0⟩

/-- `side_mut`, read. -/
def side (b : Book) : Side → Levels
  | .buy => b.bids
  | .sell => b.asks

/-- `side_mut`, written. -/
def setSide (b : Book) (levels : Levels) : Side → Book
  | .buy => { b with bids := levels }
  | .sell => { b with asks := levels }

@[simp] theorem side_setSide (b : Book) (levels : Levels) (s s' : Side) :
    (b.setSide levels s).side s' = if s = s' then levels else b.side s' := by
  cases s <;> cases s' <;> rfl

@[simp] theorem setSide_index (b : Book) (levels : Levels) (s : Side) : (b.setSide levels s).index = b.index := by
  cases s <;> rfl

@[simp] theorem setSide_acceptedShares (b : Book) (levels : Levels) (s : Side) :
    (b.setSide levels s).acceptedShares = b.acceptedShares := by
  cases s <;> rfl

@[simp] theorem setSide_tradedShares (b : Book) (levels : Levels) (s : Side) :
    (b.setSide levels s).tradedShares = b.tradedShares := by
  cases s <;> rfl

@[simp] theorem setSide_canceledShares (b : Book) (levels : Levels) (s : Side) :
    (b.setSide levels s).canceledShares = b.canceledShares := by
  cases s <;> rfl

/-- Two books are equal when their sides, their indexes and their counters are. -/
theorem ext_side {b b' : Book} (hside : ∀ s, b.side s = b'.side s) (hindex : b.index = b'.index)
    (haccepted : b.acceptedShares = b'.acceptedShares) (htraded : b.tradedShares = b'.tradedShares)
    (hcanceled : b.canceledShares = b'.canceledShares) : b = b' := by
  have hbids := hside .buy
  have hasks := hside .sell
  cases b
  cases b'
  simp only [side] at hbids hasks
  simp only at hindex haccepted htraded hcanceled
  subst hbids hasks hindex haccepted htraded hcanceled
  rfl

/-! ## Filling a level -/

/-- What filling leaves of one queue: the makers left, the taker's remainder, the shares traded, the trades, and
the makers that were used up. -/
structure QueueFill where
  level : List Resting
  qty : UInt32
  traded : UInt64
  trades : List Evt
  filledIds : List UInt64

/-- The loop of `fill_level`: fill first-in-first-out until the taker or the queue is used up. -/
def fillQueue (price : UInt32) (taker : UInt64) : UInt32 → List Resting → QueueFill
  | qty, [] => ⟨[], qty, 0, [], []⟩
  | qty, maker :: level =>
    if qty = 0 then ⟨maker :: level, qty, 0, [], []⟩
    else
      let fill := min qty maker.qty
      if maker.qty - fill = 0 then
        let rest := fillQueue price taker (qty - fill) level
        { rest with
          traded := fill.toUInt64 + rest.traded
          trades := .trade taker maker.id price fill :: rest.trades
          filledIds := maker.id :: rest.filledIds }
      else
        -- a maker is left over: the taker is used up, and the loop ends
        ⟨{ maker with qty := maker.qty - fill } :: level, qty - fill, fill.toUInt64,
          [.trade taker maker.id price fill], []⟩

/-- What matching leaves: the book, the taker's remainder, and what it handed to the context. -/
structure Matched where
  book : Book
  qty : UInt32
  outputs : List Evt
  timers : List TimerReq

/-- The levels once the queue at `price` was changed: an emptied level is removed. -/
def putLevel (levels : Levels) (price : UInt32) (level : List Resting) : Levels :=
  if level.isEmpty then levels.erase price else levels.insert price level

/-- Fill against the level at `price`. -/
def fillLevel (b : Book) (makerSide : Side) (price : UInt32) (taker : UInt64) (qty : UInt32) : Option Matched :=
  match (b.side makerSide)[price]? with
  | none => none
  | some level =>
    let fill := fillQueue price taker qty level
    some ⟨{ b with
      tradedShares := b.tradedShares + fill.traded
      index := fill.filledIds.foldl (fun index id => index.erase id) b.index }.setSide
        (putLevel (b.side makerSide) price fill.level) makerSide,
      fill.qty, fill.trades, fill.filledIds.map .cancel⟩

/-! ## Matching -/

/-- The best price of a side: the lowest ask, the highest bid. -/
def best (levels : Levels) : Side → Option UInt32
  | .buy => levels.keys.getLast?
  | .sell => levels.keys.head?

/-- The price of a maker is worse than the taker's limit. -/
def beyond (price limit : UInt32) : Side → Bool
  | .buy => price < limit
  | .sell => price > limit

/-- Match a taker against the makers of a side, best price first. -/
def matchAgainst (makerSide : Side) (taker : UInt64) (limit : UInt32) : ℕ → Book → UInt32 → Option Matched
  | fuel, b, qty =>
    if qty = 0 then some ⟨b, qty, [], []⟩
    else
      match best (b.side makerSide) makerSide with
      | none => some ⟨b, qty, [], []⟩
      | some price =>
        if beyond price limit makerSide then some ⟨b, qty, [], []⟩
        else
          match fuel with
          | 0 => none
          | fuel + 1 => do
            let filled ← b.fillLevel makerSide price taker qty
            let rest ← matchAgainst makerSide taker limit fuel filled.book filled.qty
            some ⟨rest.book, rest.qty, filled.outputs ++ rest.outputs, filled.timers ++ rest.timers⟩

/-- Match a buy taker against asks, lowest price first. -/
def matchAgainstAsks (b : Book) (taker : UInt64) (limit qty : UInt32) : Option Matched :=
  matchAgainst .sell taker limit b.asks.size b qty

/-- Match a sell taker against bids, highest price first. -/
def matchAgainstBids (b : Book) (taker : UInt64) (limit qty : UInt32) : Option Matched :=
  matchAgainst .buy taker limit b.bids.size b qty

/-- Match a taker against the other side. -/
def matchTaker (b : Book) (id : UInt64) (side : Side) (price qty : UInt32) : Option Matched :=
  match side with
  | .buy => b.matchAgainstAsks id price qty
  | .sell => b.matchAgainstBids id price qty

/-! ## Commands -/

/-- A remainder comes to rest at the end of its queue. -/
def rest (b : Book) (id : UInt64) (side : Side) (price qty : UInt32) : Book :=
  { b with index := b.index.insert id (side, price) }.setSide
    ((b.side side).insert price ((b.side side).getD price [] ++ [(⟨id, qty⟩ : Resting)])) side

/-- The expiry timer of a good-till-date order, keyed by the order id. -/
def expiryTimer (id : UInt64) : Option UInt64 → List TimerReq
  | some deadline => [.set id deadline]
  | none => []

def submit (b : Book) (id : UInt64) (side : Side) (price qty : UInt32) (expireAt : Option UInt64) :
    Option (Step Book Evt) :=
  if qty = 0 then some ⟨b, [.rejected id .zeroQty], []⟩
  else if id ∈ b.index then some ⟨b, [.rejected id .duplicateId], []⟩
  else do
    let matched ← { b with acceptedShares := b.acceptedShares + qty.toUInt64 }.matchTaker id side price qty
    if matched.qty > 0 then
      -- only a remainder that rests arms its expiry timer
      some ⟨matched.book.rest id side price matched.qty, .accepted id :: matched.outputs,
        matched.timers ++ expiryTimer id expireAt⟩
    else some ⟨matched.book, .accepted id :: matched.outputs, matched.timers⟩

/-- Take a resting order that the index knows off the book: the shared part of a cancel and of an expiry. -/
def withdraw (b : Book) (id : UInt64) (side : Side) (price : UInt32) : Option (Resting × Book) :=
  match (b.side side)[price]? with
  | none => none
  | some level =>
    match level.find? (·.id = id) with
    | none => none
    | some order =>
      some (order, { b with
        index := b.index.erase id
        canceledShares := b.canceledShares + order.qty.toUInt64 }.setSide
          (putLevel (b.side side) price (level.eraseP (·.id = id))) side)

def cancel (b : Book) (id : UInt64) : Option (Step Book Evt) :=
  match b.index[id]? with
  | none => some ⟨b, [.rejected id .unknownOrder], []⟩
  | some (side, price) => do
    let (order, b) ← b.withdraw id side price
    some ⟨b, [.canceled id order.qty], [.cancel id]⟩

/-- A good-till-date order's expiry timer fired; `id` doubles as the timer id. -/
def onTimer (b : Book) (id : UInt64) : Option (Step Book Evt) :=
  match b.index[id]? with
  | none => some ⟨b, [], []⟩
  | some (side, price) => do
    let (order, b) ← b.withdraw id side price
    some ⟨b, [.expired id order.qty], []⟩

def apply (b : Book) : Cmd → Option (Step Book Evt)
  | .submit id side price qty => b.submit id side price qty none
  | .submitGtd id side price qty expireAt => b.submit id side price qty (some expireAt)
  | .cancel id => b.cancel id

/-! ## Snapshots -/

/-- One side, in ascending price order. -/
def serialize (levels : Levels) : List (UInt32 × List (UInt64 × UInt32)) :=
  levels.toList.map fun l => (l.1, l.2.map fun o => (o.id, o.qty))

def snapshot (b : Book) : BookSnapshot :=
  ⟨serialize b.bids, serialize b.asks, b.acceptedShares, b.tradedShares, b.canceledShares⟩

/-- Put one serialized level back. -/
def restoreLevel (side : Side) (b : Book) (l : UInt32 × List (UInt64 × UInt32)) : Book :=
  { b with index := l.2.foldl (fun index (o : UInt64 × UInt32) => index.insert o.1 (side, l.1)) b.index }.setSide
    ((b.side side).insert l.1 (l.2.map fun (o : UInt64 × UInt32) => (⟨o.1, o.2⟩ : Resting))) side

/-- Put the serialized levels of one side back. -/
def restoreSide (side : Side) (b : Book) (levels : List (UInt32 × List (UInt64 × UInt32))) : Book :=
  levels.foldl (restoreLevel side) b

def restore (snap : BookSnapshot) : Book :=
  restoreSide .sell
    (restoreSide .buy ⟨∅, ∅, ∅, snap.acceptedShares, snap.tradedShares, snap.canceledShares⟩ snap.bids) snap.asks

/-! ## Queries -/

def bestBid (b : Book) : Option UInt32 := best b.bids .buy

def bestAsk (b : Book) : Option UInt32 := best b.asks .sell

/-- The orders resting on one side. -/
def resting (levels : Levels) : List Resting := levels.toList.flatMap (·.2)

/-- Total shares resting on the book. -/
def restingShares (b : Book) : UInt64 := ((resting b.bids ++ resting b.asks).map (·.qty.toUInt64)).foldl (· + ·) 0

/-- The orders of one level are in order: none is used up, and the index knows where each of them sits. -/
def checkOrders (b : Book) (side : Side) (price : UInt32) : List Resting → Except String Unit
  | [] => .ok ()
  | order :: rest =>
    if order.qty = 0 then .error s!"zero-qty order {order.id} resting at {price}"
    else if b.index[order.id]? ≠ some (side, price) then .error s!"index out of sync for order {order.id}"
    else checkOrders b side price rest

/-- The levels of one side are in order. -/
def checkLevels (b : Book) (side : Side) : List (UInt32 × List Resting) → Except String Unit
  | [] => .ok ()
  | (price, level) :: rest =>
    if level.isEmpty then .error s!"empty level left at price {price}"
    else do
      checkOrders b side price level
      checkLevels b side rest

/-- The book is never crossed, every accepted share is accounted for, and index and book agree. -/
def check (b : Book) : Except String Unit := do
  match b.bestBid, b.bestAsk with
  | some bid, some ask =>
    if bid ≥ ask then .error s!"crossed book: best bid {bid} >= best ask {ask}" else .ok ()
  | _, _ => .ok ()
  if b.acceptedShares ≠ 2 * b.tradedShares + b.canceledShares + b.restingShares then
    .error s!"share conservation broken: accepted {b.acceptedShares} != 2*traded {b.tradedShares} + canceled {b.canceledShares} + resting {b.restingShares}"
  else .ok ()
  checkLevels b .buy b.bids.toList
  checkLevels b .sell b.asks.toList
  let counted := (resting b.bids ++ resting b.asks).length
  if counted ≠ b.index.size then .error s!"index has {b.index.size} entries but book holds {counted} orders"
  else .ok ()

end Book

end Ticktape.Orderbook
