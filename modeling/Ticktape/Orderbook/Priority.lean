import Ticktape.Lib.Greedy
import Ticktape.Lib.StableSort
import Ticktape.Orderbook.Book

/-!
# Price-time priority

What the book is for: a market is its resting orders in the order they came to rest. A taker is allocated along the
opposite orders within its limit, sorted by price and, at one price, by arrival. There are no levels and no index
here, and no order is found by searching.
-/

namespace Ticktape.Orderbook

open Ticktape.Lib Ticktape.Core

/-- A resting order, with the expiry it was submitted with. -/
structure Order where
  id : UInt64
  side : Side
  price : UInt32
  qty : ℕ
  expiry : Option UInt64
  deriving DecidableEq

/-- The better the price of a maker on a side, the smaller its rank. -/
def rank : Side → UInt32 → ℤ
  | .buy, price => -price.toNat
  | .sell, price => price.toNat

theorem rank_inj {s : Side} {p q : UInt32} : rank s p = rank s q ↔ p = q := by
  rw [← UInt32.toNat_inj]
  cases s <;> simp only [rank] <;> omega

namespace Market

/-- The makers within a taker's limit. -/
def within (maker : Side) (limit : UInt32) (l : List Order) : List Order :=
  l.filter fun o => o.side = maker ∧ rank maker o.price ≤ rank maker limit

/-- **Price-time priority**: by price, and in order of arrival at one price. -/
def queue (maker : Side) (limit : UInt32) (l : List Order) : List Order :=
  sortBy (fun o => rank maker o.price) (within maker limit l)

/-- What a taker is given, and by whom. -/
def fills (maker : Side) (limit : UInt32) (qty : ℕ) (l : List Order) : List (Order × ℕ) :=
  allocate Order.qty qty (queue maker limit l)

/-- An order less what it gave. -/
def after (f : List (Order × ℕ)) (o : Order) : Order := { o with qty := o.qty - amount Order.id f o.id }

/-- The orders that are left once each has given what it gave. -/
def reduce (f : List (Order × ℕ)) (l : List Order) : List Order := (l.map (after f)).filter (0 < ·.qty)

/-- The orders that gave everything they had. -/
def exhausted (f : List (Order × ℕ)) : List UInt64 := (f.filter fun p => p.2 = p.1.qty).map fun p => p.1.id

/-- A trade at the maker's price. -/
def trade (taker : UInt64) (p : Order × ℕ) : Evt := .trade taker p.1.id p.1.price (UInt32.ofNat p.2)

/-- The expiry timer of an order that rests. -/
def arm (o : Order) : List TimerReq := Book.expiryTimer o.id o.expiry

/-- Submit an order: it is allocated, and what is not filled comes to rest. -/
def submit (l : List Order) (id : UInt64) (side : Side) (price qty : UInt32) (expiry : Option UInt64) :
    Step (List Order) Evt :=
  if qty = 0 then ⟨l, [.rejected id .zeroQty], []⟩
  else if ∃ o ∈ l, o.id = id then ⟨l, [.rejected id .duplicateId], []⟩
  else
    let f := fills side.opposite price qty.toNat l
    let remainder : List Order :=
      if given f < qty.toNat then [⟨id, side, price, qty.toNat - given f, expiry⟩] else []
    ⟨reduce f l ++ remainder, .accepted id :: f.map (trade id),
      (exhausted f).map .cancel ++ remainder.flatMap arm⟩

/-- Take an order out of the market. -/
def remove (l : List Order) (id : UInt64) : List Order := l.filter (·.id ≠ id)

def cancel (l : List Order) (id : UInt64) : Step (List Order) Evt :=
  match l.find? (·.id = id) with
  | none => ⟨l, [.rejected id .unknownOrder], []⟩
  | some o => ⟨remove l id, [.canceled id (UInt32.ofNat o.qty)], [.cancel id]⟩

def expire (l : List Order) (id : UInt64) : Step (List Order) Evt :=
  match l.find? (·.id = id) with
  | none => ⟨l, [], []⟩
  | some o => ⟨remove l id, [.expired id (UInt32.ofNat o.qty)], []⟩

def apply (l : List Order) : Cmd → Step (List Order) Evt
  | .submit id side price qty => submit l id side price qty none
  | .submitGtd id side price qty expireAt => submit l id side price qty (some expireAt)
  | .cancel id => cancel l id

/-! ## Reducing -/

variable {f g : List (Order × ℕ)} {l : List Order} {o : Order} {maker : Side} {limit price : UInt32} {id : UInt64}

@[simp] theorem after_id : (after f o).id = o.id := rfl

@[simp] theorem after_side : (after f o).side = o.side := rfl

@[simp] theorem after_price : (after f o).price = o.price := rfl

@[simp] theorem after_expiry : (after f o).expiry = o.expiry := rfl

/-- Giving twice is giving both. -/
theorem after_append : after (f ++ g) o = after g (after f o) := by
  simp only [after, amount_append, Nat.sub_sub]

/-- An order that gave nothing is as it was. -/
theorem after_of_ne (h : ∀ p ∈ f, p.1.id ≠ o.id) : after f o = o := by
  rw [after, amount_eq_zero h, Nat.sub_zero]

theorem mem_reduce : o ∈ reduce f l ↔ ∃ o' ∈ l, after f o' = o ∧ 0 < o.qty := by
  simp only [reduce, List.mem_filter, List.mem_map, decide_eq_true_eq]
  constructor
  · rintro ⟨⟨o', hmem, rfl⟩, hpos⟩
    exact ⟨o', hmem, rfl, hpos⟩
  · rintro ⟨o', hmem, rfl, hpos⟩
    exact ⟨⟨o', hmem, rfl⟩, hpos⟩

theorem reduce_cons : reduce f (o :: l) = (if 0 < (after f o).qty then [after f o] else []) ++ reduce f l := by
  rw [reduce, List.map_cons, List.filter_cons]
  by_cases h : 0 < (after f o).qty <;> simp [h, reduce]

/-- Reducing twice is reducing by both: an order that gave everything is gone, and one that is gone gives nothing. -/
theorem reduce_append : reduce (f ++ g) l = reduce g (reduce f l) := by
  induction l with
  | nil => rfl
  | cons o l ih =>
    rw [reduce_cons, reduce_cons, ih, after_append]
    by_cases h : 0 < (after f o).qty
    · rw [if_pos h, List.singleton_append, reduce_cons]
    · have hzero : (after f o).qty = 0 := by omega
      have hnone : (after g (after f o)).qty = 0 := by
        show (after f o).qty - _ = 0
        rw [hzero, Nat.zero_sub]
      rw [if_neg h, if_neg (by omega)]
      rfl

/-- Orders that gave nothing stay. -/
theorem reduce_of_ne (hpos : ∀ o ∈ l, 0 < o.qty) (h : ∀ o ∈ l, ∀ p ∈ f, p.1.id ≠ o.id) : reduce f l = l := by
  have hmap : l.map (after f) = l := by
    have hself : l.map (after f) = l.map id := List.map_congr_left fun o ho => after_of_ne (h o ho)
    rw [hself, List.map_id]
  rw [reduce, hmap, List.filter_eq_self]
  exact fun o ho => decide_eq_true (hpos o ho)

@[simp] theorem reduce_nil (hpos : ∀ o ∈ l, 0 < o.qty) : reduce [] l = l :=
  reduce_of_ne hpos fun _ _ _ hp => by cases hp

/-- Reducing keeps the order of arrival. -/
theorem reduce_ids : ((reduce f l).map Order.id).Sublist (l.map Order.id) := by
  have hsub : (reduce f l).Sublist (l.map (after f)) := List.filter_sublist
  have hids := hsub.map Order.id
  rwa [List.map_map] at hids

theorem reduce_pos (h : o ∈ reduce f l) : 0 < o.qty := by
  obtain ⟨-, -, -, hpos⟩ := mem_reduce.mp h
  exact hpos

/-- Reducing commutes with choosing by what an order keeps. -/
theorem filter_reduce {P : Order → Bool} (h : ∀ o, P (after f o) = P o) :
    (reduce f l).filter P = reduce f (l.filter P) := by
  induction l with
  | nil => rfl
  | cons o l ih =>
    rw [reduce_cons, List.filter_append, ih, List.filter_cons]
    by_cases hp : P o = true
    · rw [if_pos hp, reduce_cons]
      split
      · rw [List.filter_cons_of_pos ((h o).trans hp)]
        rfl
      · rfl
    · rw [if_neg hp]
      split
      · rw [List.filter_cons_of_neg (fun hp' => hp ((h o).symm.trans hp'))]
        rfl
      · rfl

end Market

end Ticktape.Orderbook
