import Ticktape.Orderbook.Matching

/-!
# Runs of the book

Every command and every timer does to the book what it does to the market it stands for, so over any run the book
answers as the market does and never panics. What `check` looks for then follows: a remainder rests only once nothing
within its limit is left, so the book is never crossed; and every share that was accepted is traded on both sides,
canceled or resting.
-/

namespace Ticktape.Orderbook

open Ticktape.Lib Ticktape.Core Std
open Market (exhausted)

/-! ## Shares -/

section Shares

variable {l : List Order} {f : List (Order × ℕ)} {o : Order} {id : UInt64}

/-- What each order gave is within what it had. -/
theorem amount_le (h : Taken f l) (hdistinct : (l.map Order.id).Nodup) (ho : o ∈ l) :
    amount Order.id f o.id ≤ o.qty := by
  by_cases hgave : ∃ p ∈ f, p.1.id = o.id
  · obtain ⟨p, hp, hid⟩ := hgave
    have heq := eq_of_id hdistinct (h.mem p hp) ho hid
    rw [← hid, amount_of_mem h.distinct hp, ← heq]
    exact h.le p hp
  · rw [amount_eq_zero fun p hp hid => hgave ⟨p, hp, hid⟩]
    exact Nat.zero_le _

/-- **Shares that are given** leave the market, and no others. -/
theorem demand_reduce (h : Taken f l) (hdistinct : (l.map Order.id).Nodup) :
    demand Order.qty (Market.reduce f l) + given f = demand Order.qty l := by
  have hids : ∀ p ∈ f, p.1.id ∈ l.map Order.id := fun p hp => List.mem_map.mpr ⟨p.1, h.mem p hp, rfl⟩
  have hle : ∀ o ∈ l, amount Order.id f o.id ≤ o.qty := fun o ho => amount_le h hdistinct ho
  rw [← sum_amount hdistinct hids]
  clear hids hdistinct h
  induction l with
  | nil => rfl
  | cons o l ih =>
    have hqty : (Market.after f o).qty = o.qty - amount Order.id f o.id := rfl
    have hhead := hle o (List.mem_cons_self ..)
    have htail := ih fun a ha => hle a (List.mem_cons_of_mem _ ha)
    rw [Market.reduce_cons, demand_append, List.map_cons, List.map_cons, List.sum_cons, demand_cons]
    split
    · rw [demand_cons, demand_nil]
      omega
    · rw [demand_nil]
      omega

/-- The shares of an order that is taken out. -/
theorem demand_remove (hdistinct : (l.map Order.id).Nodup) (ho : o ∈ l) :
    demand Order.qty (Market.remove l o.id) + o.qty = demand Order.qty l := by
  induction l with
  | nil => cases ho
  | cons a l ih =>
    obtain ⟨hnot, hnodup⟩ := List.nodup_cons.mp hdistinct
    rw [Market.remove, List.filter_cons]
    rcases List.mem_cons.mp ho with rfl | ho
    · have hrest : l.filter (·.id ≠ o.id) = l := by
        rw [List.filter_eq_self]
        exact fun a ha => decide_eq_true fun heq => hnot (List.mem_map.mpr ⟨a, ha, heq⟩)
      simp only [ne_eq, not_true_eq_false, decide_false, Bool.false_eq_true, if_false]
      rw [hrest, demand_cons]
      omega
    · have hne : a.id ≠ o.id := fun heq => hnot (List.mem_map.mpr ⟨o, ho, heq.symm⟩)
      have htail := ih hnodup ho
      rw [if_pos (decide_eq_true hne), demand_cons, demand_cons]
      rw [Market.remove] at htail
      omega

end Shares

/-! ## Taking an order off the book -/

section Withdraw

variable {b : Book} {l : List Order} {o : Order}

/-- Shares were canceled, this many. -/
structure Cancelled (b b' : Book) (n : ℕ) : Prop where
  accepted : b'.acceptedShares = b.acceptedShares
  traded : b'.tradedShares = b.tradedShares
  canceled : b'.canceledShares = b.canceledShares + UInt64.ofNat n

theorem mem_remove {id : UInt64} : o ∈ Market.remove l id ↔ o ∈ l ∧ o.id ≠ id := by
  simp [Market.remove]

/-- Taking the first order with an id out of a queue takes the only one out. -/
theorem eraseP_resting {q : List Order} (hdistinct : (q.map Order.id).Nodup) (id : UInt64) :
    (q.map Order.resting).eraseP (·.id = id) = (Market.remove q id).map Order.resting := by
  induction q with
  | nil => rfl
  | cons a q ih =>
    obtain ⟨hnot, hnodup⟩ := List.nodup_cons.mp hdistinct
    rw [List.map_cons, List.eraseP_cons, Market.remove, List.filter_cons]
    by_cases h : a.id = id
    · have hrest : q.filter (·.id ≠ id) = q := by
        rw [List.filter_eq_self]
        exact fun o ho => decide_eq_true fun heq => hnot (List.mem_map.mpr ⟨o, ho, heq.trans h.symm⟩)
      have hself : (Order.resting a).id = id := h
      rw [if_neg (by simp [h]), hrest]
      simp [hself]
    · have hself : (Order.resting a).id ≠ id := h
      have htail := ih hnodup
      rw [Market.remove] at htail
      simp only [hself, decide_false, cond_false]
      rw [if_pos (decide_eq_true h), List.map_cons, htail]

/-- **Withdrawing an order** takes it out of the market. -/
theorem withdraw_eq (h : Represents b l) (ho : o ∈ l) :
    ∃ b', b.withdraw o.id o.side o.price = some (o.resting, b') ∧ Represents b' (Market.remove l o.id) ∧
      Cancelled b b' o.qty := by
  have hmem : o ∈ levelAt o.side o.price l := mem_levelAt.mpr ⟨ho, rfl, rfl⟩
  have hdistinct : ((levelAt o.side o.price l).map Order.id).Nodup :=
    (List.filter_sublist.map Order.id).nodup h.distinct
  have hqueue : (levelAt o.side o.price l).map Order.resting ≠ [] := by
    intro heq
    have hin := List.mem_map_of_mem (f := Order.resting) hmem
    rw [heq] at hin
    cases hin
  have hget : (b.side o.side)[o.price]? = some ((levelAt o.side o.price l).map Order.resting) := by
    rw [h.level]
    exact stored_eq_some.mpr ⟨rfl, hqueue⟩
  have hfind : ((levelAt o.side o.price l).map Order.resting).find? (·.id = o.id) = some o.resting := by
    rw [List.find?_map]
    have hfound : (levelAt o.side o.price l).find? ((fun r : Resting => decide (r.id = o.id)) ∘ Order.resting) =
        some o := by
      rw [List.find?_eq_some_iff_append]
      obtain ⟨before, rest, hsplit⟩ := List.append_of_mem hmem
      refine ⟨decide_eq_true rfl, before, rest, hsplit, fun a ha => ?_⟩
      rw [hsplit, List.map_append, List.map_cons] at hdistinct
      have hne : a.id ≠ o.id := by
        intro heq
        have hdisjoint := (List.nodup_append.mp hdistinct).2.2 a.id (List.mem_map_of_mem ha) o.id (List.mem_cons_self ..)
        exact hdisjoint heq
      have hres : (Order.resting a).id ≠ o.id := hne
      simp [hres]
    rw [hfound]
    rfl
  have hcomm : ∀ s p, levelAt s p (Market.remove l o.id) = Market.remove (levelAt s p l) o.id := by
    intro s p
    simp only [levelAt, Market.remove, List.filter_filter, Bool.and_comm]
  have hqty : (Order.resting o).qty.toUInt64 = UInt64.ofNat o.qty := UInt32.toUInt64_ofNat' (h.live o ho).2
  refine ⟨{ b with
    index := b.index.erase o.id
    canceledShares := b.canceledShares + UInt64.ofNat o.qty }.setSide (Book.putLevel (b.side o.side) o.price
      ((Market.remove (levelAt o.side o.price l) o.id).map Order.resting)) o.side, ?_,
    ⟨?_, ?_, fun s p => ?_, fun id s p => ?_⟩, ?_⟩
  · rw [Book.withdraw, hget]
    simp only [hfind, hqty, eraseP_resting hdistinct]
  · exact (List.filter_sublist.map Order.id).nodup h.distinct
  · exact h.live.sub fun a ha => (mem_remove.mp ha).1
  · have helsewhere : ¬(o.side = s ∧ o.price = p) → Market.remove (levelAt s p l) o.id = levelAt s p l := by
      intro hne
      rw [Market.remove, List.filter_eq_self]
      intro a ha
      obtain ⟨hal, rfl, rfl⟩ := mem_levelAt.mp ha
      refine decide_eq_true fun heq => hne ?_
      rw [eq_of_id h.distinct hal ho heq]
      exact ⟨rfl, rfl⟩
    rw [hcomm, Book.side_setSide]
    by_cases hs : o.side = s
    · rw [if_pos hs, getElem?_putLevel]
      by_cases hp : o.price = p
      · rw [if_pos hp, hs, hp]
      · rw [if_neg hp, helsewhere fun heq => hp heq.2, hs]
        exact h.level s p
    · rw [if_neg hs, helsewhere fun heq => hs heq.1]
      exact h.level s p
  · rw [Book.setSide_index]
    show (b.index.erase o.id)[id]? = _ ↔ _
    have hcompare : compare o.id id = .eq ↔ o.id = id := LawfulEqCmp.compare_eq_iff_eq
    rw [ExtTreeMap.getElem?_erase]
    simp only [hcompare, mem_remove]
    by_cases hid : o.id = id
    · simp only [if_pos hid, reduceCtorEq, false_iff]
      rintro ⟨a, ⟨-, hne⟩, heq, -⟩
      exact hne (heq.trans hid.symm)
    · rw [if_neg hid, h.index]
      refine exists_congr fun a => ?_
      constructor
      · rintro ⟨ha, rfl, hrest⟩
        exact ⟨⟨ha, Ne.symm hid⟩, rfl, hrest⟩
      · rintro ⟨⟨ha, -⟩, hrest⟩
        exact ⟨ha, hrest⟩
  · exact ⟨by simp, by simp, by simp⟩

end Withdraw

/-! ## Commands -/

namespace Market

/-- **No crossed book**: every bid is below every ask. -/
def Uncrossed (l : List Order) : Prop := ∀ a ∈ l, ∀ o ∈ l, a.side = .buy → o.side = .sell → a.price < o.price

end Market

/-- **Share conservation**: every accepted share was traded, on both sides, or canceled, or is resting. -/
def Conserved (b : Book) (l : List Order) : Prop :=
  b.acceptedShares = 2 * b.tradedShares + b.canceledShares + UInt64.ofNat (demand Order.qty l)

/-- The book stands for a market that is not crossed, and its counters add up. -/
structure Sound (b : Book) (l : List Order) : Prop extends Represents b l where
  uncrossed : Market.Uncrossed l
  conserved : Conserved b l

section Commands

variable {b : Book} {l : List Order} {f : List (Order × ℕ)} {side : Side} {price qty : UInt32} {id : UInt64}
  {expiry : Option UInt64}

theorem mem_index (h : Represents b l) : id ∈ b.index ↔ ∃ o ∈ l, o.id = id := by
  rw [ExtTreeMap.mem_iff_isSome_getElem?, Option.isSome_iff_exists]
  constructor
  · rintro ⟨⟨s, p⟩, hget⟩
    obtain ⟨o, ho, hid, -⟩ := (h.index id s p).mp hget
    exact ⟨o, ho, hid⟩
  · rintro ⟨o, ho, hid⟩
    exact ⟨(o.side, o.price), (h.index id _ _).mpr ⟨o, ho, hid, rfl, rfl⟩⟩

/-- What is given to a taker is taken from the market. -/
theorem taken_fills {maker : Side} {limit : UInt32} {n : ℕ} (hdistinct : (l.map Order.id).Nodup) :
    Taken (Market.fills maker limit n l) l := by
  apply taken_allocate
  · intro o ho
    exact (List.mem_filter.mp ((sortBy_perm _).mem_iff.mp ho)).1
  · exact ((sortBy_perm _).map Order.id).nodup_iff.mpr ((List.filter_sublist.map Order.id).nodup hdistinct)

/-- An order that is not filled finds nothing left within its limit. -/
theorem beyond_of_left {maker : Side} {limit : UInt32} {n : ℕ} (hdistinct : (l.map Order.id).Nodup) (hlive : Live l)
    (hleft : given (Market.fills maker limit n l) < n) {o : Order}
    (ho : o ∈ Market.reduce (Market.fills maker limit n l) l) (hside : o.side = maker) :
    rank maker limit < rank maker o.price := by
  have hmem : ∀ a, a ∈ Market.queue maker limit l ↔ a ∈ Market.within maker limit l := fun a =>
    (sortBy_perm _).mem_iff
  have hids : ((Market.queue maker limit l).map Order.id).Nodup :=
    ((sortBy_perm _).map Order.id).nodup_iff.mpr ((List.filter_sublist.map Order.id).nodup hdistinct)
  have hdemand : demand Order.qty (Market.queue maker limit l) ≤ n := by
    have hgiven : given (allocate Order.qty n (Market.queue maker limit l)) =
        min n (demand Order.qty (Market.queue maker limit l)) := given_allocate _ _
    rw [Market.fills] at hleft
    omega
  have hall : Market.fills maker limit n l = (Market.queue maker limit l).map fun o => (o, o.qty) :=
    allocate_all hdemand fun a ha => (hlive a (List.mem_filter.mp ((hmem a).mp ha)).1).1
  obtain ⟨a, ha, rfl, hpos⟩ := Market.mem_reduce.mp ho
  by_contra hle
  have hwithin : a ∈ Market.queue maker limit l := by
    rw [hmem, Market.within, List.mem_filter]
    exact ⟨ha, decide_eq_true ⟨hside, Int.not_lt.mp hle⟩⟩
  rw [hall, after_all hids hwithin] at hpos
  exact Nat.lt_irrefl 0 hpos

/-- **A remainder comes to rest** behind everyone else. -/
theorem represents_rest {o : Order} (h : Represents b l) (hnew : ∀ a ∈ l, a.id ≠ o.id) (hpos : 0 < o.qty)
    (hlt : o.qty < 2 ^ 32) : Represents (b.rest o.id o.side o.price (UInt32.ofNat o.qty)) (l ++ [o]) := by
  have hqueue : (b.side o.side).getD o.price [] = (levelAt o.side o.price l).map Order.resting := by
    rw [ExtTreeMap.getD_eq_getD_getElem?, h.level, stored]
    split
    · rename_i hempty
      rw [List.isEmpty_iff.mp hempty]
      rfl
    · rfl
  refine ⟨?_, ?_, fun s p => ?_, fun id s p => ?_⟩
  · rw [List.map_append, List.nodup_append]
    refine ⟨h.distinct, List.nodup_singleton _, fun x hx y hy => ?_⟩
    obtain ⟨a, ha, rfl⟩ := List.mem_map.mp hx
    rw [List.mem_singleton.mp hy]
    exact hnew a ha
  · intro a ha
    rcases List.mem_append.mp ha with ha | ha
    · exact h.live a ha
    · rw [List.mem_singleton.mp ha]
      exact ⟨hpos, hlt⟩
  · have hlast : levelAt s p [o] = if o.side = s ∧ o.price = p then [o] else [] := by
      rw [levelAt, List.filter_cons, List.filter_nil]
      simp only [decide_eq_true_eq]
    have hcompare : compare o.price p = .eq ↔ o.price = p := LawfulEqCmp.compare_eq_iff_eq
    rw [Book.rest, Book.side_setSide, levelAt_append, hlast, hqueue]
    by_cases hs : o.side = s
    · rw [if_pos hs, ExtTreeMap.getElem?_insert]
      simp only [hcompare]
      by_cases hp : o.price = p
      · rw [if_pos hp, if_pos ⟨hs, hp⟩, hs, hp, List.map_append]
        exact (stored_eq_some.mpr ⟨rfl, by simp⟩).symm
      · rw [if_neg hp, if_neg fun heq => hp heq.2, List.append_nil, hs]
        exact h.level s p
    · rw [if_neg hs, if_neg fun heq => hs heq.1, List.append_nil]
      exact h.level s p
  · have hcompare : compare o.id id = .eq ↔ o.id = id := LawfulEqCmp.compare_eq_iff_eq
    rw [Book.rest, Book.setSide_index]
    show (b.index.insert o.id (o.side, o.price))[id]? = _ ↔ _
    rw [ExtTreeMap.getElem?_insert]
    simp only [hcompare, List.mem_append, List.mem_singleton]
    by_cases hid : o.id = id
    · rw [if_pos hid, Option.some.injEq, Prod.mk.injEq]
      constructor
      · rintro ⟨hs, hp⟩
        exact ⟨o, .inr rfl, hid, hs, hp⟩
      · rintro ⟨a, ha | rfl, haid, hs, hp⟩
        · exact absurd (haid.trans hid.symm) (hnew a ha)
        · exact ⟨hs, hp⟩
    · rw [if_neg hid, h.index]
      refine exists_congr fun a => ?_
      constructor
      · rintro ⟨ha, hrest⟩
        exact ⟨.inl ha, hrest⟩
      · rintro ⟨ha | rfl, haid, hrest⟩
        · exact ⟨ha, haid, hrest⟩
        · exact absurd haid hid

/-- What is left after trading is not crossed. -/
theorem uncrossed_reduce (h : Market.Uncrossed l) : Market.Uncrossed (Market.reduce f l) := by
  intro a ha o ho hbuy hsell
  obtain ⟨a', ha', rfl, -⟩ := Market.mem_reduce.mp ha
  obtain ⟨o', ho', rfl, -⟩ := Market.mem_reduce.mp ho
  exact h a' ha' o' ho' hbuy hsell

theorem uncrossed_remove (h : Market.Uncrossed l) : Market.Uncrossed (Market.remove l id) :=
  fun a ha o ho => h a (mem_remove.mp ha).1 o (mem_remove.mp ho).1

/-- **A remainder does not cross**: nothing within its limit is left. -/
theorem uncrossed_rest {o : Order} (h : Market.Uncrossed l)
    (hbeyond : ∀ a ∈ l, a.side = o.side.opposite → rank o.side.opposite o.price < rank o.side.opposite a.price) :
    Market.Uncrossed (l ++ [o]) := by
  intro x hx y hy hbuy hsell
  rcases List.mem_append.mp hx with hx | hx <;> rcases List.mem_append.mp hy with hy | hy
  · exact h x hx y hy hbuy hsell
  · -- a bid that rests and a new ask
    rw [List.mem_singleton] at hy
    subst hy
    have hlt := hbeyond x ‹x ∈ l› (by rw [hsell]; exact hbuy)
    rw [hsell] at hlt
    simp only [Side.opposite, rank] at hlt
    rw [UInt32.lt_iff_toNat_lt]
    omega
  · -- a new bid and an ask that rests
    rw [List.mem_singleton] at hx
    subst hx
    have hlt := hbeyond y ‹y ∈ l› (by rw [hbuy]; exact hsell)
    rw [hbuy] at hlt
    simp only [Side.opposite, rank] at hlt
    rw [UInt32.lt_iff_toNat_lt]
    omega
  · obtain rfl := List.mem_singleton.mp hx
    obtain rfl := List.mem_singleton.mp hy
    rw [hbuy] at hsell
    cases hsell

/-- **A taker** is allocated along the queue of the other side. -/
theorem matchTaker_eq (id : UInt64) (side : Side) (qty : UInt32) (h : Represents b l) (limit : UInt32) :
    ∃ b', b.matchTaker id side limit qty =
        some ⟨b', UInt32.ofNat (qty.toNat - given (Market.fills side.opposite limit qty.toNat l)),
          (Market.fills side.opposite limit qty.toNat l).map (Market.trade id),
          (exhausted (Market.fills side.opposite limit qty.toNat l)).map .cancel⟩ ∧
      Represents b' (Market.reduce (Market.fills side.opposite limit qty.toNat l) l) ∧
      Traded b b' (given (Market.fills side.opposite limit qty.toNat l)) := by
  cases side with
  | buy => exact matchAgainst_eq qty h (Nat.le_refl _)
  | sell => exact matchAgainst_eq qty h (Nat.le_refl _)

/-- Accepting shares changes one counter. -/
theorem Represents.accept (h : Represents b l) (n : UInt64) : Represents { b with acceptedShares := n } l := by
  refine ⟨h.distinct, h.live, fun s p => ?_, h.index⟩
  cases s with
  | buy => exact h.level .buy p
  | sell => exact h.level .sell p

/-- The ledger after `n` shares were accepted of which `g` were traded: these count on both sides. -/
theorem Conserved.traded {b' : Book} {l' : List Order} {n g : ℕ} (h : Conserved b l)
    (htraded : Traded { b with acceptedShares := b.acceptedShares + UInt64.ofNat n } b' g)
    (hdemand : demand Order.qty l' + 2 * g = demand Order.qty l + n) : Conserved b' l' := by
  have hshares := congrArg UInt64.ofNat hdemand
  rw [UInt64.ofNat_add, UInt64.ofNat_add, UInt64.ofNat_mul] at hshares
  have htwo : UInt64.ofNat 2 = 2 := rfl
  rw [htwo] at hshares
  rw [Conserved] at h ⊢
  rw [htraded.accepted, htraded.traded, htraded.canceled]
  show b.acceptedShares + UInt64.ofNat n = 2 * (b.tradedShares + UInt64.ofNat g) + b.canceledShares + _
  grind

/-- The ledger after an order was canceled. -/
theorem Conserved.cancelled {b' : Book} {l' : List Order} {n : ℕ} (h : Conserved b l) (hcancelled : Cancelled b b' n)
    (hdemand : demand Order.qty l' + n = demand Order.qty l) : Conserved b' l' := by
  have hshares := congrArg UInt64.ofNat hdemand
  rw [UInt64.ofNat_add] at hshares
  rw [Conserved] at h ⊢
  rw [hcancelled.accepted, hcancelled.traded, hcancelled.canceled]
  grind

/-- **A submission** does to the book what it does to the market. -/
theorem submit_eq (h : Sound b l) (id : UInt64) (side : Side) (price qty : UInt32) (expiry : Option UInt64) :
    ∃ b', b.submit id side price qty expiry = some ⟨b', (Market.submit l id side price qty expiry).outputs,
      (Market.submit l id side price qty expiry).timers⟩ ∧
      Sound b' (Market.submit l id side price qty expiry).state := by
  unfold Book.submit
  rw [Market.submit]
  by_cases hzero : qty = 0
  · rw [if_pos hzero, if_pos hzero]
    exact ⟨b, rfl, h⟩
  · rw [if_neg hzero, if_neg hzero]
    by_cases hdup : ∃ o ∈ l, o.id = id
    · rw [if_pos ((mem_index h.toRepresents).mpr hdup), if_pos hdup]
      exact ⟨b, rfl, h⟩
    · rw [if_neg fun hmem => hdup ((mem_index h.toRepresents).mp hmem), if_neg hdup]
      obtain ⟨b', hmatch, hrepresents, htraded⟩ := matchTaker_eq id side qty
        (h.toRepresents.accept (b.acceptedShares + qty.toUInt64)) price
      have htaken : Taken (Market.fills side.opposite price qty.toNat l) l := taken_fills h.distinct
      have hdemand := demand_reduce htaken h.distinct
      have hgiven : given (Market.fills side.opposite price qty.toNat l) ≤ qty.toNat := by
        rw [Market.fills, given_allocate]
        exact Nat.min_le_left ..
      have hleft : (UInt32.ofNat (qty.toNat - given (Market.fills side.opposite price qty.toNat l))).toNat =
          qty.toNat - given (Market.fills side.opposite price qty.toNat l) :=
        UInt32.toNat_ofNat_of_lt' (Nat.lt_of_le_of_lt (Nat.sub_le ..) qty.toNat_lt)
      have hshares : qty.toUInt64 = UInt64.ofNat qty.toNat := by
        rw [← UInt32.toUInt64_ofNat' qty.toNat_lt, UInt32.ofNat_toNat]
      simp only [hmatch, Option.bind_eq_bind, Option.bind_some]
      by_cases hrest : given (Market.fills side.opposite price qty.toNat l) < qty.toNat
      · -- a remainder rests
        have hpos : UInt32.ofNat (qty.toNat - given (Market.fills side.opposite price qty.toNat l)) > 0 := by
          rw [gt_iff_lt, UInt32.lt_iff_toNat_lt, hleft]
          show 0 < _
          omega
        rw [if_pos hpos, if_pos hrest, List.flatMap_singleton]
        refine ⟨_, rfl, ?_, ?_, ?_⟩
        · have hfits : qty.toNat - given (Market.fills side.opposite price qty.toNat l) < 2 ^ 32 :=
            Nat.lt_of_le_of_lt (Nat.sub_le ..) qty.toNat_lt
          refine represents_rest (o := ⟨id, side, price, qty.toNat -
            given (Market.fills side.opposite price qty.toNat l), expiry⟩) hrepresents (fun a ha heq => hdup ?_)
            (Nat.sub_pos_of_lt hrest) hfits
          obtain ⟨a', ha', rfl, -⟩ := Market.mem_reduce.mp ha
          exact ⟨a', ha', heq⟩
        · exact uncrossed_rest (uncrossed_reduce h.uncrossed) fun a ha hside =>
            beyond_of_left h.distinct h.live hrest ha hside
        · have hledger : Conserved b' (Market.reduce (Market.fills side.opposite price qty.toNat l) l ++
              [⟨id, side, price, qty.toNat - given (Market.fills side.opposite price qty.toNat l), expiry⟩]) := by
            apply h.conserved.traded (hshares ▸ htraded)
            rw [demand_append, demand_cons, demand_nil]
            simp only [Nat.add_zero]
            omega
          rw [Conserved] at hledger ⊢
          rw [Book.rest, Book.setSide_acceptedShares, Book.setSide_tradedShares, Book.setSide_canceledShares]
          exact hledger
      · -- the order is filled
        have hall : given (Market.fills side.opposite price qty.toNat l) = qty.toNat := by omega
        have hnone : ¬UInt32.ofNat (qty.toNat - given (Market.fills side.opposite price qty.toNat l)) > 0 := by
          rw [gt_iff_lt, UInt32.lt_iff_toNat_lt, hleft, hall, Nat.sub_self]
          exact Nat.lt_irrefl 0
        rw [if_neg hnone, if_neg hrest, List.flatMap_nil, List.append_nil, List.append_nil]
        refine ⟨b', rfl, hrepresents, uncrossed_reduce h.uncrossed, ?_⟩
        apply h.conserved.traded (hshares ▸ htraded)
        omega

/-- The order that is found by an id. -/
theorem find?_id {o : Order} (hdistinct : (l.map Order.id).Nodup) (ho : o ∈ l) : l.find? (·.id = o.id) = some o := by
  cases hfind : l.find? (·.id = o.id) with
  | none =>
    rw [List.find?_eq_none] at hfind
    exact absurd (decide_eq_true rfl) (hfind o ho)
  | some a =>
    have hid := List.find?_some hfind
    rw [eq_of_id hdistinct (List.mem_of_find?_eq_some hfind) ho (of_decide_eq_true hid)]

/-- **Taking an order off the book**, with what is answered about it. -/
theorem withdrawn (h : Sound b l) (o : Order) (ho : o ∈ l) :
    ∃ b', b.withdraw o.id o.side o.price = some (o.resting, b') ∧ Sound b' (Market.remove l o.id) := by
  obtain ⟨b', hwithdraw, hrepresents, hcancelled⟩ := withdraw_eq h.toRepresents ho
  exact ⟨b', hwithdraw, hrepresents, uncrossed_remove h.uncrossed,
    h.conserved.cancelled hcancelled (demand_remove h.distinct ho)⟩

/-- What the index says about an id: nothing, or where its order rests. -/
theorem index_cases (h : Sound b l) (id : UInt64) :
    (b.index[id]? = none ∧ l.find? (·.id = id) = none) ∨
    ∃ o ∈ l, o.id = id ∧ b.index[id]? = some (o.side, o.price) ∧ l.find? (·.id = id) = some o := by
  by_cases hmem : ∃ o ∈ l, o.id = id
  · obtain ⟨o, ho, rfl⟩ := hmem
    exact .inr ⟨o, ho, rfl, (h.index _ _ _).mpr ⟨o, ho, rfl, rfl, rfl⟩, find?_id h.distinct ho⟩
  · refine .inl ⟨?_, ?_⟩
    · rw [← Option.not_isSome_iff_eq_none, ← ExtTreeMap.mem_iff_isSome_getElem?, mem_index h.toRepresents]
      exact hmem
    · rw [List.find?_eq_none]
      exact fun o ho heq => hmem ⟨o, ho, of_decide_eq_true heq⟩

theorem cancel_eq (h : Sound b l) (id : UInt64) :
    ∃ b', b.cancel id = some ⟨b', (Market.cancel l id).outputs, (Market.cancel l id).timers⟩ ∧
      Sound b' (Market.cancel l id).state := by
  rcases index_cases h id with ⟨hindex, hfind⟩ | ⟨o, ho, rfl, hindex, hfind⟩
  · rw [Book.cancel, Market.cancel, hindex, hfind]
    exact ⟨b, rfl, h⟩
  · obtain ⟨b', hwithdraw, hsound⟩ := withdrawn h o ho
    rw [Book.cancel, Market.cancel, hindex, hfind]
    simp only [hwithdraw, Option.bind_eq_bind, Option.bind_some]
    exact ⟨b', rfl, hsound⟩

theorem onTimer_eq (h : Sound b l) (id : UInt64) :
    ∃ b', b.onTimer id = some ⟨b', (Market.expire l id).outputs, (Market.expire l id).timers⟩ ∧
      Sound b' (Market.expire l id).state := by
  rcases index_cases h id with ⟨hindex, hfind⟩ | ⟨o, ho, rfl, hindex, hfind⟩
  · rw [Book.onTimer, Market.expire, hindex, hfind]
    exact ⟨b, rfl, h⟩
  · obtain ⟨b', hwithdraw, hsound⟩ := withdrawn h o ho
    rw [Book.onTimer, Market.expire, hindex, hfind]
    simp only [hwithdraw, Option.bind_eq_bind, Option.bind_some]
    exact ⟨b', rfl, hsound⟩

/-- **Every command** does to the book what it does to the market. -/
theorem apply_eq (h : Sound b l) (cmd : Cmd) :
    ∃ b', b.apply cmd = some ⟨b', (Market.apply l cmd).outputs, (Market.apply l cmd).timers⟩ ∧
      Sound b' (Market.apply l cmd).state := by
  cases cmd with
  | submit id side price qty => exact submit_eq h id side price qty _
  | submitGtd id side price qty expireAt => exact submit_eq h id side price qty _
  | cancel id => exact cancel_eq h id

end Commands

end Ticktape.Orderbook
