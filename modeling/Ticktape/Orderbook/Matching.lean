import Ticktape.Lib.Tree
import Ticktape.Orderbook.Priority
import Mathlib.Algebra.Order.Ring.Nat

/-!
# Matching follows price-time priority

`Represents` ties a book to the market it stands for: the queue at each price holds the orders there in the order of
their arrival, and the index knows every order. Filling a level is allocating along it, and the loop over the best
levels is the allocation along the whole queue: the best level comes first in the sorted queue, and either the taker
is used up there or the level is.
-/

namespace Ticktape.Orderbook

open Ticktape.Lib Ticktape.Core Std
open Market (exhausted)

/-- How an order rests on the book. -/
def Order.resting (o : Order) : Resting := ⟨o.id, UInt32.ofNat o.qty⟩

/-- The orders at one price. -/
def levelAt (s : Side) (p : UInt32) (l : List Order) : List Order := l.filter fun o => o.side = s ∧ o.price = p

/-- What a map holds of a queue: an empty one is not there. -/
def stored (queue : List Resting) : Option (List Resting) := if queue.isEmpty then none else some queue

theorem getElem?_putLevel (levels : Levels) (p q : UInt32) (level : List Resting) :
    (Book.putLevel levels p level)[q]? = if p = q then stored level else levels[q]? := by
  have hcompare : compare p q = .eq ↔ p = q := LawfulEqCmp.compare_eq_iff_eq
  cases level with
  | nil =>
    show (levels.erase p)[q]? = _
    rw [ExtTreeMap.getElem?_erase]
    simp only [hcompare, stored, List.isEmpty_nil, if_true]
  | cons r level =>
    show (levels.insert p (r :: level))[q]? = _
    rw [ExtTreeMap.getElem?_insert]
    simp only [hcompare, stored, List.isEmpty_cons, Bool.false_eq_true, if_false]

theorem size_pos {levels : Levels} {p : UInt32} (h : p ∈ levels) : 0 < levels.size := by
  rw [Nat.pos_iff_ne_zero]
  intro hzero
  rw [ExtTreeMap.eq_empty_iff_size_eq_zero.mpr hzero] at h
  exact absurd h ExtTreeMap.not_mem_empty

theorem size_putLevel_nil {levels : Levels} {p : UInt32} (h : p ∈ levels) :
    (Book.putLevel levels p []).size + 1 = levels.size := by
  show (levels.erase p).size + 1 = _
  have hpos := size_pos h
  rw [ExtTreeMap.size_erase, if_pos (ExtTreeMap.mem_iff_contains.mp h)]
  omega

/-- The best price has the least rank. -/
theorem best_eq_some {levels : Levels} {s : Side} {p : UInt32} :
    Book.best levels s = some p ↔ p ∈ levels ∧ ∀ q ∈ levels, rank s p ≤ rank s q := by
  cases s with
  | buy =>
    rw [Book.best, ← ExtTreeMap.maxKey?_eq_getLast?_keys, ExtTreeMap.maxKey?_eq_some_iff_mem_and_forall]
    refine and_congr_right fun _ => forall₂_congr fun q _ => ?_
    rw [isLE_compare, UInt32.le_iff_toNat_le]
    simp only [rank]
    omega
  | sell =>
    rw [Book.best, ← ExtTreeMap.minKey?_eq_head?_keys, ExtTreeMap.minKey?_eq_some_iff_mem_and_forall]
    refine and_congr_right fun _ => forall₂_congr fun q _ => ?_
    rw [isLE_compare, UInt32.le_iff_toNat_le]
    simp only [rank]
    omega

theorem best_eq_none {levels : Levels} {s : Side} : Book.best levels s = none ↔ levels = ∅ := by
  cases s with
  | buy =>
    rw [Book.best, ← ExtTreeMap.maxKey?_eq_getLast?_keys]
    exact ExtTreeMap.maxKey?_eq_none_iff
  | sell =>
    rw [Book.best, ← ExtTreeMap.minKey?_eq_head?_keys]
    exact ExtTreeMap.minKey?_eq_none_iff

theorem beyond_iff {s : Side} {p limit : UInt32} : Book.beyond p limit s = true ↔ rank s limit < rank s p := by
  cases s with
  | buy =>
    rw [Book.beyond, decide_eq_true_eq, UInt32.lt_iff_toNat_lt]
    simp only [rank]
    omega
  | sell =>
    rw [Book.beyond, decide_eq_true_eq, gt_iff_lt, UInt32.lt_iff_toNat_lt]
    simp only [rank]
    omega

/-- An order that rests has shares left, no more than a `u32` counts. -/
def Live (l : List Order) : Prop := ∀ o ∈ l, 0 < o.qty ∧ o.qty < 2 ^ 32

/-- **The book stands for these orders**, in the order of their arrival. -/
structure Represents (b : Book) (l : List Order) : Prop where
  distinct : (l.map Order.id).Nodup
  live : Live l
  level : ∀ s p, (b.side s)[p]? = stored ((levelAt s p l).map Order.resting)
  index : ∀ id s p, b.index[id]? = some (s, p) ↔ ∃ o ∈ l, o.id = id ∧ o.side = s ∧ o.price = p

section Level

variable {s : Side} {p : UInt32} {l q : List Order} {o : Order} {f : List (Order × ℕ)}

theorem mem_levelAt : o ∈ levelAt s p l ↔ o ∈ l ∧ o.side = s ∧ o.price = p := by
  simp [levelAt]

theorem stored_eq_some {queue queue' : List Resting} : stored queue = some queue' ↔ queue = queue' ∧ queue ≠ [] := by
  cases queue with
  | nil => simp [stored]
  | cons r queue => simp [stored]

theorem stored_eq_none {queue : List Resting} : stored queue = none ↔ queue = [] := by
  cases queue with
  | nil => simp [stored]
  | cons r queue => simp [stored]

theorem levelAt_reduce : levelAt s p (Market.reduce f l) = Market.reduce f (levelAt s p l) :=
  Market.filter_reduce fun _ => rfl

theorem levelAt_append {l' : List Order} : levelAt s p (l ++ l') = levelAt s p l ++ levelAt s p l' :=
  List.filter_append ..

theorem Live.reduce (h : Live l) : Live (Market.reduce f l) := by
  intro o ho
  obtain ⟨o', ho', rfl, hpos⟩ := Market.mem_reduce.mp ho
  exact ⟨hpos, Nat.lt_of_le_of_lt (Nat.sub_le ..) (h o' ho').2⟩

theorem Live.sub {l' : List Order} (h : Live l) (hsub : ∀ o ∈ l', o ∈ l) : Live l' := fun o ho => h o (hsub o ho)

theorem Live.pos (h : Live l) : ∀ o ∈ l, 0 < o.qty := fun o ho => (h o ho).1

/-! ## One queue -/

/-- The first of a queue that was allocated gave this, and the others what they were given. -/
theorem reduce_allocate_cons {n : ℕ} (hdistinct : ((o :: q).map Order.id).Nodup) (hpos : ∀ a ∈ q, 0 < a.qty)
    (hn : n ≠ 0) : Market.reduce (allocate Order.qty n (o :: q)) (o :: q) =
      (if n < o.qty then [{ o with qty := o.qty - n }] else []) ++
        Market.reduce (allocate Order.qty (n - o.qty) q) q := by
  obtain ⟨hnot, hnodup⟩ := List.nodup_cons.mp hdistinct
  have hother : ∀ {m : ℕ}, ∀ p ∈ allocate Order.qty m q, p.1.id ≠ o.id := by
    intro m p hp heq
    have hmem : p.1 ∈ q := (allocate_front m q).subset (List.mem_map.mpr ⟨p, hp, rfl⟩)
    exact hnot (heq ▸ List.mem_map.mpr ⟨p.1, hmem, rfl⟩)
  have hsplit : allocate Order.qty n (o :: q) = [(o, min n o.qty)] ++ allocate Order.qty (n - o.qty) q := by
    rw [allocate, if_neg hn]
    rfl
  have hhead : Market.after (allocate Order.qty n (o :: q)) o = { o with qty := o.qty - n } := by
    rw [hsplit, Market.after, amount_append, amount_eq_zero hother, amount_cons]
    have hgave : o.qty - min n o.qty = o.qty - n := by omega
    simpa using hgave
  rw [Market.reduce_cons, hhead]
  congr 1
  · by_cases hlt : n < o.qty
    · rw [if_pos (by show 0 < o.qty - n; omega), if_pos hlt]
    · rw [if_neg (by show ¬0 < o.qty - n; omega), if_neg hlt]
  · rw [hsplit, Market.reduce_append]
    congr 1
    apply Market.reduce_of_ne hpos
    intro a ha p hp heq
    rw [List.mem_singleton.mp hp] at heq
    exact hnot (List.mem_map.mpr ⟨a, ha, heq.symm⟩)

theorem min_right {a b : UInt32} (h : b.toNat ≤ a.toNat) : min a b = b := by
  show (if a ≤ b then a else b) = b
  split
  · rename_i hle
    exact UInt32.toNat_inj.mp (Nat.le_antisymm (UInt32.le_iff_toNat_le.mp hle) h)
  · rfl

theorem min_left {a b : UInt32} (h : a.toNat ≤ b.toNat) : min a b = a := by
  show (if a ≤ b then a else b) = a
  rw [if_pos (UInt32.le_iff_toNat_le.mpr h)]

/-- **Filling a queue is allocating along it.** -/
theorem fillQueue_eq {price : UInt32} (taker : UInt64) (qty : UInt32) (hlive : Live q)
    (hdistinct : (q.map Order.id).Nodup) (hprice : ∀ o ∈ q, o.price = price) :
    Book.fillQueue price taker qty (q.map Order.resting) =
      ⟨(Market.reduce (allocate Order.qty qty.toNat q) q).map Order.resting,
        UInt32.ofNat (qty.toNat - given (allocate Order.qty qty.toNat q)),
        UInt64.ofNat (given (allocate Order.qty qty.toNat q)),
        (allocate Order.qty qty.toNat q).map (Market.trade taker),
        exhausted (allocate Order.qty qty.toNat q)⟩ := by
  induction q generalizing qty with
  | nil => simp [Book.fillQueue, allocate, Market.reduce, exhausted]
  | cons o q ih =>
    obtain ⟨-, hnodup⟩ := List.nodup_cons.mp hdistinct
    obtain ⟨hpos, hlt⟩ := hlive o (List.mem_cons_self ..)
    have htail : Live q := hlive.sub fun a ha => List.mem_cons_of_mem _ ha
    have hqty : (UInt32.ofNat o.qty).toNat = o.qty := UInt32.toNat_ofNat_of_lt hlt
    rw [List.map_cons, Book.fillQueue]
    by_cases hzero : qty = 0
    · subst hzero
      rw [if_pos rfl]
      simp [Market.reduce_nil hlive.pos, exhausted]
    · have hn : qty.toNat ≠ 0 := fun h => hzero (UInt32.toNat_inj.mp h)
      rw [if_neg hzero, reduce_allocate_cons hdistinct htail.pos hn]
      rw [allocate, if_neg hn]
      by_cases hle : o.qty ≤ qty.toNat
      · -- the maker is used up
        have hfill : min qty (UInt32.ofNat o.qty) = UInt32.ofNat o.qty := min_right (by rw [hqty]; exact hle)
        have hrest : (qty - UInt32.ofNat o.qty).toNat = qty.toNat - o.qty := by
          rw [UInt32.toNat_sub_of_le _ _ (by rw [UInt32.le_iff_toNat_le, hqty]; exact hle), hqty]
        have hgone : Order.resting o = ⟨o.id, UInt32.ofNat o.qty⟩ := rfl
        have hexhausted : exhausted ((o, o.qty) :: allocate Order.qty (qty.toNat - o.qty) q) =
            o.id :: exhausted (allocate Order.qty (qty.toNat - o.qty) q) := by
          simp [exhausted]
        rw [if_neg (Nat.not_lt.mpr hle), List.nil_append, Nat.min_eq_right hle, hgone]
        simp only [hfill, UInt32.sub_self, if_true]
        rw [ih _ htail hnodup fun a ha => hprice a (List.mem_cons_of_mem _ ha), hrest]
        rw [hexhausted, given_cons, UInt32.toUInt64_ofNat' hlt, UInt64.ofNat_add, Nat.sub_sub, List.map_cons,
          Market.trade, hprice o (List.mem_cons_self ..)]
      · -- the taker is used up
        have hlt' : qty.toNat < o.qty := by omega
        have hfill : min qty (UInt32.ofNat o.qty) = qty := min_left (by rw [hqty]; exact hlt'.le)
        have hleft : UInt32.ofNat o.qty - qty = UInt32.ofNat (o.qty - qty.toNat) := by
          rw [UInt32.ofNat_sub hlt'.le, UInt32.ofNat_toNat]
        have hsome : UInt32.ofNat (o.qty - qty.toNat) ≠ 0 := by
          intro h
          have hsub : (UInt32.ofNat (o.qty - qty.toNat)).toNat = o.qty - qty.toNat :=
            UInt32.toNat_ofNat_of_lt' (show o.qty - qty.toNat < 2 ^ 32 by omega)
          rw [h] at hsub
          have hzero : 0 = o.qty - qty.toNat := hsub
          omega
        have htraded : qty.toUInt64 = UInt64.ofNat qty.toNat := by
          rw [← UInt32.toUInt64_ofNat' qty.toNat_lt, UInt32.ofNat_toNat]
        have hgone : Order.resting o = ⟨o.id, UInt32.ofNat o.qty⟩ := rfl
        have hnone : qty.toNat - o.qty = 0 := by omega
        have hexhausted : exhausted [(o, qty.toNat)] = [] := by
          simp [exhausted, Nat.ne_of_lt hlt']
        rw [if_pos hlt', Nat.min_eq_left hlt'.le, hgone, hnone, allocate_zero, Market.reduce_nil htail.pos]
        simp only [hfill, hleft, if_neg hsome, UInt32.sub_self, htraded]
        rw [hexhausted, given_cons, given_nil, Nat.add_zero, Nat.sub_self, List.singleton_append, List.map_cons,
          List.map_cons, List.map_nil, Market.trade, UInt32.ofNat_toNat, hprice o (List.mem_cons_self ..)]
        rfl

end Level

/-! ## One level -/

/-- Every order gives at most once, and no more than it has. -/
structure Taken (f : List (Order × ℕ)) (l : List Order) : Prop where
  mem : ∀ p ∈ f, p.1 ∈ l
  le : ∀ p ∈ f, p.2 ≤ p.1.qty
  distinct : (f.map (·.1.id)).Nodup

section Taken

variable {f : List (Order × ℕ)} {l q : List Order} {o : Order} {n : ℕ}

theorem eq_of_id (hdistinct : (l.map Order.id).Nodup) {a o : Order} (ha : a ∈ l) (ho : o ∈ l) (h : a.id = o.id) :
    a = o := List.inj_on_of_nodup_map hdistinct ha ho h

/-- What is allocated along orders of the market. -/
theorem taken_allocate (hmem : ∀ o ∈ q, o ∈ l) (hdistinct : (q.map Order.id).Nodup) :
    Taken (allocate Order.qty n q) l := by
  have hfront : (allocate Order.qty n q).map (·.1) <+: q := allocate_front n q
  refine ⟨fun p hp => hmem _ (hfront.subset (List.mem_map.mpr ⟨p, hp, rfl⟩)), fun p => allocate_le, ?_⟩
  have hsub := (hfront.sublist.map Order.id).nodup hdistinct
  rwa [List.map_map] at hsub

/-- **An order is exhausted** exactly if nothing is left of it. -/
theorem mem_exhausted (h : Taken f l) (hdistinct : (l.map Order.id).Nodup) (hlive : Live l) (ho : o ∈ l) :
    o.id ∈ exhausted f ↔ ¬0 < (Market.after f o).qty := by
  have hpos := (hlive o ho).1
  have hamount : ∀ p ∈ f, p.1.id = o.id → p.1 = o ∧ amount Order.id f o.id = p.2 := by
    intro p hp hid
    refine ⟨eq_of_id hdistinct (h.mem p hp) ho hid, ?_⟩
    rw [← hid]
    exact amount_of_mem h.distinct hp
  have hqty : (Market.after f o).qty = o.qty - amount Order.id f o.id := rfl
  simp only [exhausted, List.mem_map, List.mem_filter, decide_eq_true_eq]
  constructor
  · rintro ⟨p, ⟨hp, hall⟩, hid⟩
    obtain ⟨heq, hgave⟩ := hamount p hp hid
    rw [hqty, hgave, hall, heq]
    omega
  · intro hnone
    by_cases hgave : ∃ p ∈ f, p.1.id = o.id
    · obtain ⟨p, hp, hid⟩ := hgave
      obtain ⟨heq, hgave⟩ := hamount p hp hid
      have hle := h.le p hp
      rw [hqty, hgave] at hnone
      rw [heq] at hle
      exact ⟨p, ⟨hp, by rw [heq]; omega⟩, hid⟩
    · rw [hqty, amount_eq_zero fun p hp hid => hgave ⟨p, hp, hid⟩] at hnone
      omega

end Taken

/-- Only shares were traded, this many. -/
structure Traded (b b' : Book) (n : ℕ) : Prop where
  accepted : b'.acceptedShares = b.acceptedShares
  traded : b'.tradedShares = b.tradedShares + UInt64.ofNat n
  canceled : b'.canceledShares = b.canceledShares

section Fill

variable {b : Book} {l : List Order} {f : List (Order × ℕ)} {maker : Side} {price : UInt32} {taker : UInt64}
  {qty : UInt32}

/-- The index of a book whose market was reduced. -/
theorem index_reduce (h : Represents b l) (hf : Taken f l) (id : UInt64) (s : Side) (p : UInt32) :
    (eraseAll b.index (exhausted f))[id]? = some (s, p) ↔
      ∃ o ∈ Market.reduce f l, o.id = id ∧ o.side = s ∧ o.price = p := by
  rw [getElem?_eraseAll]
  constructor
  · intro hget
    split at hget
    · cases hget
    · rename_i hnot
      obtain ⟨o, ho, rfl, rfl, rfl⟩ := (h.index id s p).mp hget
      rw [mem_exhausted hf h.distinct h.live ho, not_not] at hnot
      exact ⟨Market.after f o, Market.mem_reduce.mpr ⟨o, ho, rfl, hnot⟩, rfl, rfl, rfl⟩
  · rintro ⟨o, ho, rfl, rfl, rfl⟩
    obtain ⟨o', ho', rfl, hpos⟩ := Market.mem_reduce.mp ho
    have hnot : (Market.after f o').id ∉ exhausted f := by
      rw [Market.after_id, mem_exhausted hf h.distinct h.live ho', not_not]
      exact hpos
    rw [if_neg hnot]
    exact (h.index _ _ _).mpr ⟨o', ho', rfl, rfl, rfl⟩

/-- A level is there exactly if an order rests at that price. -/
theorem Represents.mem_side (h : Represents b l) {s : Side} {p : UInt32} :
    p ∈ b.side s ↔ ∃ o ∈ l, o.side = s ∧ o.price = p := by
  rw [ExtTreeMap.mem_iff_isSome_getElem?, h.level]
  constructor
  · intro hsome
    obtain ⟨queue, hqueue⟩ := Option.isSome_iff_exists.mp hsome
    obtain ⟨-, hne⟩ := stored_eq_some.mp hqueue
    obtain ⟨r, hr⟩ := List.exists_mem_of_ne_nil _ hne
    obtain ⟨o, ho, -⟩ := List.mem_map.mp hr
    exact ⟨o, mem_levelAt.mp ho⟩
  · rintro ⟨o, ho⟩
    have hne : (levelAt s p l).map Order.resting ≠ [] := by
      intro heq
      have hmem := List.mem_map_of_mem (f := Order.resting) (mem_levelAt.mpr ho)
      rw [heq] at hmem
      cases hmem
    rw [stored_eq_some.mpr ⟨rfl, hne⟩]
    rfl

/-- The orders at other prices give nothing at this one. -/
theorem reduce_elsewhere (h : Represents b l) (hf : ∀ p ∈ f, p.1 ∈ levelAt maker price l) {s : Side} {p : UInt32}
    (hne : ¬(s = maker ∧ p = price)) : Market.reduce f (levelAt s p l) = levelAt s p l := by
  apply Market.reduce_of_ne
  · exact fun o ho => (h.live o (mem_levelAt.mp ho).1).1
  · intro o ho q hq heq
    obtain ⟨hol, hos, hop⟩ := mem_levelAt.mp ho
    obtain ⟨hql, hqs, hqp⟩ := mem_levelAt.mp (hf q hq)
    obtain rfl := eq_of_id h.distinct hql hol heq
    exact hne ⟨hos.symm.trans hqs, hop.symm.trans hqp⟩

/-- **Filling a level** is allocating along the orders there. -/
theorem fillLevel_eq (taker : UInt64) (qty : UInt32) (h : Represents b l) (hprice : price ∈ b.side maker) :
    ∃ b', b.fillLevel maker price taker qty = some ⟨b',
      UInt32.ofNat (qty.toNat - given (allocate Order.qty qty.toNat (levelAt maker price l))),
      (allocate Order.qty qty.toNat (levelAt maker price l)).map (Market.trade taker),
      (exhausted (allocate Order.qty qty.toNat (levelAt maker price l))).map .cancel⟩ ∧
      Represents b' (Market.reduce (allocate Order.qty qty.toNat (levelAt maker price l)) l) ∧
      Traded b b' (given (allocate Order.qty qty.toNat (levelAt maker price l))) ∧
      (Market.reduce (allocate Order.qty qty.toNat (levelAt maker price l)) (levelAt maker price l) = [] →
        (b'.side maker).size + 1 = (b.side maker).size) := by
  have hsub : ∀ o ∈ levelAt maker price l, o ∈ l := fun o ho => (mem_levelAt.mp ho).1
  have hdistinct : ((levelAt maker price l).map Order.id).Nodup :=
    (List.filter_sublist.map Order.id).nodup h.distinct
  have hqueue := fillQueue_eq taker qty (h.live.sub hsub) hdistinct
    fun o ho => (mem_levelAt.mp ho).2.2
  have htaken : Taken (allocate Order.qty qty.toNat (levelAt maker price l)) l := taken_allocate hsub hdistinct
  have helsewhere : ∀ p ∈ allocate Order.qty qty.toNat (levelAt maker price l), p.1 ∈ levelAt maker price l :=
    fun p hp => (allocate_front _ _).subset (List.mem_map.mpr ⟨p, hp, rfl⟩)
  have hget : (b.side maker)[price]? = some ((levelAt maker price l).map Order.resting) := by
    obtain ⟨queue, hsome⟩ := Option.isSome_iff_exists.mp (ExtTreeMap.mem_iff_isSome_getElem?.mp hprice)
    rw [hsome]
    rw [h.level] at hsome
    rw [(stored_eq_some.mp hsome).1]
  generalize hf : allocate Order.qty qty.toNat (levelAt maker price l) = f at *
  refine ⟨{ b with
    tradedShares := b.tradedShares + UInt64.ofNat (given f)
    index := eraseAll b.index (exhausted f) }.setSide
      (Book.putLevel (b.side maker) price ((Market.reduce f (levelAt maker price l)).map Order.resting)) maker,
    ?_, ⟨Market.reduce_ids.nodup h.distinct, h.live.reduce, fun s p => ?_, fun id s p => ?_⟩, ?_, fun hnone => ?_⟩
  · rw [Book.fillLevel, hget]
    simp only [hqueue, eraseAll]
  · rw [levelAt_reduce, Book.side_setSide]
    by_cases hs : maker = s
    · subst hs
      rw [if_pos rfl, getElem?_putLevel]
      by_cases hp : price = p
      · rw [if_pos hp, hp]
      · rw [if_neg hp, reduce_elsewhere h helsewhere fun heq => hp heq.2.symm]
        exact h.level maker p
    · rw [if_neg hs, reduce_elsewhere h helsewhere fun heq => hs heq.1.symm]
      exact h.level s p
  · rw [Book.setSide_index]
    exact index_reduce h htaken id s p
  · exact ⟨by simp, by simp, by simp⟩
  · rw [Book.side_setSide, if_pos rfl, hnone]
    exact size_putLevel_nil hprice

end Fill

/-! ## All levels -/

section Match

variable {b : Book} {l : List Order} {f g : List (Order × ℕ)} {maker : Side} {price limit : UInt32} {taker : UInt64}
  {qty : UInt32}

theorem exhausted_append : exhausted (f ++ g) = exhausted f ++ exhausted g := by
  simp [exhausted]

theorem Traded.trans {b₁ b₂ : Book} {m n : ℕ} (h : Traded b b₁ m) (h' : Traded b₁ b₂ n) : Traded b b₂ (m + n) := by
  refine ⟨h'.accepted.trans h.accepted, ?_, h'.canceled.trans h.canceled⟩
  rw [h'.traded, h.traded, UInt64.ofNat_add, UInt64.add_assoc]

theorem Traded.refl (b : Book) : Traded b b 0 := ⟨rfl, by simp, rfl⟩

/-- Reducing by what was given in full drops those who gave it. -/
theorem reduce_eq_filter {P : Order → Bool} (hkept : ∀ o ∈ l, P o = true → Market.after f o = o ∧ 0 < o.qty)
    (hgone : ∀ o ∈ l, P o = false → (Market.after f o).qty = 0) : Market.reduce f l = l.filter P := by
  induction l with
  | nil => rfl
  | cons o l ih =>
    have htail := ih (fun o ho => hkept o (List.mem_cons_of_mem _ ho)) fun o ho => hgone o (List.mem_cons_of_mem _ ho)
    rw [Market.reduce_cons, htail]
    cases hP : P o with
    | true =>
      obtain ⟨hafter, hpos⟩ := hkept o (List.mem_cons_self ..) hP
      rw [hafter, if_pos hpos, List.filter_cons_of_pos hP]
      rfl
    | false =>
      rw [hgone o (List.mem_cons_self ..) hP, if_neg (Nat.lt_irrefl 0), List.filter_cons_of_neg (by simp [hP])]
      rfl

/-- The makers at one price within the limit are all that rest there. -/
theorem bucket_within (hlimit : rank maker price ≤ rank maker limit) :
    bucket (fun o : Order => rank maker o.price) (rank maker price) (Market.within maker limit l) =
      levelAt maker price l := by
  rw [bucket, Market.within, List.filter_filter, levelAt]
  apply List.filter_congr
  intro o _
  rw [Bool.eq_iff_iff]
  simp only [Bool.and_eq_true, decide_eq_true_eq, rank_inj]
  constructor
  · rintro ⟨rfl, hside, -⟩
    exact ⟨hside, rfl⟩
  · rintro ⟨rfl, rfl⟩
    exact ⟨rfl, rfl, hlimit⟩

/-- **The best level comes first** in the queue. -/
theorem queue_best (hbest : ∀ o ∈ l, o.side = maker → rank maker price ≤ rank maker o.price)
    (hlimit : rank maker price ≤ rank maker limit) : Market.queue maker limit l = levelAt maker price l ++
      sortBy (fun o => rank maker o.price) ((Market.within maker limit l).filter (rank maker ·.price ≠ rank maker price)) := by
  have hleast : ∀ o ∈ Market.within maker limit l, rank maker price ≤ rank maker o.price := by
    intro o ho
    simp only [Market.within, List.mem_filter, decide_eq_true_eq] at ho
    exact hbest o ho.1 ho.2.1
  rw [Market.queue, sortBy_least hleast, bucket_within hlimit]

theorem queue_nil (h : ∀ o ∈ l, o.side = maker → rank maker limit < rank maker o.price) :
    Market.queue maker limit l = [] := by
  have hnone : Market.within maker limit l = [] := by
    rw [Market.within, List.filter_eq_nil_iff]
    intro o ho hwithin
    obtain ⟨hside, hle⟩ := of_decide_eq_true hwithin
    exact absurd hle (Int.not_le.mpr (h o ho hside))
  rw [Market.queue, hnone]
  exact List.perm_nil.mp (sortBy_perm _)

/-- An order that gave everything has nothing left. -/
theorem after_all {q : List Order} {o : Order} (hdistinct : (q.map Order.id).Nodup) (ho : o ∈ q) :
    (Market.after (q.map fun o => (o, o.qty)) o).qty = 0 := by
  have hnodup : ((q.map fun o => (o, o.qty)).map fun p => p.1.id).Nodup := by
    rw [List.map_map]
    exact hdistinct
  have hgave : amount Order.id (q.map fun o => (o, o.qty)) o.id = o.qty :=
    amount_of_mem hnodup (List.mem_map.mpr ⟨o, ho, rfl⟩)
  show o.qty - amount Order.id _ o.id = 0
  rw [hgave]
  exact Nat.sub_self _

/-- Nothing is left at a level that was given in full, and nothing changed elsewhere. -/
theorem within_reduce_level (h : Represents b l) :
    Market.within maker limit (Market.reduce ((levelAt maker price l).map fun o => (o, o.qty)) l) =
      (Market.within maker limit l).filter (rank maker ·.price ≠ rank maker price) := by
  have hcommute : Market.within maker limit (Market.reduce ((levelAt maker price l).map fun o => (o, o.qty)) l) =
      Market.reduce ((levelAt maker price l).map fun o => (o, o.qty)) (Market.within maker limit l) :=
    Market.filter_reduce fun _ => rfl
  rw [hcommute]
  apply reduce_eq_filter
  · intro o ho hP
    have hol : o ∈ l := (List.mem_filter.mp ho).1
    refine ⟨Market.after_of_ne fun p hp heq => ?_, (h.live o hol).1⟩
    obtain ⟨a, ha, rfl⟩ := List.mem_map.mp hp
    obtain ⟨hal, -, haprice⟩ := mem_levelAt.mp ha
    obtain rfl := eq_of_id h.distinct hal hol heq
    simp only [decide_eq_true_eq, ne_eq, rank_inj] at hP
    exact hP haprice
  · intro o ho hP
    simp only [Market.within, List.mem_filter, decide_eq_true_eq] at ho
    simp only [ne_eq, rank_inj, decide_eq_false_iff_not, not_not] at hP
    exact after_all ((List.filter_sublist.map Order.id).nodup h.distinct) (mem_levelAt.mpr ⟨ho.1, ho.2.1, hP⟩)

theorem matchAgainst_zero {fuel : ℕ} : Book.matchAgainst maker taker limit fuel b 0 = some ⟨b, 0, [], []⟩ := by
  rw [Book.matchAgainst, if_pos rfl]

/-- One round of the loop: either nothing can be given, or the best level is filled. -/
theorem matchAgainst_cases (maker : Side) (taker : UInt64) (limit qty : UInt32) (h : Represents b l) :
    (Market.fills maker limit qty.toNat l = [] ∧
      ∀ fuel, Book.matchAgainst maker taker limit fuel b qty = some ⟨b, qty, [], []⟩) ∨
    ∃ price, price ∈ b.side maker ∧ (∀ o ∈ l, o.side = maker → rank maker price ≤ rank maker o.price) ∧
      rank maker price ≤ rank maker limit ∧
      ∀ fuel, Book.matchAgainst maker taker limit (fuel + 1) b qty = (do
        let filled ← b.fillLevel maker price taker qty
        let rest ← Book.matchAgainst maker taker limit fuel filled.book filled.qty
        some ⟨rest.book, rest.qty, filled.outputs ++ rest.outputs, filled.timers ++ rest.timers⟩) := by
  have hside : ∀ o ∈ l, o.side = maker → o.price ∈ b.side maker := fun o ho hs => h.mem_side.mpr ⟨o, ho, hs, rfl⟩
  by_cases hzero : qty = 0
  · subst hzero
    exact .inl ⟨allocate_zero _, fun _ => matchAgainst_zero⟩
  · cases hbest : Book.best (b.side maker) maker with
    | none =>
      refine .inl ⟨?_, fun fuel => ?_⟩
      · rw [Market.fills, queue_nil fun o ho hs => ?_]
        · rfl
        · have hmem := hside o ho hs
          rw [best_eq_none.mp hbest] at hmem
          exact absurd hmem ExtTreeMap.not_mem_empty
      · unfold Book.matchAgainst
        rw [if_neg hzero, hbest]
    | some price =>
      obtain ⟨hmem, hleast⟩ := best_eq_some.mp hbest
      by_cases hbeyond : Book.beyond price limit maker = true
      · refine .inl ⟨?_, fun fuel => ?_⟩
        · rw [Market.fills, queue_nil fun o ho hs => ?_]
          · rfl
          · exact Int.lt_of_lt_of_le (beyond_iff.mp hbeyond) (hleast _ (hside o ho hs))
        · unfold Book.matchAgainst
          rw [if_neg hzero, hbest]
          simp only [hbeyond, if_true]
      · refine .inr ⟨price, hmem, fun o ho hs => hleast _ (hside o ho hs), ?_, fun fuel => ?_⟩
        · exact Int.not_lt.mp fun hlt => hbeyond (beyond_iff.mpr hlt)
        · rw [Book.matchAgainst, if_neg hzero, hbest]
          simp only [hbeyond]
          rfl

/-- **Matching is allocating along the queue.** Fuel for every level is enough. -/
theorem matchAgainst_eq {fuel : ℕ} (qty : UInt32) (h : Represents b l) (hfuel : (b.side maker).size ≤ fuel) :
    ∃ b', Book.matchAgainst maker taker limit fuel b qty = some ⟨b',
      UInt32.ofNat (qty.toNat - given (Market.fills maker limit qty.toNat l)),
      (Market.fills maker limit qty.toNat l).map (Market.trade taker),
      (exhausted (Market.fills maker limit qty.toNat l)).map .cancel⟩ ∧
      Represents b' (Market.reduce (Market.fills maker limit qty.toNat l) l) ∧
      Traded b b' (given (Market.fills maker limit qty.toNat l)) := by
  induction fuel generalizing b l qty with
  | zero =>
    rcases matchAgainst_cases maker taker limit qty h with ⟨hnone, hrun⟩ | ⟨price, hmem, -⟩
    · rw [hnone, Market.reduce_nil h.live.pos, hrun, given_nil, Nat.sub_zero, UInt32.ofNat_toNat]
      exact ⟨b, rfl, h, Traded.refl b⟩
    · exact absurd (size_pos hmem) (by omega)
  | succ fuel ih =>
    rcases matchAgainst_cases maker taker limit qty h with ⟨hnone, hrun⟩ | ⟨price, hmem, hbest, hlimit, hrun⟩
    · rw [hnone, Market.reduce_nil h.live.pos, hrun, given_nil, Nat.sub_zero, UInt32.ofNat_toNat]
      exact ⟨b, rfl, h, Traded.refl b⟩
    · obtain ⟨b₁, hfill, h₁, htraded₁, hsize⟩ := fillLevel_eq taker qty h hmem
      -- the queue is the best level and then the rest
      have hsplit := queue_best hbest hlimit
      have hgiven : given (allocate Order.qty qty.toNat (levelAt maker price l)) =
          min qty.toNat (demand Order.qty (levelAt maker price l)) := given_allocate _ _
      have hleft : (UInt32.ofNat (qty.toNat - given (allocate Order.qty qty.toNat (levelAt maker price l)))).toNat =
          qty.toNat - given (allocate Order.qty qty.toNat (levelAt maker price l)) :=
        UInt32.toNat_ofNat_of_lt' (Nat.lt_of_le_of_lt (Nat.sub_le ..) qty.toNat_lt)
      rw [hrun, hfill, Market.fills, hsplit, allocate_append]
      simp only [Option.bind_eq_bind, Option.bind_some]
      by_cases hused : demand Order.qty (levelAt maker price l) ≤ qty.toNat
      · -- the level is used up, and the loop goes on without it
        have hpos : ∀ o ∈ levelAt maker price l, 0 < o.qty := fun o ho => (h.live o (mem_levelAt.mp ho).1).1
        have hall := allocate_all hused hpos
        have hgone : Market.reduce (allocate Order.qty qty.toNat (levelAt maker price l)) (levelAt maker price l) = [] := by
          have hdistinct : ((levelAt maker price l).map Order.id).Nodup :=
            (List.filter_sublist.map Order.id).nodup h.distinct
          rw [hall, reduce_eq_filter (P := fun _ => false) (fun _ _ hP => by cases hP)
            fun o ho _ => after_all hdistinct ho]
          simp
        have hfuel₁ : (b₁.side maker).size ≤ fuel := by
          have hless := hsize hgone
          omega
        have hgave : given (allocate Order.qty qty.toNat (levelAt maker price l)) =
            demand Order.qty (levelAt maker price l) := by omega
        obtain ⟨b₂, hrest, h₂, htraded₂⟩ := ih (UInt32.ofNat (qty.toNat -
          given (allocate Order.qty qty.toNat (levelAt maker price l)))) h₁ hfuel₁
        have hfills : Market.fills maker limit (qty.toNat - demand Order.qty (levelAt maker price l))
            (Market.reduce (allocate Order.qty qty.toNat (levelAt maker price l)) l) =
            allocate Order.qty (qty.toNat - demand Order.qty (levelAt maker price l))
              (sortBy (fun o => rank maker o.price)
                ((Market.within maker limit l).filter (rank maker ·.price ≠ rank maker price))) := by
          rw [Market.fills, Market.queue, hall, within_reduce_level h]
        rw [hleft, hgave, hfills] at hrest h₂ htraded₂
        rw [hgave, hrest]
        refine ⟨b₂, ?_, ?_, ?_⟩
        · rw [given_append, hgave, Nat.sub_sub, List.map_append, exhausted_append, List.map_append]
          rfl
        · rw [Market.reduce_append]
          exact h₂
        · rw [given_append]
          exact htraded₁.trans htraded₂
      · -- the taker is used up
        have hgave : given (allocate Order.qty qty.toNat (levelAt maker price l)) = qty.toNat := by omega
        have hnone : qty.toNat - demand Order.qty (levelAt maker price l) = 0 := by omega
        rw [hnone, allocate_zero, List.append_nil, hgave, Nat.sub_self]
        refine ⟨b₁, ?_, h₁, hgave ▸ htraded₁⟩
        rw [show UInt32.ofNat 0 = 0 from rfl, matchAgainst_zero]
        simp

end Match

end Ticktape.Orderbook
