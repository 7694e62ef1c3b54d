import Ticktape.Orderbook.Trading

/-!
# Sessions

What reaches a book are commands and timers that fire, in any order. Over every session the book answers as its
market does, `check` finds nothing, and a book restored from a snapshot is the same book.
-/

namespace Ticktape.Orderbook

open Ticktape.Lib Ticktape.Core Std
open Market (exhausted)

/-- What reaches a book. -/
inductive Event where
  | command (cmd : Cmd)
  | fired (id : UInt64)

namespace Book

def handle (b : Book) : Event → Option (Step Book Evt)
  | .command cmd => b.apply cmd
  | .fired id => b.onTimer id

/-- A session: what was answered to each event, and the book after them. -/
def run : Book → List Event → Option (Book × List (List Evt × List TimerReq))
  | b, [] => some (b, [])
  | b, event :: events => do
    let step ← b.handle event
    let (last, answers) ← run step.state events
    some (last, (step.outputs, step.timers) :: answers)

end Book

namespace Market

def handle (l : List Order) : Event → Step (List Order) Evt
  | .command cmd => apply l cmd
  | .fired id => expire l id

def run : List Order → List Event → List Order × List (List Evt × List TimerReq)
  | l, [] => (l, [])
  | l, event :: events =>
    ((run (handle l event).state events).1,
      ((handle l event).outputs, (handle l event).timers) :: (run (handle l event).state events).2)

end Market

section Run

variable {b b' : Book} {l : List Order}

/-- **Step lemma**. -/
theorem handle_eq (h : Sound b l) (event : Event) :
    ∃ b', b.handle event = some ⟨b', (Market.handle l event).outputs, (Market.handle l event).timers⟩ ∧
      Sound b' (Market.handle l event).state := by
  cases event with
  | command cmd => exact apply_eq h cmd
  | fired id => exact onTimer_eq h id

/-- **Run lemma**. -/
theorem run_eq (h : Sound b l) (events : List Event) :
    ∃ b', b.run events = some (b', (Market.run l events).2) ∧ Sound b' (Market.run l events).1 := by
  induction events generalizing b l with
  | nil => exact ⟨b, rfl, h⟩
  | cons event events ih =>
    obtain ⟨b₁, hstep, h₁⟩ := handle_eq h event
    obtain ⟨b', hrun, h'⟩ := ih h₁
    refine ⟨b', ?_, h'⟩
    rw [Book.run, hstep]
    simp only [Option.bind_eq_bind, Option.bind_some, hrun]
    rfl

/-- A session that ran is a session of the market. -/
theorem run_sound {answers : List (List Evt × List TimerReq)} {events : List Event} (h : Sound b l)
    (hrun : b.run events = some (b', answers)) : Sound b' (Market.run l events).1 := by
  obtain ⟨b₁, hrun', h₁⟩ := run_eq h events
  rw [hrun] at hrun'
  obtain ⟨rfl, -⟩ := Prod.mk.inj (Option.some.inj hrun')
  exact h₁

theorem sound_genesis : Sound .genesis [] where
  distinct := List.nodup_nil
  live := fun o ho => by cases ho
  level := fun s p => by cases s <;> exact ExtTreeMap.getElem?_empty
  index := fun id s p => by simp [Book.genesis]
  uncrossed := fun a ha => by cases ha
  conserved := rfl

end Run

/-! ## The orders on the book -/

section Resting

variable {b : Book} {l : List Order} {s : Side}

/-- The queues of one side are the levels of the market. -/
theorem mem_toList (h : Represents b l) {p : UInt32} {level : List Resting} (hmem : (p, level) ∈ (b.side s).toList) :
    level = (levelAt s p l).map Order.resting ∧ level ≠ [] := by
  rw [ExtTreeMap.mem_toList_iff_getElem?_eq_some, h.level, stored_eq_some] at hmem
  exact ⟨hmem.1.symm, hmem.1 ▸ hmem.2⟩

/-- The orders on one side of the market. -/
def onSide (s : Side) (l : List Order) : List Order := l.filter (·.side = s)

theorem bucket_onSide (p : UInt32) : bucket Order.price p (onSide s l) = levelAt s p l := by
  rw [bucket, onSide, List.filter_filter, levelAt]
  apply List.filter_congr
  intro o _
  rw [Bool.eq_iff_iff]
  simp [and_comm]

/-- **The orders on one side of the book** are those of the market. -/
theorem resting_perm (h : Represents b l) : (Book.resting (b.side s)).Perm ((onSide s l).map Order.resting) := by
  have hlevels : Book.resting (b.side s) =
      (((b.side s).toList.map Prod.fst).flatMap fun p => bucket Order.price p (onSide s l)).map Order.resting := by
    rw [Book.resting, List.map_flatMap, List.flatMap_map, List.flatMap_def, List.flatMap_def]
    congr 1
    apply List.map_congr_left
    rintro ⟨p, level⟩ hmem
    rw [bucket_onSide]
    exact (mem_toList h hmem).1
  rw [hlevels]
  refine (flatMap_bucket_perm (nodup_toList _) fun o ho => ?_).map _
  obtain ⟨hmem, hside⟩ := List.mem_filter.mp ho
  rw [ExtTreeMap.map_fst_toList_eq_keys, ExtTreeMap.mem_keys, h.mem_side]
  exact ⟨o, hmem, of_decide_eq_true hside, rfl⟩

/-- Both sides together. -/
theorem sides_perm (l : List Order) : (onSide .buy l ++ onSide .sell l).Perm l := by
  have hsell : onSide .sell l = l.filter fun o => !decide (o.side = .buy) := by
    apply List.filter_congr
    intro o _
    cases o.side <;> rfl
  rw [hsell]
  exact List.filter_append_perm _ l

theorem all_perm (h : Represents b l) :
    (Book.resting b.bids ++ Book.resting b.asks).Perm (l.map Order.resting) := by
  have hboth := (resting_perm (s := .buy) h).append (resting_perm (s := .sell) h)
  rw [← List.map_append] at hboth
  exact hboth.trans ((sides_perm l).map _)

/-- Adding up quantities in `u64`. -/
theorem sum_toUInt64 (orders : List Resting) (n : UInt64) :
    (orders.map (·.qty.toUInt64)).foldl (· + ·) n = n + UInt64.ofNat (orders.map (·.qty.toNat)).sum := by
  induction orders generalizing n with
  | nil => exact (UInt64.add_zero n).symm
  | cons o orders ih =>
    have hqty : o.qty.toUInt64 = UInt64.ofNat o.qty.toNat := by
      rw [← UInt32.toUInt64_ofNat' o.qty.toNat_lt, UInt32.ofNat_toNat]
    rw [List.map_cons, List.map_cons, List.foldl_cons, List.sum_cons, ih, hqty, UInt64.ofNat_add, UInt64.add_assoc]

/-- The shares resting on the book. -/
theorem restingShares_eq (h : Represents b l) : b.restingShares = UInt64.ofNat (demand Order.qty l) := by
  have hqty : (l.map Order.resting).map (·.qty.toNat) = l.map Order.qty := by
    rw [List.map_map]
    exact List.map_congr_left fun o ho => UInt32.toNat_ofNat_of_lt' (h.live o ho).2
  rw [Book.restingShares, sum_toUInt64, ((all_perm h).map _).sum_eq, hqty, demand, UInt64.zero_add]

/-- The index has one entry for every order. -/
theorem size_index (h : Represents b l) : b.index.size = l.length := by
  rw [← ExtTreeMap.length_keys, ← List.length_map Order.id]
  apply List.Perm.length_eq
  rw [List.perm_ext_iff_of_nodup ExtTreeMap.nodup_keys h.distinct]
  intro id
  rw [ExtTreeMap.mem_keys, mem_index h, List.mem_map]

/-! ## Checking -/

/-- Every order of a level is known to the index, there and not elsewhere. -/
theorem mem_level (h : Represents b l) {p : UInt32} {level : List Resting} (hmem : (p, level) ∈ (b.side s).toList)
    {r : Resting} (hr : r ∈ level) : r.qty ≠ 0 ∧ b.index[r.id]? = some (s, p) := by
  rw [(mem_toList h hmem).1] at hr
  obtain ⟨o, ho, rfl⟩ := List.mem_map.mp hr
  obtain ⟨hol, hs, hp⟩ := mem_levelAt.mp ho
  obtain ⟨hpos, hlt⟩ := h.live o hol
  refine ⟨fun hzero => ?_, (h.index _ _ _).mpr ⟨o, hol, rfl, hs, hp⟩⟩
  have hqty : (Order.resting o).qty.toNat = o.qty := UInt32.toNat_ofNat_of_lt' hlt
  rw [hzero] at hqty
  exact absurd hqty.symm (Nat.ne_of_gt hpos)

theorem checkOrders_ok {p : UInt32} {level : List Resting}
    (h : ∀ r ∈ level, r.qty ≠ 0 ∧ b.index[r.id]? = some (s, p)) : b.checkOrders s p level = .ok () := by
  induction level with
  | nil => rfl
  | cons r level ih =>
    obtain ⟨hqty, hindex⟩ := h r (List.mem_cons_self ..)
    rw [Book.checkOrders, if_neg hqty, if_neg (not_not.mpr hindex)]
    exact ih fun r hr => h r (List.mem_cons_of_mem _ hr)

theorem checkLevels_ok {levels : List (UInt32 × List Resting)} (h : ∀ e ∈ levels, e.2 ≠ [] ∧
    ∀ r ∈ e.2, r.qty ≠ 0 ∧ b.index[r.id]? = some (s, e.1)) : b.checkLevels s levels = .ok () := by
  induction levels with
  | nil => rfl
  | cons e levels ih =>
    obtain ⟨hne, hlevel⟩ := h e (List.mem_cons_self ..)
    have hsome : ¬e.2.isEmpty = true := fun hempty => hne (List.isEmpty_iff.mp hempty)
    rw [Book.checkLevels, if_neg hsome, checkOrders_ok hlevel]
    exact ih fun e he => h e (List.mem_cons_of_mem _ he)

theorem checkSide_ok (h : Represents b l) (s : Side) : b.checkLevels s (b.side s).toList = .ok () := by
  apply checkLevels_ok
  rintro ⟨p, level⟩ hmem
  exact ⟨(mem_toList h hmem).2, fun r hr => mem_level h hmem hr⟩

/-- The best bid is below the best ask. -/
theorem best_lt (h : Sound b l) {bid ask : UInt32} (hbid : b.bestBid = some bid) (hask : b.bestAsk = some ask) :
    bid < ask := by
  obtain ⟨o, ho, hbuy, rfl⟩ := (h.mem_side (s := .buy)).mp (best_eq_some.mp hbid).1
  obtain ⟨a, ha, hsell, rfl⟩ := (h.mem_side (s := .sell)).mp (best_eq_some.mp hask).1
  exact h.uncrossed o ho a ha hbuy hsell

/-- **A sound book passes its own check.** -/
theorem check_ok (h : Sound b l) : b.check = .ok () := by
  have hcounted : (Book.resting b.bids ++ Book.resting b.asks).length = b.index.size := by
    rw [(all_perm h.toRepresents).length_eq, List.length_map, size_index h.toRepresents]
  have hledger := h.conserved
  rw [Conserved, ← restingShares_eq h.toRepresents] at hledger
  have hbuy : b.checkLevels .buy b.bids.toList = .ok () := checkSide_ok h.toRepresents .buy
  have hsell : b.checkLevels .sell b.asks.toList = .ok () := checkSide_ok h.toRepresents .sell
  unfold Book.check
  rw [hbuy, hsell, if_neg (not_not.mpr hledger), if_neg (not_not.mpr hcounted)]
  cases hbid : b.bestBid with
  | none => rfl
  | some bid =>
    cases hask : b.bestAsk with
    | none => rfl
    | some ask =>
      have hlt : ¬bid ≥ ask := UInt32.not_le.mpr (best_lt h hbid hask)
      simp only [if_neg hlt]
      rfl

end Resting

/-! ## Snapshots -/

section Snapshot

variable {b : Book} {l : List Order} {s : Side}

/-- The entries of the index that one serialized side holds. -/
def entries (s : Side) (levels : List (UInt32 × List (UInt64 × UInt32))) : List (UInt64 × (Side × UInt32)) :=
  levels.flatMap fun l => l.2.map fun o => (o.1, (s, l.1))

/-- The queues of one serialized side. -/
def queues (levels : List (UInt32 × List (UInt64 × UInt32))) : List (UInt32 × List Resting) :=
  levels.map fun l => (l.1, l.2.map fun o => ⟨o.1, o.2⟩)

/-- What restoring levels of one side changes. -/
structure Restored (s : Side) (b : Book) (levels : List (UInt32 × List (UInt64 × UInt32))) (b' : Book) : Prop where
  side : ∀ s', b'.side s' = if s = s' then insertAll (b.side s) (queues levels) else b.side s'
  index : b'.index = insertAll b.index (entries s levels)
  accepted : b'.acceptedShares = b.acceptedShares
  traded : b'.tradedShares = b.tradedShares
  canceled : b'.canceledShares = b.canceledShares

theorem restored_level (e : UInt32 × List (UInt64 × UInt32)) : Restored s b [e] (Book.restoreLevel s b e) := by
  refine ⟨fun s' => ?_, ?_, ?_, ?_, ?_⟩
  · exact Book.side_setSide ..
  · rw [Book.restoreLevel, Book.setSide_index, entries, List.flatMap_singleton, insertAll, List.foldl_map]
  · exact Book.setSide_acceptedShares ..
  · exact Book.setSide_tradedShares ..
  · exact Book.setSide_canceledShares ..

theorem Restored.trans {b₁ b₂ : Book} {levels levels' : List (UInt32 × List (UInt64 × UInt32))}
    (h : Restored s b levels b₁) (h' : Restored s b₁ levels' b₂) : Restored s b (levels ++ levels') b₂ := by
  refine ⟨fun s' => ?_, ?_, h'.accepted.trans h.accepted, h'.traded.trans h.traded, h'.canceled.trans h.canceled⟩
  · rw [h'.side, h.side, h.side, if_pos rfl]
    by_cases hs : s = s'
    · rw [if_pos hs, if_pos hs, queues, queues, queues, List.map_append, insertAll, insertAll, insertAll,
        List.foldl_append]
    · rw [if_neg hs, if_neg hs, if_neg hs]
  · rw [h'.index, h.index, entries, entries, entries, List.flatMap_append, insertAll, insertAll, insertAll,
      List.foldl_append]

theorem restored_side (levels : List (UInt32 × List (UInt64 × UInt32))) :
    Restored s b levels (Book.restoreSide s b levels) := by
  induction levels generalizing b with
  | nil =>
    refine ⟨fun s' => ?_, rfl, rfl, rfl, rfl⟩
    by_cases hs : s = s'
    · rw [if_pos hs, hs]
      rfl
    · rw [if_neg hs]
      rfl
  | cons e levels ih => exact (restored_level e).trans ih

theorem queues_serialize (levels : Levels) : queues (Book.serialize levels) = levels.toList := by
  rw [queues, Book.serialize, List.map_map]
  calc levels.toList.map _ = levels.toList.map id := by
        apply List.map_congr_left
        rintro ⟨p, level⟩ -
        show (p, (level.map _).map _) = (p, level)
        rw [List.map_map]
        exact congrArg (p, ·) (List.map_id level)
    _ = levels.toList := List.map_id _

theorem entries_serialize (levels : Levels) : entries s (Book.serialize levels) =
    levels.toList.flatMap fun e => e.2.map fun r => (r.id, (s, e.1)) := by
  simp only [entries, Book.serialize, List.flatMap_map, List.map_map, Function.comp_def]

/-- The entries of the index that a side holds. -/
theorem mem_entries {levels : Levels} {id : UInt64} {v : Side × UInt32} :
    (id, v) ∈ entries s (Book.serialize levels) ↔
      v.1 = s ∧ ∃ level, (v.2, level) ∈ levels.toList ∧ ∃ r ∈ level, r.id = id := by
  obtain ⟨s', p⟩ := v
  simp only [entries_serialize, List.mem_flatMap, List.mem_map, Prod.mk.injEq]
  constructor
  · rintro ⟨⟨p', level⟩, hmem, r, hr, rfl, rfl, rfl⟩
    exact ⟨rfl, level, hmem, r, hr, rfl⟩
  · rintro ⟨rfl, level, hmem, r, hr, rfl⟩
    exact ⟨(p, level), hmem, r, hr, rfl, rfl, rfl⟩

theorem entries_ids (levels : Levels) : (entries s (Book.serialize levels)).map Prod.fst =
    (Book.resting levels).map (·.id) := by
  simp only [entries_serialize, Book.resting, List.map_flatMap, List.map_map, Function.comp_def]

/-- **Restoring a snapshot** gives the book back, index and all. -/
theorem restore_eq (h : Represents b l) : Book.restore b.snapshot = b := by
  have hbuy := restored_side (s := .buy)
    (b := ⟨∅, ∅, ∅, b.acceptedShares, b.tradedShares, b.canceledShares⟩) (Book.serialize b.bids)
  have hsell := restored_side (s := .sell) (b := Book.restoreSide .buy
    ⟨∅, ∅, ∅, b.acceptedShares, b.tradedShares, b.canceledShares⟩ (Book.serialize b.bids)) (Book.serialize b.asks)
  apply Book.ext_side
  · intro s
    refine (hsell.side s).trans ?_
    rw [hbuy.side, hbuy.side, queues_serialize, queues_serialize]
    cases s with
    | buy => exact insertAll_toList b.bids
    | sell => exact insertAll_toList b.asks
  · refine hsell.index.trans ?_
    rw [hbuy.index]
    have happend : insertAll (insertAll ∅ (entries .buy (Book.serialize b.bids)))
        (entries .sell (Book.serialize b.asks)) =
        insertAll ∅ (entries .buy (Book.serialize b.bids) ++ entries .sell (Book.serialize b.asks)) := by
      rw [insertAll, insertAll, insertAll, List.foldl_append]
    have hdistinct : ((entries .buy (Book.serialize b.bids) ++
        entries .sell (Book.serialize b.asks)).map Prod.fst).Nodup := by
      rw [List.map_append, entries_ids, entries_ids, ← List.map_append]
      have hids := (all_perm h).map (·.id)
      rw [List.map_map] at hids
      exact hids.nodup_iff.mpr h.distinct
    refine happend.trans (ExtTreeMap.ext_getElem? fun id => Option.ext fun v => ?_)
    obtain ⟨s, p⟩ := v
    rw [getElem?_insertAll ∅ hdistinct, List.mem_append, mem_entries, mem_entries]
    have hside : (∃ level, (p, level) ∈ (b.side s).toList ∧ ∃ r ∈ level, r.id = id) ↔
        b.index[id]? = some (s, p) := by
      constructor
      · rintro ⟨level, hmem, r, hr, rfl⟩
        exact (mem_level h hmem hr).2
      · intro hget
        obtain ⟨o, ho, rfl, rfl, rfl⟩ := (h.index id s p).mp hget
        have hlevel := mem_levelAt.mpr ⟨ho, rfl, rfl⟩
        refine ⟨(levelAt o.side o.price l).map Order.resting, ?_, o.resting, List.mem_map_of_mem hlevel, rfl⟩
        rw [ExtTreeMap.mem_toList_iff_getElem?_eq_some, h.level]
        exact stored_eq_some.mpr ⟨rfl, fun heq => by
          rw [List.map_eq_nil_iff] at heq
          rw [heq] at hlevel
          cases hlevel⟩
    rw [← hside]
    cases s with
    | buy => simp [Book.side]
    | sell => simp [Book.side]
  · exact hsell.accepted.trans hbuy.accepted
  · exact hsell.traded.trans hbuy.traded
  · exact hsell.canceled.trans hbuy.canceled

end Snapshot

/-! ## Priority -/

section Priority

variable {b : Book} {l : List Order} {f : List (Order × ℕ)} {maker : Side} {limit : UInt32} {n : ℕ} {o o' : Order}

theorem mem_queue : o ∈ Market.queue maker limit l ↔
    o ∈ l ∧ o.side = maker ∧ rank maker o.price ≤ rank maker limit := by
  rw [Market.queue, (sortBy_perm _).mem_iff, Market.within, List.mem_filter, decide_eq_true_eq]

/-- Orders at one price stand in the queue as they stand in their level. -/
theorem queue_level (hlimit : rank maker o.price ≤ rank maker limit)
    (hlevel : [o', o].Sublist (levelAt maker o.price l)) (hprice : o'.price = o.price) :
    [o', o].Sublist (Market.queue maker limit l) := by
  apply before_of_eq
  · rw [← bucket_within hlimit] at hlevel
    exact hlevel.trans List.filter_sublist
  · rw [hprice]

/-- **Whoever stands before a maker that traded** has traded everything. -/
theorem fills_before (hdistinct : (l.map Order.id).Nodup) {k : ℕ} (h : (o, k) ∈ Market.fills maker limit n l)
    (horder : [o', o].Sublist (Market.queue maker limit l)) : (o', o'.qty) ∈ Market.fills maker limit n l := by
  have hids : ((Market.queue maker limit l).map Order.id).Nodup :=
    ((sortBy_perm _).map Order.id).nodup_iff.mpr ((List.filter_sublist.map Order.id).nodup hdistinct)
  exact allocate_before hids.of_map horder h

/-- A trade of a submission was allocated. -/
theorem trade_mem {id m : UInt64} {side : Side} {price qty p q : UInt32} {expiry : Option UInt64}
    (h : Evt.trade id m p q ∈ (Market.submit l id side price qty expiry).outputs) :
    (¬∃ a ∈ l, a.id = id) ∧
    ∃ o k, (o, k) ∈ Market.fills side.opposite price qty.toNat l ∧ o.id = m ∧ o.price = p ∧
      (∀ o', (o', o'.qty) ∈ Market.fills side.opposite price qty.toNat l →
        Market.trade id (o', o'.qty) ∈ (Market.submit l id side price qty expiry).outputs ∧
        ∀ a ∈ (Market.submit l id side price qty expiry).state,
          a ∈ Market.reduce (Market.fills side.opposite price qty.toNat l) l ∨ a.id = id) := by
  rw [Market.submit] at h ⊢
  split at h
  · simp at h
  · rename_i hzero
    split at h
    · simp at h
    · rename_i hdup
      rw [if_neg hzero, if_neg hdup]
      rcases List.mem_cons.mp h with heq | h
      · cases heq
      · obtain ⟨⟨o, k⟩, hmem, htrade⟩ := List.mem_map.mp h
        obtain ⟨-, hid, hprice, -⟩ := Evt.trade.inj htrade
        refine ⟨hdup, o, k, hmem, hid, hprice, fun o' ho' => ⟨?_, fun a ha => ?_⟩⟩
        · exact List.mem_cons_of_mem _ (List.mem_map_of_mem ho')
        · rcases List.mem_append.mp ha with ha | ha
          · exact .inl ha
          · split at ha
            · rw [List.mem_singleton.mp ha]
              exact .inr rfl
            · cases ha

end Priority

/-! ## What holds of every session -/

/-- **Price-time priority**: over every session, the book answers as the market does and stands for its orders. -/
theorem follows_priority (events : List Event) : ∃ b, Book.run .genesis events = some (b, (Market.run [] events).2) ∧
    Represents b (Market.run [] events).1 := by
  obtain ⟨b, hrun, hsound⟩ := run_eq sound_genesis events
  exact ⟨b, hrun, hsound.toRepresents⟩

/-- **The book passes its check** after every session, whatever the commands and the timers were: it never panics, is
never crossed, loses no share, and its index knows its orders. -/
theorem never_violates (events : List Event) : ∃ b answers, Book.run .genesis events = some (b, answers) ∧
    b.check = .ok () := by
  obtain ⟨b, hrun, hsound⟩ := run_eq sound_genesis events
  exact ⟨b, _, hrun, check_ok hsound⟩

/-- **Better makers are filled first**: when a taker trades with a maker, every order at a better price, and every
order before that maker at its own price, trades all it has and leaves the book. -/
theorem better_makers_first {events : List Event} {b : Book} {answers : List (List Evt × List TimerReq)}
    (hrun : Book.run .genesis events = some (b, answers)) {id : UInt64} {side : Side} {limit qty : UInt32}
    {expiry : Option UInt64} {step : Step Book Evt} (hstep : b.submit id side limit qty expiry = some step)
    {maker : UInt64} {price amount : UInt32} (htrade : Evt.trade id maker price amount ∈ step.outputs)
    {other : UInt64} {price' : UInt32} {level : List Resting}
    (hlevel : (b.side side.opposite)[price']? = some level)
    (hbefore : Book.beyond price price' side.opposite = true ∧ other ∈ level.map (·.id) ∨
      price' = price ∧ [other, maker].Sublist (level.map (·.id))) :
    step.state.index[other]? = none ∧
      ∃ r ∈ level, r.id = other ∧ Evt.trade id other price' r.qty ∈ step.outputs := by
  have hsound := run_sound sound_genesis hrun
  generalize (Market.run [] events).1 = l at hsound
  obtain ⟨b', hsubmit, hsound'⟩ := submit_eq hsound id side limit qty expiry
  rw [hstep] at hsubmit
  obtain rfl := Option.some.inj hsubmit
  obtain ⟨hdup, o, k, hfill, rfl, rfl, hanswer⟩ := trade_mem htrade
  obtain ⟨hol, hside, hlimit⟩ := mem_queue.mp
    ((allocate_front _ _).subset (List.mem_map.mpr ⟨(o, k), hfill, rfl⟩))
  -- the other order, and that it stands before the maker
  have hqueue := (stored_eq_some.mp ((hsound.level _ _).symm.trans hlevel)).1
  have hother : ∃ o' ∈ l, o'.id = other ∧ o'.side = side.opposite ∧ o'.price = price' ∧
      [o', o].Sublist (Market.queue side.opposite limit l) := by
    rw [← hqueue, List.map_map] at hbefore
    rcases hbefore with ⟨hbeyond, hmem⟩ | ⟨rfl, hsub⟩
    · obtain ⟨o', ho', rfl⟩ := List.mem_map.mp hmem
      obtain ⟨hol', hside', rfl⟩ := mem_levelAt.mp ho'
      have hlt := beyond_iff.mp hbeyond
      refine ⟨o', hol', rfl, hside', rfl, before_of_lt ?_ ?_ hlt⟩
      · exact List.mem_filter.mpr ⟨hol', decide_eq_true ⟨hside', (Int.le_of_lt hlt).trans hlimit⟩⟩
      · exact List.mem_filter.mpr ⟨hol, decide_eq_true ⟨hside, hlimit⟩⟩
    · -- two members of one level, found again by their ids
      obtain ⟨two, htwo, hids⟩ := List.sublist_map_iff.mp hsub
      obtain ⟨o', rest, rfl, ho', hrest⟩ := List.map_eq_cons_iff.mp hids.symm
      obtain ⟨a, last, rfl, ha, hlast⟩ := List.map_eq_cons_iff.mp hrest
      obtain rfl := List.map_eq_nil_iff.mp hlast
      obtain ⟨hol', hside', hprice'⟩ := mem_levelAt.mp (htwo.subset (List.mem_cons_self ..))
      have hal := (mem_levelAt.mp (htwo.subset (by simp : a ∈ [o', a]))).1
      obtain rfl := eq_of_id hsound.distinct hal hol ha
      exact ⟨o', hol', ho', hside', hprice', queue_level hlimit htwo hprice'⟩
  obtain ⟨o', hol', rfl, hside', rfl, horder⟩ := hother
  have hfilled := fills_before hsound.distinct hfill horder
  obtain ⟨htraded, hstate⟩ := hanswer o' hfilled
  refine ⟨?_, o'.resting, ?_, rfl, htraded⟩
  · -- it has given everything, so the market no longer holds it
    have htaken : Taken (Market.fills side.opposite limit qty.toNat l) l := taken_fills hsound.distinct
    have hgone : o'.id ∈ exhausted (Market.fills side.opposite limit qty.toNat l) :=
      List.mem_map.mpr ⟨(o', o'.qty), List.mem_filter.mpr ⟨hfilled, decide_eq_true rfl⟩, rfl⟩
    rw [mem_exhausted htaken hsound.distinct hsound.live hol'] at hgone
    cases hindex : b'.index[o'.id]? with
    | none => rfl
    | some at' =>
      obtain ⟨a, ha, hid, -⟩ := (hsound'.index o'.id at'.1 at'.2).mp hindex
      rcases hstate a ha with hreduced | hself
      · obtain ⟨a', ha', rfl, hpos⟩ := Market.mem_reduce.mp hreduced
        obtain rfl := eq_of_id hsound.distinct ha' hol' hid
        exact absurd hpos hgone
      · exact absurd ⟨o', hol', hid.symm.trans hself⟩ hdup
  · rw [← hqueue]
    exact List.mem_map_of_mem (mem_levelAt.mpr ⟨hol', hside', rfl⟩)

/-- Two asks rest, and a buyer takes the first and part of the second. -/
def sweep : Option ((Book × List (List Evt × List TimerReq)) × Step Book Evt) := do
  let opened ← Book.run .genesis [.command (.submit 1 .sell 10 5), .command (.submit 2 .sell 11 5)]
  let step ← opened.1.submit 3 .buy 11 7 none
  pure (opened, step)

/-- The ask at the better price is gone, and was filled. -/
theorem better_makers_first_of_sweep : ∃ step : Step Book Evt, Evt.trade 3 2 11 2 ∈ step.outputs ∧
    step.state.index[(1 : UInt64)]? = none ∧ Evt.trade 3 1 10 5 ∈ step.outputs := by
  have hplay : sweep.any (fun p => decide (Evt.trade 3 2 11 2 ∈ p.2.outputs) &&
      decide ((p.1.1.side .sell)[(10 : UInt32)]? = some [⟨1, 5⟩])) = true := by decide +kernel
  obtain ⟨⟨⟨b, answers⟩, step⟩, hplay, hchecked⟩ := (Option.any_eq_true _ _).mp hplay
  rw [Bool.and_eq_true, decide_eq_true_eq, decide_eq_true_eq] at hchecked
  simp only [sweep, bind, Option.bind_eq_some_iff, pure, Option.some.injEq, Prod.mk.injEq] at hplay
  obtain ⟨_, hrun, _, hstep, rfl, rfl⟩ := hplay
  have hbetter := better_makers_first hrun hstep hchecked.1 hchecked.2 (.inl ⟨by decide, List.mem_singleton_self 1⟩)
  obtain ⟨hgone, r, hr, hid, htraded⟩ := hbetter
  obtain rfl := List.mem_singleton.mp hr
  exact ⟨_, hchecked.1, hgone, htraded⟩

end Ticktape.Orderbook
