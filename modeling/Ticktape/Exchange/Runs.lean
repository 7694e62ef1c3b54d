import Ticktape.Exchange.Sessions

/-!
# Runs of the exchange

Inputs of all sessions in the order they were sequenced. Over every run nothing panics and the check passes, an order
leaves the book only by a trade, its owner's cancel or its owner's disconnect, and what was delivered twice counts once.
-/

namespace Ticktape.Exchange

open Ticktape.Lib Ticktape.Core Ticktape.Orderbook Ticktape.Gateway Std

section Runs

variable {x x' : Exchange} {l : List Order} {outs : List (List (Addressed Evt))} {inputs : List (GatewayInput Cmd)}

theorem owns_genesis : Owns .genesis [] where
  sound := sound_genesis
  agree := by
    intro session id
    have hnone : (genesis.owners)[id]? = none := ExtTreeMap.getElem?_empty
    have hempty : genesis.ownedBy session = ∅ := ExtTreeMap.getD_empty
    rw [hnone, hempty]
    exact ⟨fun hmem => absurd hmem ExtTreeSet.not_mem_empty, fun heq => by cases heq⟩
  owners := by
    intro id
    constructor
    · exact fun hmem => absurd hmem ExtTreeMap.not_mem_empty
    · rintro ⟨o, ho, -⟩
      cases ho

/-- **Step lemma**. -/
theorem apply_owns (h : Owns x l) (input : GatewayInput Cmd) :
    ∃ answer, x.apply input = some answer ∧ ∃ l', Owns answer.1 l' := by
  cases input with
  | client session clientSeq cmd =>
    obtain ⟨answer, happly, hadmitted⟩ := applyClient_eq h session clientSeq cmd
    exact ⟨answer, happly, hadmitted.owns h⟩
  | sessionClosed session =>
    obtain ⟨x', out, hclose, h', -⟩ := closeSession_eq h session
    exact ⟨(x', out), hclose, _, h'⟩

/-- **Run lemma**. -/
theorem run_owns (h : Owns x l) (inputs : List (GatewayInput Cmd)) :
    ∃ x' outs, x.run inputs = some (x', outs) ∧ ∃ l', Owns x' l' := by
  induction inputs generalizing x l with
  | nil => exact ⟨x, [], rfl, l, h⟩
  | cons input inputs ih =>
    obtain ⟨answer, happly, l₁, h₁⟩ := apply_owns h input
    obtain ⟨x', outs, hrun, hlast⟩ := ih h₁
    refine ⟨x', answer.2 :: outs, ?_, hlast⟩
    rw [Exchange.run, happly]
    simp only [Option.bind_eq_bind, Option.bind_some, hrun]

theorem owns_of_run (hrun : run .genesis inputs = some (x, outs)) : ∃ l, Owns x l := by
  obtain ⟨x', outs', hrun', hlast⟩ := run_owns owns_genesis inputs
  rw [hrun] at hrun'
  obtain ⟨rfl, -⟩ := Prod.mk.inj (Option.some.inj hrun')
  exact hlast

end Runs

/-! ## The check -/

section Check

variable {x : Exchange} {l : List Order}

theorem checkOwners_ok {entries : List (UInt64 × UInt64)}
    (h : ∀ e ∈ entries, e.1 ∈ x.book.index ∧ e.1 ∈ x.ownedBy e.2) : x.checkOwners entries = .ok () := by
  induction entries with
  | nil => rfl
  | cons e entries ih =>
    obtain ⟨hrests, howned⟩ := h e (List.mem_cons_self ..)
    rw [Exchange.checkOwners, if_neg (not_not.mpr hrests), if_neg (not_not.mpr howned)]
    exact ih fun e he => h e (List.mem_cons_of_mem _ he)

/-- One owner for every resting order. -/
theorem size_owners (h : Owns x l) : x.owners.size = x.book.index.size := by
  rw [← ExtTreeMap.length_keys, ← ExtTreeMap.length_keys]
  apply List.Perm.length_eq
  rw [List.perm_ext_iff_of_nodup ExtTreeMap.nodup_keys ExtTreeMap.nodup_keys]
  intro id
  rw [ExtTreeMap.mem_keys, ExtTreeMap.mem_keys, h.owners, mem_index h.sound.toRepresents]

/-- The entries of the reverse index, the other way round. -/
def reversed (x : Exchange) : List (UInt64 × UInt64) := x.owned.toList.flatMap fun e => e.2.toList.map fun id => (id, e.1)

theorem mem_reversed (h : Agree x) {id session : UInt64} :
    (id, session) ∈ reversed x ↔ x.owners[id]? = some session := by
  rw [← h, ownedBy, ExtTreeMap.getD_eq_getD_getElem?, reversed, List.mem_flatMap]
  constructor
  · rintro ⟨⟨s, ids⟩, hmem, hid⟩
    obtain ⟨i, hi, heq⟩ := List.mem_map.mp hid
    obtain ⟨rfl, rfl⟩ := Prod.mk.inj heq
    rw [ExtTreeMap.mem_toList_iff_getElem?_eq_some] at hmem
    rw [hmem]
    exact ExtTreeSet.mem_toList.mp hi
  · intro hid
    cases hget : x.owned[session]? with
    | none =>
      rw [hget] at hid
      exact absurd hid ExtTreeSet.not_mem_empty
    | some ids =>
      rw [hget] at hid
      refine ⟨(session, ids), ExtTreeMap.mem_toList_iff_getElem?_eq_some.mpr hget, List.mem_map.mpr ⟨id, ?_, rfl⟩⟩
      exact ExtTreeSet.mem_toList.mpr hid

theorem nodup_reversed : (reversed x).Nodup := by
  rw [reversed, List.nodup_flatMap]
  constructor
  · intro e _
    exact (nodup_setToList e.2).map fun a b heq => (Prod.mk.inj heq).1
  · -- two entries are of two sessions
    have hkeys : x.owned.toList.Pairwise fun e e' => e.1 ≠ e'.1 := List.pairwise_map.mp (nodup_toList x.owned)
    refine hkeys.imp fun {e e'} hne => ?_
    intro p hp hp'
    obtain ⟨i, -, rfl⟩ := List.mem_map.mp hp
    obtain ⟨j, -, heq⟩ := List.mem_map.mp hp'
    exact hne (Prod.mk.inj heq).2.symm

/-- The reverse index has as many entries as there are owners. -/
theorem size_owned (h : Agree x) : (x.owned.toList.map (·.2.size)).sum = x.owners.size := by
  have hlength : (reversed x).length = (x.owned.toList.map (·.2.size)).sum := by
    rw [reversed, List.length_flatMap]
    congr 1
    apply List.map_congr_left
    intro e _
    rw [List.length_map, ExtTreeSet.length_toList]
  have hperm : (reversed x).Perm x.owners.toList := by
    rw [List.perm_ext_iff_of_nodup nodup_reversed (nodup_toList x.owners).of_map]
    rintro ⟨id, session⟩
    rw [mem_reversed h, ExtTreeMap.mem_toList_iff_getElem?_eq_some]
  rw [← hlength, hperm.length_eq, ExtTreeMap.length_toList]

/-- **An exchange in order passes its own check.** -/
theorem check_ok (h : Owns x l) : x.check = .ok () := by
  have howners : x.checkOwners x.owners.toList = .ok () := by
    apply checkOwners_ok
    rintro ⟨id, session⟩ hmem
    rw [ExtTreeMap.mem_toList_iff_getElem?_eq_some] at hmem
    refine ⟨?_, (h.agree session id).mpr hmem⟩
    rw [mem_index h.sound.toRepresents, ← h.owners, mem_owners_iff]
    show (x.owners[id]?).isSome
    rw [hmem]
    rfl
  unfold Exchange.check
  rw [Orderbook.check_ok h.sound, howners, if_neg (not_not.mpr (size_owners h)), if_neg (not_not.mpr (size_owned h.agree))]
  rfl

end Check

/-- **Never in violation**: over every run of inputs, of whatever sessions, the exchange does not panic and passes its
check. -/
theorem passes_check (inputs : List (GatewayInput Cmd)) : ∃ x outs, run .genesis inputs = some (x, outs) ∧
    x.check = .ok () := by
  obtain ⟨x, outs, hrun, l, h⟩ := run_owns owns_genesis inputs
  exact ⟨x, outs, hrun, check_ok h⟩

/-! ## How an order leaves -/

section Leaving

variable {x y : Exchange} {l : List Order} {f : List (Order × ℕ)} {o : Order} {origin taker session owner id : UInt64}

/-- The owner of a maker is told of its trade. -/
theorem mem_route_trade {k : ℕ} (howner : y.owners[o.id]? = some owner) :
    ⟨owner, Market.trade taker (o, k)⟩ ∈ (y.route origin (Market.trade taker (o, k))).2 := by
  rw [Market.trade, Exchange.route, howner]
  by_cases hself : owner = origin
  · rw [hself]
    exact List.mem_cons_self ..
  · apply List.mem_cons_of_mem
    show _ ∈ if owner ≠ origin then _ else _
    rw [if_pos hself]
    exact List.mem_cons_self ..

theorem mem_routeAll_trades {k : ℕ} (hmem : (o, k) ∈ f) (hdistinct : (f.map (·.1.id)).Nodup)
    (howner : y.owners[o.id]? = some owner) :
    ⟨owner, Market.trade taker (o, k)⟩ ∈ (y.routeAll origin (f.map (Market.trade taker))).2 := by
  induction f generalizing y with
  | nil => cases hmem
  | cons p f ih =>
    obtain ⟨hnot, hnodup⟩ := List.nodup_cons.mp hdistinct
    rw [List.map_cons, Exchange.routeAll]
    rcases List.mem_cons.mp hmem with rfl | hmem
    · exact List.mem_append_left _ (mem_route_trade howner)
    · apply List.mem_append_right
      apply ih hmem hnodup
      -- the maker at the head is another order
      have hne : ¬(o.id ∈ [p].map (fun p => p.1.id) ∧ o.id ∉ y.book.index) := by
        rintro ⟨hin, -⟩
        rw [List.map_singleton, List.mem_singleton] at hin
        exact hnot (List.mem_map.mpr ⟨(o, k), hmem, hin⟩)
      have hkept := (routed_trades origin taker y [p]).kept o.id hne
      exact hkept.trans howner

/-- **A submission** takes an order off the book by a trade, and its owner is told. -/
theorem submit_tells (h : Owns x l) (hy : y.owners = x.owners) (ho : o ∈ l) (howner : x.owners[o.id]? = some owner)
    {side : Side} {price qty : UInt32} {expiry : Option UInt64}
    (hgone : ¬∃ a ∈ (Market.submit l id side price qty expiry).state, a.id = o.id) :
    ⟨owner, Market.trade id (o, o.qty)⟩ ∈
      (y.routeAll session (Market.submit l id side price qty expiry).outputs).2 := by
  unfold Market.submit at hgone ⊢
  by_cases hzero : qty = 0
  · rw [if_pos hzero] at hgone
    exact absurd ⟨o, ho, rfl⟩ hgone
  · rw [if_neg hzero] at hgone ⊢
    by_cases hdup : ∃ a ∈ l, a.id = id
    · rw [if_pos hdup] at hgone
      exact absurd ⟨o, ho, rfl⟩ hgone
    · rw [if_neg hdup] at hgone ⊢
      have htaken : Taken (Market.fills side.opposite price qty.toNat l) l := taken_fills h.sound.distinct
      generalize Market.fills side.opposite price qty.toNat l = f at hgone htaken ⊢
      have hexhausted : o.id ∈ Market.exhausted f := by
        rw [mem_exhausted htaken h.sound.distinct h.sound.live ho]
        intro hpos
        exact hgone ⟨_, List.mem_append_left _ (Market.mem_reduce.mpr ⟨o, ho, rfl, hpos⟩), rfl⟩
      obtain ⟨⟨a, k⟩, hfill, hid⟩ := List.mem_map.mp hexhausted
      obtain ⟨hmem, hall⟩ := List.mem_filter.mp hfill
      obtain rfl : a = o := eq_of_id h.sound.distinct (htaken.mem _ hmem) ho hid
      obtain rfl : k = a.qty := of_decide_eq_true hall
      apply List.mem_append_right
      apply mem_routeAll_trades hmem htaken.distinct
      -- the acceptance gives an owner to the new order only
      show (if id ∈ y.book.index then y.own id session else y).owners[a.id]? = some owner
      have hne : id ≠ a.id := fun heq => hdup ⟨a, ho, heq.symm⟩
      split
      · rw [getElem?_own, if_neg hne, hy, howner]
      · rw [hy, howner]

/-- What can end an order: a trade its owner is told of, its owner's cancel, or its owner's disconnect. -/
inductive Ending (owner id : UInt64) : GatewayInput Cmd → List (Addressed Evt) → Prop where
  | traded {session clientSeq : UInt64} {cmd : Cmd} {out : List (Addressed Evt)} (taker : UInt64) (price qty : UInt32)
      (htold : ⟨owner, .trade taker id price qty⟩ ∈ out) : Ending owner id (.client session clientSeq cmd) out
  | canceled {clientSeq : UInt64} {out : List (Addressed Evt)} (qty : UInt32)
      (htold : ⟨owner, .canceled id qty⟩ ∈ out) : Ending owner id (.client owner clientSeq (.cancel id)) out
  | closed {out : List (Addressed Evt)} (qty : UInt32)
      (htold : ⟨owner, .canceled id qty⟩ ∈ out) : Ending owner id (.sessionClosed owner) out

/-- An order that still rests is still its owner's. -/
theorem Driven.kept {x' : Exchange} {l' : List Order} (hdriven : Driven x x' session l')
    (howner : x.owners[id]? = some owner) (hrests : ∃ o ∈ l', o.id = id) : x'.owners[id]? = some owner := by
  rw [hdriven.inherited id ((hdriven.owns.owners id).mpr hrests), howner]
  rfl

theorem client_ends (h : Owns x l) {clientSeq : UInt64} {cmd : Cmd} {answer : Answer}
    (hadmitted : Admitted x l session clientSeq cmd answer) (howner : x.owners[id]? = some owner) :
    answer.1.owners[id]? = some owner ∨
      answer.1.owners[id]? = none ∧ Ending owner id (.client session clientSeq cmd) answer.2 := by
  cases hadmitted with
  | duplicate => exact .inl howner
  | refused => exact .inl howner
  | driven y hnew hcancel hy hdriven =>
    obtain ⟨o, ho, rfl⟩ := (h.owners id).mp (mem_owners_iff.mpr (by rw [howner]; rfl))
    by_cases hrests : ∃ a ∈ (Market.apply l cmd).state, a.id = o.id
    · exact .inl (hdriven.kept howner hrests)
    · refine .inr ⟨ExtTreeMap.getElem?_eq_none fun hmem => hrests ((hdriven.owns.owners _).mp hmem), ?_⟩
      cases cmd with
      | submit id side price qty => exact .traded id o.price _ (submit_tells h hy ho howner hrests)
      | submitGtd id side price qty expireAt => exact .traded id o.price _ (submit_tells h hy ho howner hrests)
      | cancel id =>
        -- the order that is canceled is the one that left
        have hself : o.id = id := by
          by_contra hne
          apply hrests
          refine ⟨o, ?_, rfl⟩
          show o ∈ (Market.cancel l id).state
          unfold Market.cancel
          split
          · exact ho
          · exact mem_remove.mpr ⟨ho, hne⟩
        subst hself
        obtain rfl := Option.some.inj ((hcancel o.id rfl).symm.trans howner)
        have hmarket : (Market.apply l (.cancel o.id)).outputs = [.canceled o.id (UInt32.ofNat o.qty)] := by
          show (Market.cancel l o.id).outputs = _
          rw [Market.cancel, find?_id h.sound.distinct ho]
        rw [hmarket]
        exact .canceled _ (List.mem_cons_self ..)

theorem close_ends (h : Owns x l) {out : List (Addressed Evt)} (hclose : x.closeSession session = some (y, out))
    (howner : x.owners[id]? = some owner) :
    y.owners[id]? = some owner ∨ y.owners[id]? = none ∧ Ending owner id (.sessionClosed session) out := by
  obtain ⟨x', out', hclose', -, -, howners, hout⟩ := closeSession_eq h session
  rw [hclose] at hclose'
  obtain ⟨rfl, rfl⟩ := Prod.mk.inj (Option.some.inj hclose')
  by_cases hself : owner = session
  · subst hself
    refine .inr ⟨by rw [howners, if_pos howner], ?_⟩
    obtain ⟨i, hi, hget⟩ := List.getElem_of_mem ((mem_ofSession h.agree).mpr howner)
    obtain ⟨hlength, hevents⟩ := List.forall₂_iff_get.mp hout
    obtain ⟨o, -, -, hevent⟩ := hevents i hi (hlength ▸ hi)
    refine .closed (UInt32.ofNat o.qty) ?_
    have hid : (ofSession x owner).get ⟨i, hi⟩ = id := hget
    rw [← hid, ← hevent]
    exact List.get_mem ..
  · have hne : x.owners[id]? ≠ some session := by
      rw [howner]
      exact fun heq => hself (Option.some.inj heq)
    exact .inl (by rw [howners, if_neg hne, howner])

end Leaving

/-- **How an order leaves**: in every reachable exchange and for every input, an order with an owner either still rests
and is still its owner's, or has left the book by a trade, by its owner's own cancel or when its owner's session closed,
and the owner is sent the event. -/
theorem order_ends {inputs : List (GatewayInput Cmd)} {x : Exchange} {outs : List (List (Addressed Evt))}
    (hrun : run .genesis inputs = some (x, outs)) {input : GatewayInput Cmd} {answer : Answer}
    (happly : x.apply input = some answer) {id owner : UInt64} (howner : x.owners[id]? = some owner) :
    id ∈ answer.1.book.index ∧ answer.1.owners[id]? = some owner ∨
      id ∉ answer.1.book.index ∧ answer.1.owners[id]? = none ∧ Ending owner id input answer.2 := by
  obtain ⟨l, h⟩ := owns_of_run hrun
  obtain ⟨answer', happly', l', h'⟩ := apply_owns h input
  rw [happly] at happly'
  obtain rfl := Option.some.inj happly'
  have hindex : id ∈ answer.1.book.index ↔ id ∈ answer.1.owners := by
    rw [mem_index h'.sound.toRepresents, h'.owners]
  rw [hindex, mem_owners_iff]
  have hends : answer.1.owners[id]? = some owner ∨
      answer.1.owners[id]? = none ∧ Ending owner id input answer.2 := by
    cases input with
    | client session clientSeq cmd =>
      obtain ⟨answer', happly', hadmitted⟩ := applyClient_eq h session clientSeq cmd
      rw [Exchange.apply, happly'] at happly
      obtain rfl := Option.some.inj happly
      exact client_ends h hadmitted howner
    | sessionClosed session => exact close_ends h happly howner
  rcases hends with hkept | ⟨hnone, hending⟩
  · exact .inl ⟨by rw [hkept]; rfl, hkept⟩
  · exact .inr ⟨by rw [hnone]; exact Bool.false_ne_true, hnone, hending⟩

/-- Two sessions trade, and the buyer takes the seller's order off the book. -/
def crossed : Option ((Exchange × List (List (Addressed Evt))) × Answer) := do
  let opened ← run .genesis [.client 1 1 (.submit 10 .sell 100 5), .client 2 1 (.submit 11 .sell 100 5)]
  let answer ← opened.1.apply (.client 3 1 (.submit 12 .buy 100 5))
  pure (opened, answer)

/-- The first seller's order was traded, and the seller was told. -/
theorem order_ends_of_trade : ∃ answer : Answer, answer.1.owners[(10 : UInt64)]? = none ∧
    Ending 1 10 (.client 3 1 (.submit 12 .buy 100 5)) answer.2 := by
  have hplay : crossed.any (fun p => decide (p.1.1.owners[(10 : UInt64)]? = some 1) &&
      decide (p.2.1.owners[(10 : UInt64)]? = none)) = true := by decide +kernel
  obtain ⟨⟨⟨x, outs⟩, answer⟩, hplay, hchecked⟩ := (Option.any_eq_true _ _).mp hplay
  rw [Bool.and_eq_true, decide_eq_true_eq, decide_eq_true_eq] at hchecked
  simp only [crossed, bind, Option.bind_eq_some_iff, pure, Option.some.injEq, Prod.mk.injEq] at hplay
  obtain ⟨_, hrun, _, happly, rfl, rfl⟩ := hplay
  rcases order_ends hrun happly hchecked.1 with ⟨-, hkept⟩ | ⟨-, hgone⟩
  · rw [hchecked.2] at hkept
    cases hkept
  · exact ⟨_, hgone⟩

/-! ## Disconnects -/

/-- The queue of a level. -/
def queueAt (x : Exchange) (s : Side) (p : UInt32) : List Resting := ((x.book.side s)[p]?).getD []

theorem queueAt_eq {x : Exchange} {l : List Order} (h : Owns x l) (s : Side) (p : UInt32) :
    x.queueAt s p = (levelAt s p l).map Order.resting := by
  rw [queueAt, h.sound.level]
  cases hlevel : (levelAt s p l).map Order.resting with
  | nil => rfl
  | cons r rs => rfl

/-- **Cancel-on-disconnect**: in every reachable exchange, a session that closes is sent a cancel of every order it
owns, in ascending order of their ids and with the shares that rested; its orders leave the queues, the others keep
their place in them, and the numbers of every session survive. -/
theorem disconnect_pulls {inputs : List (GatewayInput Cmd)} {x : Exchange} {outs : List (List (Addressed Evt))}
    (hrun : run .genesis inputs = some (x, outs)) (session : UInt64) :
    ∃ x' out, ∃ ids : List UInt64, x.apply (.sessionClosed session) = some (x', out) ∧
      ids.Pairwise (· < ·) ∧ (∀ id, id ∈ ids ↔ x.owners[id]? = some session) ∧
      List.Forall₂ (fun id a => ∃ s p, ∃ r ∈ x.queueAt s p, r.id = id ∧ a = ⟨session, .canceled id r.qty⟩) ids out ∧
      (∀ s p, x'.queueAt s p = (x.queueAt s p).filter fun r => x.owners[r.id]? ≠ some session) ∧
      x'.lastClientSeq = x.lastClientSeq := by
  obtain ⟨l, h⟩ := owns_of_run hrun
  obtain ⟨x', out, hclose, h', hlast, howners, hout⟩ := closeSession_eq h session
  refine ⟨x', out, ofSession x session, hclose, ?_, fun id => mem_ofSession h.agree, ?_, fun s p => ?_, hlast⟩
  · have hordered : (ofSession x session).Pairwise fun a b => compare a b = .lt := ExtTreeSet.ordered_toList
    exact hordered.imp fun hlt => Std.compare_eq_lt.mp hlt
  · refine hout.imp fun id a => ?_
    rintro ⟨o, ho, rfl, rfl⟩
    refine ⟨o.side, o.price, o.resting, ?_, rfl, rfl⟩
    rw [queueAt_eq h]
    exact List.mem_map_of_mem (mem_levelAt.mpr ⟨ho, rfl, rfl⟩)
  · rw [queueAt_eq h', queueAt_eq h, List.filter_map]
    congr 1
    rw [levelAt, levelAt, without, List.filter_filter, List.filter_filter]
    apply List.filter_congr
    intro o _
    rw [Bool.eq_iff_iff]
    rw [Bool.and_eq_true, decide_eq_true_eq, decide_eq_true_eq, mem_ofSession h.agree, Bool.and_eq_true,
      Function.comp_apply, decide_eq_true_eq, decide_eq_true_eq]
    exact and_comm

/-- A session with two orders closes, and one order of another session rests between them. -/
theorem disconnect_pulls_of_two : ∃ x outs x' out, ∃ ids : List UInt64,
    run .genesis [.client 1 1 (.submit 12 .sell 100 5), .client 2 1 (.submit 11 .sell 100 5),
      .client 1 2 (.submit 10 .sell 100 7)] = some (x, outs) ∧
    x.apply (.sessionClosed 1) = some (x', out) ∧ ids.Pairwise (· < ·) ∧
      (∀ id, id ∈ ids ↔ x.owners[id]? = some 1) ∧ x'.lastClientSeq = x.lastClientSeq := by
  have hplay : (run .genesis [.client 1 1 (.submit 12 .sell 100 5), .client 2 1 (.submit 11 .sell 100 5),
      .client 1 2 (.submit 10 .sell 100 7)]).isSome = true := by decide +kernel
  obtain ⟨⟨x, outs⟩, hrun⟩ := Option.isSome_iff_exists.mp hplay
  obtain ⟨x', out, ids, happly, hordered, howned, -, -, hlast⟩ := disconnect_pulls hrun 1
  exact ⟨x, outs, x', out, ids, hrun, happly, hordered, howned, hlast⟩

end Ticktape.Exchange
