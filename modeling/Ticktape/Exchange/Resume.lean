import Ticktape.Exchange.Runs

/-!
# Coming back

A gateway that lost an acknowledgement sends again, and a node that crashed restores a snapshot. Neither can be told
from the outside: a stale command changes nothing however late it comes, and the exchange restored from its own
snapshot answers every further input as the one it was taken from.
-/

namespace Ticktape.Exchange

open Ticktape.Lib Ticktape.Core Ticktape.Orderbook Ticktape.Gateway Std

/-! ## Delivered again -/

/-- A delivery of what was sent, in which commands of a session come again, or come too late, after one with a number
at least as high. -/
inductive Redelivered (sent : List (GatewayInput Cmd)) : List (GatewayInput Cmd) → Prop where
  | same : Redelivered sent sent
  | again {before later : List (GatewayInput Cmd)} {session clientSeq newer : UInt64} {cmd cmd' : Cmd}
      (h : Redelivered sent (before ++ later)) (hseen : .client session newer cmd' ∈ before)
      (hstale : clientSeq ≤ newer) : Redelivered sent (before ++ .client session clientSeq cmd :: later)

section Again

variable {x x' : Exchange} {l : List Order} {session clientSeq n : UInt64} {outs : List (List (Addressed Evt))}

/-- The session has a number at least this high. -/
def Seen (x : Exchange) (session n : UInt64) : Prop := ∃ m, x.lastClientSeq[session]? = some m ∧ n ≤ m

theorem seen_noted {last : ExtTreeMap UInt64 UInt64} {m : UInt64} (hlast : last.getD session 0 ≤ m) {s : UInt64}
    (h : ∃ k, last[s]? = some k ∧ n ≤ k) : ∃ k, (last.insert session m)[s]? = some k ∧ n ≤ k := by
  obtain ⟨k, hget, hle⟩ := h
  rw [ExtTreeMap.getElem?_insert]
  by_cases hs : session = s
  · subst hs
    rw [ExtTreeMap.getD_eq_getD_getElem?, hget] at hlast
    rw [if_pos (compare_iff.mpr rfl)]
    exact ⟨m, rfl, UInt64.le_trans hle hlast⟩
  · rw [if_neg fun heq => hs (compare_iff.mp heq)]
    exact ⟨k, hget, hle⟩

/-- The number of the session after a client command: the command's own, unless it was higher already. -/
theorem Admitted.lastClientSeq {cmd : Cmd} {answer : Answer} (h : Admitted x l session clientSeq cmd answer) :
    ∃ m, clientSeq ≤ m ∧ x.lastClientSeq.getD session 0 ≤ m ∧
      answer.1.lastClientSeq = x.lastClientSeq.insert session m := by
  cases h with
  | duplicate hle => exact ⟨_, hle, UInt64.le_refl _, rfl⟩
  | refused id hnew => exact ⟨clientSeq, UInt64.le_refl _, UInt64.le_of_lt (UInt64.not_le.mp hnew), rfl⟩
  | driven y hnew _ _ hdriven =>
    exact ⟨clientSeq, UInt64.le_refl _, UInt64.le_of_lt (UInt64.not_le.mp hnew), hdriven.lastClientSeq⟩

/-- **Step lemma**: what was seen stays seen. -/
theorem seen_apply (h : Owns x l) {input : GatewayInput Cmd} {answer : Answer} (happly : x.apply input = some answer)
    {s : UInt64} (hseen : x.Seen s n) : answer.1.Seen s n := by
  cases input with
  | client session clientSeq cmd =>
    obtain ⟨answer', happly', hadmitted⟩ := applyClient_eq h session clientSeq cmd
    rw [Exchange.apply, happly'] at happly
    obtain rfl := Option.some.inj happly
    obtain ⟨m, -, hlast, hnoted⟩ := hadmitted.lastClientSeq
    rw [Seen, hnoted]
    exact seen_noted hlast hseen
  | sessionClosed session =>
    obtain ⟨x', out, hclose, -, hlast, -⟩ := closeSession_eq h session
    rw [Exchange.apply, hclose] at happly
    obtain rfl := Option.some.inj happly
    rw [Seen, hlast]
    exact hseen

/-- A command that was applied, or dropped, was seen. -/
theorem seen_client (h : Owns x l) {cmd : Cmd} {answer : Answer}
    (happly : x.apply (.client session clientSeq cmd) = some answer) : answer.1.Seen session clientSeq := by
  obtain ⟨answer', happly', hadmitted⟩ := applyClient_eq h session clientSeq cmd
  rw [Exchange.apply, happly'] at happly
  obtain rfl := Option.some.inj happly
  obtain ⟨m, hle, -, hnoted⟩ := hadmitted.lastClientSeq
  rw [Seen, hnoted]
  exact ⟨m, ExtTreeMap.getElem?_insert_self, hle⟩

/-- Running on. -/
theorem run_append {inputs later : List (GatewayInput Cmd)} : x.run (inputs ++ later) = (do
    let first ← x.run inputs
    let rest ← first.1.run later
    some (rest.1, first.2 ++ rest.2)) := by
  induction inputs generalizing x with
  | nil =>
    show x.run later = x.run later >>= fun rest => some (rest.1, [] ++ rest.2)
    cases x.run later <;> rfl
  | cons input inputs ih =>
    simp only [List.cons_append, Exchange.run, Option.bind_eq_bind]
    cases x.apply input with
    | none => rfl
    | some answer =>
      simp only [Option.bind_some, ih, Option.bind_eq_bind, Option.bind_assoc, List.cons_append]

/-- **Run lemma**: what was delivered is seen from then on. -/
theorem seen_run (h : Owns x l) {inputs : List (GatewayInput Cmd)} (hrun : x.run inputs = some (x', outs)) {s : UInt64}
    (hseen : x.Seen s n ∨ ∃ cmd, .client s n cmd ∈ inputs) : x'.Seen s n := by
  induction inputs generalizing x l outs with
  | nil =>
    obtain ⟨rfl, -⟩ := Prod.mk.inj (Option.some.inj hrun)
    rcases hseen with hseen | ⟨cmd, hmem⟩
    · exact hseen
    · cases hmem
  | cons input inputs ih =>
    obtain ⟨answer, happly, l₁, h₁⟩ := apply_owns h input
    rw [Exchange.run, happly, Option.bind_eq_bind, Option.bind_some, Option.bind_eq_bind,
      Option.bind_eq_some_iff] at hrun
    obtain ⟨rest, hrest, heq⟩ := hrun
    obtain ⟨rfl, rfl⟩ := Prod.mk.inj (Option.some.inj heq)
    apply ih h₁ hrest
    rcases hseen with hseen | ⟨cmd, hmem⟩
    · exact .inl (seen_apply h happly hseen)
    · rcases List.mem_cons.mp hmem with rfl | hmem
      · exact .inl (seen_client h happly)
      · exact .inr ⟨cmd, hmem⟩

/-- **A stale command changes nothing**, not even the numbers. -/
theorem apply_stale (hseen : x.Seen session clientSeq) (cmd : Cmd) :
    x.apply (.client session clientSeq cmd) = some (x, []) := by
  obtain ⟨m, hget, hle⟩ := hseen
  have hlast : x.lastClientSeq.getD session 0 = m := by
    rw [ExtTreeMap.getD_eq_getD_getElem?, hget]
    rfl
  have hsame : x.lastClientSeq.insert session m = x.lastClientSeq := by
    apply ExtTreeMap.ext_getElem?
    intro s
    rw [ExtTreeMap.getElem?_insert]
    by_cases hs : session = s
    · rw [if_pos (compare_iff.mpr hs), ← hs, hget]
    · rw [if_neg fun heq => hs (compare_iff.mp heq)]
  rw [Exchange.apply, Exchange.applyClient]
  simp only [hlast, if_pos hle, hsame]

end Again

/-- **Exactly once**: a delivery in which commands come again, or too late, any number of times and as late as may be,
leaves the very exchange that one delivery of each leaves, and emits the same events. -/
theorem counts_once {sent delivered : List (GatewayInput Cmd)} (h : Redelivered sent delivered) :
    ∃ x outs outs', run .genesis sent = some (x, outs) ∧ run .genesis delivered = some (x, outs') ∧
      outs'.flatten = outs.flatten := by
  induction h with
  | same =>
    obtain ⟨x, outs, hrun, -⟩ := run_owns owns_genesis sent
    exact ⟨x, outs, outs, hrun, hrun, rfl⟩
  | @again before later session clientSeq newer cmd cmd' h hseen hstale ih =>
    obtain ⟨x, outs, outs', hsent, hdelivered, hflat⟩ := ih
    obtain ⟨y, first, hbefore, l, howns⟩ := run_owns owns_genesis before
    rw [run_append, hbefore, Option.bind_eq_bind, Option.bind_some, Option.bind_eq_some_iff] at hdelivered
    obtain ⟨rest, hlater, heq⟩ := hdelivered
    obtain ⟨rfl, rfl⟩ := Prod.mk.inj (Option.some.inj heq)
    -- the number was seen by then
    obtain ⟨m, hget, hle⟩ := seen_run owns_genesis hbefore (.inr ⟨cmd', hseen⟩)
    have hnothing := apply_stale ⟨m, hget, UInt64.le_trans hstale hle⟩ cmd
    refine ⟨rest.1, outs, first ++ [] :: rest.2, hsent, ?_, ?_⟩
    · rw [run_append, hbefore, Option.bind_eq_bind, Option.bind_some, Exchange.run, hnothing]
      simp only [Option.bind_eq_bind, Option.bind_some, hlater]
    · rw [← hflat, List.flatten_append, List.flatten_append, List.flatten_cons, List.nil_append]

/-- The first command comes again after the second. -/
theorem counts_once_of_resent : ∃ x outs outs',
    run .genesis [.client 1 1 (.submit 10 .sell 100 5), .client 2 1 (.submit 11 .buy 100 3)] = some (x, outs) ∧
    run .genesis ([.client 1 1 (.submit 10 .sell 100 5), .client 2 1 (.submit 11 .buy 100 3)] ++
      [.client 1 1 (.submit 10 .sell 100 5)]) = some (x, outs') ∧ outs'.flatten = outs.flatten :=
  counts_once (@Redelivered.again _ [_, _] [] _ _ _ _ _ .same (List.mem_cons_self ..) (UInt64.le_refl 1))

/-! ## Restored -/

/-- Two exchanges that cannot be told apart: the reverse index may hold a session that owns nothing. -/
structure Alike (x x' : Exchange) : Prop where
  book : x.book = x'.book
  owners : x.owners = x'.owners
  lastClientSeq : x.lastClientSeq = x'.lastClientSeq
  ownedBy : ∀ s, x.ownedBy s = x'.ownedBy s

section Restored

variable {x x' y : Exchange} {l : List Order} {id session origin : UInt64} {out : List (Addressed Evt)}

theorem Alike.own (h : Alike x x') : Alike (x.own id session) (x'.own id session) where
  book := h.book
  owners := congrArg (·.insert id session) h.owners
  lastClientSeq := h.lastClientSeq
  ownedBy := by
    intro s
    rw [ownedBy_own, ownedBy_own, h.ownedBy, h.ownedBy]

theorem Alike.disown (h : Alike x x') : Alike (x.disown id) (x'.disown id) where
  book := by rw [disown_book, disown_book, h.book]
  owners := by
    apply ExtTreeMap.ext_getElem?
    intro i
    rw [getElem?_disown, getElem?_disown, h.owners]
  lastClientSeq := by rw [disown_lastClientSeq, disown_lastClientSeq, h.lastClientSeq]
  ownedBy := by
    intro s
    rw [ownedBy_disown, ownedBy_disown, h.ownedBy, h.owners]

theorem Alike.ite {P : Prop} [Decidable P] {x₁ x₁' x₂ x₂' : Exchange} (h₁ : Alike x₁ x₁') (h₂ : Alike x₂ x₂') :
    Alike (if P then x₁ else x₂) (if P then x₁' else x₂') := by
  split
  · exact h₁
  · exact h₂

theorem Alike.route (h : Alike x x') (origin : UInt64) (event : Evt) :
    Alike (x.route origin event).1 (x'.route origin event).1 ∧ (x.route origin event).2 = (x'.route origin event).2 := by
  cases event with
  | accepted id =>
    refine ⟨?_, rfl⟩
    rw [Exchange.route, Exchange.route, h.book]
    exact h.own.ite h
  | trade taker maker price qty =>
    rw [Exchange.route, Exchange.route, h.book, h.owners]
    exact ⟨h.ite h.disown, rfl⟩
  | canceled id qty => exact ⟨h.disown, rfl⟩
  | expired id qty => exact ⟨h.disown, rfl⟩
  | rejected id reason => exact ⟨h, rfl⟩

theorem Alike.routeAll (h : Alike x x') (origin : UInt64) (events : List Evt) :
    Alike (x.routeAll origin events).1 (x'.routeAll origin events).1 ∧
      (x.routeAll origin events).2 = (x'.routeAll origin events).2 := by
  induction events generalizing x x' with
  | nil => exact ⟨h, rfl⟩
  | cons event events ih =>
    obtain ⟨hroute, hsame⟩ := h.route origin event
    obtain ⟨hrest, hsame'⟩ := ih hroute
    rw [Exchange.routeAll, Exchange.routeAll]
    exact ⟨hrest, by rw [hsame, hsame']⟩

theorem Alike.runBook (h : Alike x x') {cmd : Cmd} {events : List Evt} (hrun : x.runBook cmd = some (y, events)) :
    ∃ y', x'.runBook cmd = some (y', events) ∧ Alike y y' := by
  rw [Exchange.runBook, Option.map_eq_some_iff] at hrun
  obtain ⟨step, hstep, heq⟩ := hrun
  obtain ⟨rfl, rfl⟩ := Prod.mk.inj heq
  refine ⟨{ x' with book := step.state }, ?_, ⟨rfl, h.owners, h.lastClientSeq, h.ownedBy⟩⟩
  rw [Exchange.runBook, ← h.book, hstep]
  rfl

theorem Alike.applyClient (h : Alike x x') {clientSeq : UInt64} {cmd : Cmd}
    (happly : x.applyClient session clientSeq cmd = some (y, out)) :
    ∃ y', x'.applyClient session clientSeq cmd = some (y', out) ∧ Alike y y' := by
  have hforbidden : ∀ last, Exchange.forbidden { x' with lastClientSeq := last } session cmd =
      Exchange.forbidden { x with lastClientSeq := last } session cmd := by
    intro last
    cases cmd with
    | submit => rfl
    | submitGtd => rfl
    | cancel id =>
      rw [Exchange.forbidden, Exchange.forbidden]
      dsimp only
      rw [h.owners]
  unfold Exchange.applyClient at happly ⊢
  rw [h.lastClientSeq] at happly
  by_cases hle : clientSeq ≤ x'.lastClientSeq.getD session 0
  · simp only [if_pos hle] at happly ⊢
    obtain ⟨rfl, rfl⟩ := Prod.mk.inj (Option.some.inj happly)
    exact ⟨_, rfl, ⟨h.book, h.owners, rfl, h.ownedBy⟩⟩
  · simp only [if_neg hle] at happly ⊢
    have hnoted : Alike { x with lastClientSeq := x'.lastClientSeq.insert session clientSeq }
        { x' with lastClientSeq := x'.lastClientSeq.insert session clientSeq } :=
      ⟨h.book, h.owners, rfl, h.ownedBy⟩
    rw [hforbidden]
    cases hcase : Exchange.forbidden { x with lastClientSeq := x'.lastClientSeq.insert session clientSeq }
        session cmd with
    | some id =>
      rw [hcase] at happly
      obtain ⟨rfl, rfl⟩ := Prod.mk.inj (Option.some.inj happly)
      exact ⟨_, rfl, hnoted⟩
    | none =>
      simp only [hcase, Option.map_eq_some_iff] at happly ⊢
      obtain ⟨driven, hdrive, heq⟩ := happly
      obtain ⟨y', hdrive', hdriven⟩ := hnoted.runBook hdrive
      obtain ⟨hroute, hsame⟩ := hdriven.routeAll session driven.2
      rw [heq] at hroute hsame
      refine ⟨(y'.routeAll session driven.2).1, ⟨(y', driven.2), hdrive', ?_⟩, hroute⟩
      exact Prod.ext rfl hsame.symm

theorem Alike.cancelAll (h : Alike x x') {ids : List UInt64} (hcancel : cancelAll session ids x = some (y, out)) :
    ∃ y', Exchange.cancelAll session ids x' = some (y', out) ∧ Alike y y' := by
  induction ids generalizing x x' out with
  | nil =>
    obtain ⟨rfl, rfl⟩ := Prod.mk.inj (Option.some.inj hcancel)
    exact ⟨x', rfl, h⟩
  | cons id ids ih =>
    rw [Exchange.cancelAll, Option.bind_eq_bind, Option.bind_eq_some_iff] at hcancel
    obtain ⟨driven, hdrive, hcancel⟩ := hcancel
    obtain ⟨z', hdrive', hdriven⟩ := h.runBook hdrive
    obtain ⟨hroute, hsame⟩ := hdriven.routeAll session driven.2
    rw [Option.bind_eq_bind, Option.bind_eq_some_iff] at hcancel
    obtain ⟨rest, hrest, heq⟩ := hcancel
    obtain ⟨rfl, rfl⟩ := Prod.mk.inj (Option.some.inj heq)
    obtain ⟨y', hrest', hlast⟩ := ih hroute hrest
    refine ⟨y', ?_, hlast⟩
    rw [Exchange.cancelAll, hdrive', hsame]
    simp only [Option.bind_eq_bind, Option.bind_some, hrest']

/-- **Step lemma**: what cannot be told apart answers alike. -/
theorem Alike.apply (h : Alike x x') {input : GatewayInput Cmd} (happly : x.apply input = some (y, out)) :
    ∃ y', x'.apply input = some (y', out) ∧ Alike y y' := by
  cases input with
  | client session clientSeq cmd => exact h.applyClient happly
  | sessionClosed session =>
    rw [Exchange.apply, closeSession_eq_cancelAll, Option.map_eq_some_iff] at happly
    obtain ⟨answer, hcancel, heq⟩ := happly
    obtain ⟨rfl, rfl⟩ := Prod.mk.inj heq
    obtain ⟨y', hcancel', hlast⟩ := h.cancelAll hcancel
    refine ⟨{ y' with owned := y'.owned.erase session }, ?_, hlast.book, hlast.owners, hlast.lastClientSeq, fun s => ?_⟩
    · rw [Exchange.apply, closeSession_eq_cancelAll, ofSession, ← h.ownedBy]
      rw [ofSession] at hcancel'
      rw [hcancel']
      rfl
    · show (answer.1.owned.erase session).getD s ∅ = (y'.owned.erase session).getD s ∅
      rw [ExtTreeMap.getD_erase, ExtTreeMap.getD_erase]
      split
      · rfl
      · exact hlast.ownedBy s

/-- **Run lemma**. -/
theorem Alike.run (h : Alike x x') {inputs : List (GatewayInput Cmd)} {outs : List (List (Addressed Evt))}
    (hrun : x.run inputs = some (y, outs)) : ∃ y', x'.run inputs = some (y', outs) ∧ Alike y y' := by
  induction inputs generalizing x x' outs with
  | nil =>
    obtain ⟨rfl, rfl⟩ := Prod.mk.inj (Option.some.inj hrun)
    exact ⟨x', rfl, h⟩
  | cons input inputs ih =>
    rw [Exchange.run, Option.bind_eq_bind, Option.bind_eq_some_iff] at hrun
    obtain ⟨answer, happly, hrun⟩ := hrun
    rw [Option.bind_eq_bind, Option.bind_eq_some_iff] at hrun
    obtain ⟨rest, hrest, heq⟩ := hrun
    obtain ⟨rfl, rfl⟩ := Prod.mk.inj (Option.some.inj heq)
    obtain ⟨z', happly', hstep⟩ := h.apply happly
    obtain ⟨y', hrest', hlast⟩ := ih hstep hrest
    refine ⟨y', ?_, hlast⟩
    rw [Exchange.run, happly']
    simp only [Option.bind_eq_bind, Option.bind_some, hrest']

theorem Alike.owns (h : Alike x x') (howns : Owns x l) : Owns x' l where
  sound := h.book ▸ howns.sound
  agree := fun s i => by rw [← h.ownedBy, ← h.owners, howns.agree]
  owners := fun i => by rw [← h.owners, howns.owners]

theorem Alike.snapshot (h : Alike x x') : x'.snapshot = x.snapshot := by
  rw [Exchange.snapshot, Exchange.snapshot, h.book, h.owners, h.lastClientSeq]

/-- The reverse index of a list of owners. -/
theorem mem_reverse {owners : List (UInt64 × UInt64)} : id ∈ (reverse owners).getD session ∅ ↔ (id, session) ∈ owners := by
  have hfold : ∀ owned : ExtTreeMap UInt64 (ExtTreeSet UInt64),
      id ∈ (owners.foldl (fun owned e => owned.insert e.2 ((owned.getD e.2 ∅).insert e.1)) owned).getD session ∅ ↔
        id ∈ owned.getD session ∅ ∨ (id, session) ∈ owners := by
    induction owners with
    | nil => simp
    | cons e owners ih =>
      intro owned
      rw [List.foldl_cons, ih, ExtTreeMap.getD_insert, List.mem_cons]
      by_cases hs : e.2 = session
      · rw [if_pos (compare_iff.mpr hs), ExtTreeSet.mem_insert, compare_iff, hs, Prod.ext_iff]
        simp only [hs, and_true]
        tauto
      · rw [if_neg fun heq => hs (compare_iff.mp heq), Prod.ext_iff]
        simp only [Ne.symm hs, and_false, false_or]
  rw [reverse, hfold, ExtTreeMap.getD_empty]
  exact ⟨fun h => h.resolve_left ExtTreeSet.not_mem_empty, .inr⟩

/-- **A snapshot** restores an exchange that cannot be told from this one. -/
theorem restore_eq (h : Owns x l) (hsize : x.book.index.size < 2 ^ 32) :
    ∃ x', restore x.snapshot = some x' ∧ Alike x x' := by
  refine ⟨⟨x.book, x.owners, reverse x.owners.toList, x.lastClientSeq⟩, ?_, rfl, rfl, rfl, fun s => ?_⟩
  · rw [Exchange.restore, Exchange.snapshot]
    dsimp only
    rw [decodeAll_snapshot h.sound.toRepresents hsize]
    dsimp only
    rw [Orderbook.restore_eq h.sound.toRepresents, insertAll_toList, insertAll_toList]
  · apply ExtTreeSet.ext_mem
    intro i
    rw [h.agree]
    show _ ↔ i ∈ (reverse x.owners.toList).getD s ∅
    rw [mem_reverse, ExtTreeMap.mem_toList_iff_getElem?_eq_some]

end Restored

/-- **A restored exchange** cannot be told from the one its snapshot was taken of: it answers all further inputs with
the same events, passes its check, and comes to the same snapshot again. -/
theorem restored_answers_alike {inputs : List (GatewayInput Cmd)} {x : Exchange} {outs : List (List (Addressed Evt))}
    (hrun : run .genesis inputs = some (x, outs)) (hsize : x.book.index.size < 2 ^ 32) :
    ∃ x', restore x.snapshot = some x' ∧ ∀ later, ∃ y y' outs', x.run later = some (y, outs') ∧
      x'.run later = some (y', outs') ∧ y'.check = .ok () ∧ y'.snapshot = y.snapshot := by
  obtain ⟨l, h⟩ := owns_of_run hrun
  obtain ⟨x', hrestore, halike⟩ := restore_eq h hsize
  refine ⟨x', hrestore, fun later => ?_⟩
  obtain ⟨y, outs', hlater, l', howns⟩ := run_owns h later
  obtain ⟨y', hlater', hlast⟩ := halike.run hlater
  exact ⟨y, y', outs', hlater, hlater', check_ok (hlast.owns howns), hlast.snapshot⟩

/-- Two orders rest, of two sessions, when the snapshot is taken. -/
theorem restored_answers_alike_of_two : ∃ x outs x',
    run .genesis [.client 1 1 (.submit 10 .sell 100 5), .client 2 1 (.submit 11 .buy 90 3)] = some (x, outs) ∧
    restore x.snapshot = some x' ∧ ∀ later, ∃ y y' outs', x.run later = some (y, outs') ∧
      x'.run later = some (y', outs') ∧ y'.check = .ok () ∧ y'.snapshot = y.snapshot := by
  have hplay : (run .genesis [.client 1 1 (.submit 10 .sell 100 5), .client 2 1 (.submit 11 .buy 90 3)]).any
      (fun p => decide (p.1.book.index.size < 2 ^ 32)) = true := by decide +kernel
  obtain ⟨⟨x, outs⟩, hrun, hsize⟩ := (Option.any_eq_true _ _).mp hplay
  obtain ⟨x', hrestore, halike⟩ := restored_answers_alike hrun (of_decide_eq_true hsize)
  exact ⟨x, outs, x', hrun, hrestore, halike⟩

end Ticktape.Exchange
