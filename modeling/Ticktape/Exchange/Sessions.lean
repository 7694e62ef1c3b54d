import Ticktape.Exchange.Ownership

/-!
# Sessions of the exchange

What an input of a session does to the orders. A duplicate number does nothing, a stranger's cancel is refused, and a
session that closes takes its own orders off the book and no others.
-/

namespace Ticktape.Exchange

open Ticktape.Lib Ticktape.Core Ticktape.Orderbook Ticktape.Gateway Std

/-! ## Commands -/

section Client

variable {x : Exchange} {l : List Order} {f : List (Order × ℕ)} {id session origin taker : UInt64}

/-- The number of a session is noted. -/
theorem Owns.noted (h : Owns x l) (last : ExtTreeMap UInt64 UInt64) : Owns { x with lastClientSeq := last } l :=
  ⟨h.sound, h.agree, h.owners⟩

/-- What an admitted client command comes to. -/
inductive Admitted (x : Exchange) (l : List Order) (session clientSeq : UInt64) (cmd : Cmd) : Answer → Prop where
  | duplicate (hle : clientSeq ≤ x.lastClientSeq.getD session 0) : Admitted x l session clientSeq cmd
      ({ x with lastClientSeq := x.lastClientSeq.insert session (x.lastClientSeq.getD session 0) }, [])
  | refused (id : UInt64) (hnew : ¬clientSeq ≤ x.lastClientSeq.getD session 0) (hcmd : cmd = .cancel id)
      (hstranger : x.owners[id]? ≠ some session) : Admitted x l session clientSeq cmd
      ({ x with lastClientSeq := x.lastClientSeq.insert session clientSeq }, [⟨session, .rejected id .unknownOrder⟩])
  | driven (y : Exchange) (hnew : ¬clientSeq ≤ x.lastClientSeq.getD session 0)
      (howner : ∀ id, cmd = .cancel id → x.owners[id]? = some session)
      (hbook : y.owners = x.owners)
      (h : Driven { x with lastClientSeq := x.lastClientSeq.insert session clientSeq }
        (y.routeAll session (Market.apply l cmd).outputs).1 session (Market.apply l cmd).state) :
      Admitted x l session clientSeq cmd (y.routeAll session (Market.apply l cmd).outputs)

theorem forbidden_eq_none {cmd : Cmd} :
    x.forbidden session cmd = none ↔ ∀ id, cmd = .cancel id → x.owners[id]? = some session := by
  cases cmd with
  | submit => simp [Exchange.forbidden]
  | submitGtd => simp [Exchange.forbidden]
  | cancel id =>
    rw [Exchange.forbidden]
    by_cases howner : x.owners[id]? = some session
    · simp [howner]
    · simp [howner]

theorem forbidden_eq_some {cmd : Cmd} : x.forbidden session cmd = some id ↔
    cmd = .cancel id ∧ x.owners[id]? ≠ some session := by
  cases cmd with
  | submit => simp [Exchange.forbidden]
  | submitGtd => simp [Exchange.forbidden]
  | cancel id' =>
    rw [Exchange.forbidden]
    by_cases howner : x.owners[id']? = some session
    · simp only [howner, ne_eq, not_true_eq_false, if_false, reduceCtorEq, false_iff, not_and, not_not]
      intro heq
      obtain rfl := Cmd.cancel.inj heq
      exact howner
    · rw [if_pos howner]
      constructor
      · intro heq
        obtain rfl := Option.some.inj heq
        exact ⟨rfl, howner⟩
      · rintro ⟨heq, -⟩
        rw [Cmd.cancel.inj heq]

/-- **A client command** always answers. -/
theorem applyClient_eq (h : Owns x l) (session clientSeq : UInt64) (cmd : Cmd) :
    ∃ answer, x.applyClient session clientSeq cmd = some answer ∧ Admitted x l session clientSeq cmd answer := by
  unfold Exchange.applyClient
  by_cases hle : clientSeq ≤ x.lastClientSeq.getD session 0
  · simp only [if_pos hle]
    exact ⟨_, rfl, .duplicate hle⟩
  · simp only [if_neg hle]
    cases hforbidden : Exchange.forbidden
        { x with lastClientSeq := x.lastClientSeq.insert session clientSeq } session cmd with
    | some id =>
      obtain ⟨hcmd, hstranger⟩ := forbidden_eq_some.mp hforbidden
      exact ⟨_, rfl, .refused id hle hcmd hstranger⟩
    | none =>
      obtain ⟨y, hdrive, hdriven⟩ := drive_eq session
        (h.noted (x.lastClientSeq.insert session clientSeq)) cmd
      refine ⟨y.routeAll session (Market.apply l cmd).outputs, ?_, .driven y hle (forbidden_eq_none.mp hforbidden) ?_ hdriven⟩
      · simp only [hdrive, Option.map_some]
      · rw [Exchange.runBook, Option.map_eq_some_iff] at hdrive
        obtain ⟨step, -, hstep⟩ := hdrive
        obtain ⟨rfl, -⟩ := Prod.mk.inj hstep
        rfl

/-- The market after a client command. -/
theorem Admitted.owns {clientSeq : UInt64} {cmd : Cmd} {answer : Answer} (hadmitted : Admitted x l session clientSeq cmd answer)
    (h : Owns x l) : ∃ l', Owns answer.1 l' := by
  cases hadmitted with
  | duplicate => exact ⟨l, h.noted _⟩
  | refused => exact ⟨l, h.noted _⟩
  | driven y _ _ _ hdriven => exact ⟨_, hdriven.owns⟩

end Client

/-! ## Disconnects -/

section Close

variable {x : Exchange} {l : List Order} {session : UInt64}

/-- The orders that are not in a list. -/
def without (ids : List UInt64) (l : List Order) : List Order := l.filter (·.id ∉ ids)

theorem without_cons {id : UInt64} {ids : List UInt64} : without (id :: ids) l = without ids (Market.remove l id) := by
  rw [without, without, Market.remove, List.filter_filter]
  apply List.filter_congr
  intro o _
  rw [Bool.eq_iff_iff]
  simp only [Bool.and_eq_true, decide_eq_true_eq, List.mem_cons, not_or]
  exact and_comm

/-- Owners after orders have left and none has come. -/
theorem Driven.owners_of_sub {x' : Exchange} {l' : List Order} (h : Owns x l) (hdriven : Driven x x' session l')
    (hsub : ∀ o ∈ l', o ∈ l) (i : UInt64) :
    x'.owners[i]? = if ∃ o ∈ l', o.id = i then x.owners[i]? else none := by
  by_cases hin : ∃ o ∈ l', o.id = i
  · obtain ⟨o, ho, rfl⟩ := hin
    obtain ⟨owner, howner⟩ := Option.isSome_iff_exists.mp (mem_owners_iff.mp ((h.owners o.id).mpr ⟨o, hsub o ho, rfl⟩))
    rw [if_pos ⟨o, ho, rfl⟩, hdriven.inherited _ ((hdriven.owns.owners _).mpr ⟨o, ho, rfl⟩), howner]
    rfl
  · rw [if_neg hin]
    exact ExtTreeMap.getElem?_eq_none fun hmem => hin ((hdriven.owns.owners i).mp hmem)

/-- Cancelling one order. -/
theorem cancelOne_eq (h : Owns x l) {id : UInt64} (howner : x.owners[id]? = some session) :
    ∃ y x' o, o ∈ l ∧ o.id = id ∧ x.runBook (.cancel id) = some (y, [.canceled id (UInt32.ofNat o.qty)]) ∧
      y.routeAll session [.canceled id (UInt32.ofNat o.qty)] =
        (x', [⟨session, .canceled id (UInt32.ofNat o.qty)⟩]) ∧
      Owns x' (Market.remove l id) ∧ x'.lastClientSeq = x.lastClientSeq ∧
      ∀ i, x'.owners[i]? = if id = i then none else x.owners[i]? := by
  obtain ⟨o, ho, rfl⟩ := (h.owners id).mp (mem_owners_iff.mpr (by rw [howner]; rfl))
  obtain ⟨y, hdrive, hdriven⟩ := drive_eq session h (.cancel o.id)
  have hmarket : Market.apply l (.cancel o.id) =
      ⟨Market.remove l o.id, [.canceled o.id (UInt32.ofNat o.qty)], [.cancel o.id]⟩ := by
    show Market.cancel l o.id = _
    rw [Market.cancel, find?_id h.sound.distinct ho]
  rw [hmarket] at hdrive hdriven
  refine ⟨y, _, o, ho, rfl, hdrive, rfl, hdriven.owns, hdriven.lastClientSeq, fun i => ?_⟩
  refine (hdriven.owners_of_sub h (fun a ha => (mem_remove.mp ha).1) i).trans ?_
  by_cases hi : o.id = i
  · subst hi
    rw [if_pos rfl, if_neg]
    rintro ⟨a, ha, heq⟩
    exact (mem_remove.mp ha).2 heq
  · rw [if_neg hi]
    by_cases hin : ∃ a ∈ Market.remove l o.id, a.id = i
    · rw [if_pos hin]
    · rw [if_neg hin]
      symm
      apply ExtTreeMap.getElem?_eq_none
      intro hmem
      obtain ⟨a, ha, rfl⟩ := (h.owners i).mp hmem
      exact hin ⟨a, mem_remove.mpr ⟨ha, fun heq => hi heq.symm⟩, rfl⟩

/-- **Cancelling orders** of a session one after the other. -/
theorem cancelAll_eq (h : Owns x l) {ids : List UInt64} (hdistinct : ids.Nodup)
    (howner : ∀ id ∈ ids, x.owners[id]? = some session) :
    ∃ x' out, cancelAll session ids x = some (x', out) ∧ Owns x' (without ids l) ∧
      x'.lastClientSeq = x.lastClientSeq ∧ (∀ i, x'.owners[i]? = if i ∈ ids then none else x.owners[i]?) ∧
      List.Forall₂ (fun id (a : Addressed Evt) => ∃ o ∈ l, o.id = id ∧
        a = ⟨session, .canceled id (UInt32.ofNat o.qty)⟩) ids out := by
  induction ids generalizing x l with
  | nil =>
    have hall : without [] l = l := by simp [without]
    exact ⟨x, [], rfl, hall.symm ▸ h, rfl, fun i => by simp, .nil⟩
  | cons id ids ih =>
    obtain ⟨hnot, hnodup⟩ := List.nodup_cons.mp hdistinct
    obtain ⟨y, x₁, o, ho, hid, hdrive, hroute, h₁, hlast₁, howners₁⟩ :=
      cancelOne_eq h (howner id (List.mem_cons_self ..))
    obtain ⟨x', out, hrest, h', hlast', howners', hout⟩ := ih h₁ hnodup fun i hi => by
      have hne : id ≠ i := fun heq => hnot (heq ▸ hi)
      rw [howners₁, if_neg hne]
      exact howner i (List.mem_cons_of_mem _ hi)
    refine ⟨x', ⟨session, .canceled id (UInt32.ofNat o.qty)⟩ :: out, ?_, ?_, hlast'.trans hlast₁, fun i => ?_, ?_⟩
    · rw [Exchange.cancelAll, hdrive]
      simp only [Option.bind_eq_bind, Option.bind_some, hroute, hrest]
      rfl
    · rw [without_cons]
      exact h'
    · rw [howners', howners₁]
      by_cases hi : i ∈ ids
      · simp [hi]
      · by_cases heq : id = i
        · simp [heq]
        · simp [hi, heq, Ne.symm heq]
    · refine .cons ⟨o, ho, hid, rfl⟩ (hout.imp fun i a => ?_)
      rintro ⟨b, hb, hrest⟩
      exact ⟨b, (mem_remove.mp hb).1, hrest⟩

/-- The orders that close with a session. -/
def ofSession (x : Exchange) (session : UInt64) : List UInt64 := (x.ownedBy session).toList

theorem mem_ofSession (h : Agree x) {id : UInt64} : id ∈ ofSession x session ↔ x.owners[id]? = some session := by
  rw [ofSession, ExtTreeSet.mem_toList, h]

theorem closeSession_eq_cancelAll : x.closeSession session = (cancelAll session (ofSession x session) x).map fun answer =>
    ({ answer.1 with owned := answer.1.owned.erase session }, answer.2) := by
  rw [ofSession, ownedBy, ExtTreeMap.getD_eq_getD_getElem?]
  unfold closeSession
  cases x.owned[session]? with
  | none => rfl
  | some ids => rfl

/-- **A session that closes** takes its orders with it, in order of their ids, and leaves the others alone. -/
theorem closeSession_eq (h : Owns x l) (session : UInt64) :
    ∃ x' out, x.closeSession session = some (x', out) ∧ Owns x' (without (ofSession x session) l) ∧
      x'.lastClientSeq = x.lastClientSeq ∧
      (∀ i : UInt64, x'.owners[i]? = if x.owners[i]? = some session then none else x.owners[i]?) ∧
      List.Forall₂ (fun id (a : Addressed Evt) => ∃ o ∈ l, o.id = id ∧
        a = ⟨session, .canceled id (UInt32.ofNat o.qty)⟩) (ofSession x session) out := by
  have hnodup : (ofSession x session).Nodup := nodup_setToList _
  obtain ⟨x', out, hcancel, h', hlast, howners, hout⟩ :=
    cancelAll_eq h hnodup fun id hid => (mem_ofSession h.agree).mp hid
  -- nothing is left of the session, so its entry in the reverse index may go
  have hnone : ∀ id : UInt64, x'.owners[id]? ≠ some session := by
    intro id hid
    rw [howners] at hid
    by_cases hin : id ∈ ofSession x session
    · rw [if_pos hin] at hid
      cases hid
    · rw [if_neg hin] at hid
      exact hin ((mem_ofSession h.agree).mpr hid)
  have hagree : Agree { x' with owned := x'.owned.erase session } := by
    intro s i
    show i ∈ (x'.owned.erase session).getD s ∅ ↔ x'.owners[i]? = some s
    rw [ExtTreeMap.getD_erase]
    by_cases hs : session = s
    · subst hs
      rw [if_pos (compare_iff.mpr rfl)]
      exact ⟨fun hmem => absurd hmem ExtTreeSet.not_mem_empty, fun heq => absurd heq (hnone i)⟩
    · rw [if_neg fun heq => hs (compare_iff.mp heq)]
      exact h'.agree s i
  refine ⟨{ x' with owned := x'.owned.erase session }, out, ?_, ⟨h'.sound, hagree, h'.owners⟩, hlast, fun i => ?_, hout⟩
  · rw [closeSession_eq_cancelAll, hcancel]
    rfl
  · show x'.owners[i]? = _
    rw [howners]
    exact ite_congr (propext (mem_ofSession h.agree)) (fun _ => rfl) fun _ => rfl

end Close

end Ticktape.Exchange
