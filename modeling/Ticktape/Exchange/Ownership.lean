import Ticktape.Exchange.Exchange

/-!
# Who owns what

`Owns` is the invariant of the exchange: its book stands for a market, every order of the market has an owner and
nothing else has, and the reverse index says the same as the owners do. A command changes the book first and the owners
after it, event by event; what all events of a command do together is said once, by the makers that traded and left.
-/

namespace Ticktape.Exchange

open Ticktape.Lib Ticktape.Core Ticktape.Orderbook Ticktape.Gateway Std

/-! ## The two indexes -/

/-- **The reverse index agrees** with the owners. -/
def Agree (x : Exchange) : Prop := ∀ session id, id ∈ x.ownedBy session ↔ x.owners[id]? = some session

/-- **The invariant of an exchange** whose book stands for `l`. -/
structure Owns (x : Exchange) (l : List Order) : Prop where
  sound : Sound x.book l
  agree : Agree x
  owners : ∀ id, id ∈ x.owners ↔ ∃ o ∈ l, o.id = id

section Indexes

variable {x : Exchange} {l : List Order} {id session : UInt64}

theorem compare_iff {a b : UInt64} : compare a b = .eq ↔ a = b := LawfulEqCmp.compare_eq_iff_eq

theorem getElem?_own (i : UInt64) : (x.own id session).owners[i]? = if id = i then some session else x.owners[i]? := by
  show (x.owners.insert id session)[i]? = _
  rw [ExtTreeMap.getElem?_insert]
  simp only [compare_iff]

theorem ownedBy_own (s : UInt64) :
    (x.own id session).ownedBy s = if session = s then (x.ownedBy session).insert id else x.ownedBy s := by
  show (x.owned.insert session _).getD s ∅ = _
  rw [ExtTreeMap.getD_insert]
  simp only [compare_iff]
  rfl

theorem getElem?_disown (i : UInt64) : (x.disown id).owners[i]? = if id = i then none else x.owners[i]? := by
  unfold disown
  split
  · rename_i hnone
    split
    · rename_i heq
      rw [← heq, hnone]
    · rfl
  · show (x.owners.erase id)[i]? = _
    rw [ExtTreeMap.getElem?_erase]
    simp only [compare_iff]

theorem ownedBy_disown (s : UInt64) :
    (x.disown id).ownedBy s = if x.owners[id]? = some s then (x.ownedBy s).erase id else x.ownedBy s := by
  unfold disown
  split
  · rename_i hnone
    rw [if_neg]
    rw [hnone]
    exact fun heq => by cases heq
  · rename_i owner howner
    rw [howner]
    show ExtTreeMap.getD _ s ∅ = _
    by_cases hs : owner = s
    · subst hs
      have hids : x.ownedBy owner = (x.owned[owner]?).getD ∅ := ExtTreeMap.getD_eq_getD_getElem?
      rw [if_pos rfl, hids]
      cases hget : x.owned[owner]? with
      | none =>
        show x.ownedBy owner = _
        rw [hids, hget]
        apply ExtTreeSet.ext_mem
        intro i
        have hempty : i ∉ (∅ : ExtTreeSet UInt64) := ExtTreeSet.not_mem_empty
        show i ∈ (∅ : ExtTreeSet UInt64) ↔ i ∈ (∅ : ExtTreeSet UInt64).erase id
        rw [ExtTreeSet.mem_erase]
        exact ⟨fun hmem => absurd hmem hempty, fun hmem => hmem.2⟩
      | some ids =>
        show (x.owned.insert owner (ids.erase id)).getD owner ∅ = ids.erase id
        exact ExtTreeMap.getD_insert_self
    · rw [if_neg fun heq => hs (Option.some.inj heq), ownedBy]
      split
      · rfl
      · rw [ExtTreeMap.getD_insert, if_neg fun heq => hs (compare_iff.mp heq)]

theorem mem_ownedBy_disown (h : Agree x) (s i : UInt64) :
    i ∈ (x.disown id).ownedBy s ↔ id ≠ i ∧ i ∈ x.ownedBy s := by
  rw [ownedBy_disown]
  by_cases howner : x.owners[id]? = some s
  · rw [if_pos howner, ExtTreeSet.mem_erase, Ne, compare_iff]
  · rw [if_neg howner]
    constructor
    · intro hmem
      refine ⟨fun heq => howner ?_, hmem⟩
      rw [heq]
      exact (h s i).mp hmem
    · exact And.right

theorem Agree.own (h : Agree x) (hnew : id ∉ x.owners) : Agree (x.own id session) := by
  intro s i
  rw [ownedBy_own, getElem?_own]
  have hnone : x.owners[id]? = none := ExtTreeMap.getElem?_eq_none hnew
  by_cases hs : session = s
  · rw [if_pos hs, ExtTreeSet.mem_insert, compare_iff, hs, h]
    by_cases hi : id = i
    · simp [hi]
    · simp [hi]
  · rw [if_neg hs, h]
    by_cases hi : id = i
    · subst hi
      simp [hnone, hs]
    · simp [hi]

theorem Agree.disown (h : Agree x) : Agree (x.disown id) := by
  intro s i
  rw [mem_ownedBy_disown h, getElem?_disown, h]
  by_cases hi : id = i
  · simp [hi]
  · simp [hi]

@[simp] theorem disown_book : (x.disown id).book = x.book := by
  unfold Exchange.disown
  split <;> rfl

@[simp] theorem disown_lastClientSeq : (x.disown id).lastClientSeq = x.lastClientSeq := by
  unfold Exchange.disown
  split <;> rfl

end Indexes

/-! ## Routing -/

/-- What routing changes: these orders have no owner any more. -/
structure Routed (x x' : Exchange) (gone : UInt64 → Prop) : Prop where
  book : x'.book = x.book
  lastClientSeq : x'.lastClientSeq = x.lastClientSeq
  agree : Agree x → Agree x'
  lost : ∀ i, gone i → x'.owners[i]? = none
  kept : ∀ i, ¬gone i → x'.owners[i]? = x.owners[i]?

section Routing

variable {x : Exchange} {l : List Order} {f : List (Order × ℕ)} {id session origin taker : UInt64}

theorem routed_refl (x : Exchange) : Routed x x fun _ => False := ⟨rfl, rfl, id, fun _ h => h.elim, fun _ _ => rfl⟩

theorem routed_disown (x : Exchange) (id : UInt64) : Routed x (x.disown id) (id = ·) where
  book := disown_book
  lastClientSeq := disown_lastClientSeq
  agree := Agree.disown
  lost := fun i h => by rw [getElem?_disown, if_pos h]
  kept := fun i h => by rw [getElem?_disown, if_neg h]

theorem Routed.trans {x₁ x₂ : Exchange} {gone gone' : UInt64 → Prop} (h : Routed x x₁ gone) (h' : Routed x₁ x₂ gone') :
    Routed x x₂ fun i => gone i ∨ gone' i where
  book := h'.book.trans h.book
  lastClientSeq := h'.lastClientSeq.trans h.lastClientSeq
  agree := fun hagree => h'.agree (h.agree hagree)
  lost := by
    intro i hi
    by_cases hlate : gone' i
    · exact h'.lost i hlate
    · rw [h'.kept i hlate]
      exact h.lost i (hi.resolve_right hlate)
  kept := by
    intro i hi
    rw [h'.kept i fun hlate => hi (.inr hlate), h.kept i fun hearly => hi (.inl hearly)]

theorem Routed.congr {x' : Exchange} {gone gone' : UInt64 → Prop} (h : Routed x x' gone) (hiff : ∀ i, gone i ↔ gone' i) :
    Routed x x' gone' where
  book := h.book
  lastClientSeq := h.lastClientSeq
  agree := h.agree
  lost := fun i hi => h.lost i ((hiff i).mpr hi)
  kept := fun i hi => h.kept i fun hgone => hi ((hiff i).mp hgone)

/-- **Routing the trades of a command**: the makers that have left the book lose their owners. -/
theorem routed_trades (origin taker : UInt64) (x : Exchange) (f : List (Order × ℕ)) :
    Routed x (x.routeAll origin (f.map (Market.trade taker))).1
      fun i => i ∈ f.map (fun p => p.1.id) ∧ i ∉ x.book.index := by
  induction f generalizing x with
  | nil => exact (routed_refl x).congr fun i => by simp
  | cons p f ih =>
    have hhead : Routed x (x.route origin (Market.trade taker p)).1 fun i => p.1.id = i ∧ i ∉ x.book.index := by
      rw [Market.trade, Exchange.route]
      by_cases hrests : p.1.id ∈ x.book.index
      · rw [if_pos hrests]
        refine (routed_refl x).congr fun i => ⟨False.elim, ?_⟩
        rintro ⟨rfl, hnot⟩
        exact hnot hrests
      · rw [if_neg hrests]
        refine (routed_disown x p.1.id).congr fun i => ⟨?_, And.left⟩
        rintro rfl
        exact ⟨rfl, hrests⟩
    refine (hhead.trans (ih _)).congr fun i => ?_
    rw [hhead.book, List.map_cons, List.mem_cons]
    constructor
    · rintro (⟨rfl, hnot⟩ | ⟨hmem, hnot⟩)
      · exact ⟨.inl rfl, hnot⟩
      · exact ⟨.inr hmem, hnot⟩
    · rintro ⟨rfl | hmem, hnot⟩
      · exact .inl ⟨rfl, hnot⟩
      · exact .inr ⟨hmem, hnot⟩

end Routing

/-! ## One command of the book -/

/-- What a command on behalf of a session does to the owners: who owned still owns, and what is new is the session's. -/
structure Driven (x x' : Exchange) (session : UInt64) (l' : List Order) : Prop where
  owns : Owns x' l'
  lastClientSeq : x'.lastClientSeq = x.lastClientSeq
  inherited : ∀ i, i ∈ x'.owners → x'.owners[i]? = some ((x.owners[i]?).getD session)

section Command

variable {x : Exchange} {l : List Order} {id session : UInt64}

theorem mem_owners_iff {i : UInt64} : i ∈ x.owners ↔ (x.owners[i]?).isSome := ExtTreeMap.mem_iff_isSome_getElem?

/-- A command that does nothing but answer. -/
theorem Owns.unchanged (h : Owns x l) {b' : Book} (hsound : Sound b' l) : Driven x { x with book := b' } session l where
  owns := ⟨hsound, h.agree, h.owners⟩
  lastClientSeq := rfl
  inherited := by
    intro i hi
    obtain ⟨owner, howner⟩ := Option.isSome_iff_exists.mp (mem_owners_iff.mp hi)
    show x.owners[i]? = _
    rw [howner]
    rfl

/-- **A submission**: makers that left lose their owners, and a remainder that rests is the session's. -/
theorem driven_submit (h : Owns x l) {side : Side} {price qty : UInt32} {expiry : Option UInt64} {b' : Book}
    (hsound : Sound b' (Market.submit l id side price qty expiry).state) :
    Driven x (routeAll { x with book := b' } session (Market.submit l id side price qty expiry).outputs).1 session
      (Market.submit l id side price qty expiry).state := by
  unfold Market.submit at hsound ⊢
  by_cases hzero : qty = 0
  · rw [if_pos hzero] at hsound ⊢
    exact h.unchanged hsound
  · rw [if_neg hzero] at hsound ⊢
    by_cases hdup : ∃ o ∈ l, o.id = id
    · rw [if_pos hdup] at hsound ⊢
      exact h.unchanged hsound
    · rw [if_neg hdup] at hsound ⊢
      have htaken : Taken (Market.fills side.opposite price qty.toNat l) l := taken_fills h.sound.distinct
      generalize Market.fills side.opposite price qty.toNat l = f at hsound htaken ⊢
      have hnew : id ∉ x.owners := fun hmem => hdup ((h.owners id).mp hmem)
      -- the exchange once the acceptance was routed
      obtain ⟨y, hy⟩ : ∃ y, y = if id ∈ b'.index then Exchange.own { x with book := b' } id session
        else { x with book := b' } := ⟨_, rfl⟩
      have hbook : y.book = b' := by
        rw [hy]
        split <;> rfl
      have hlast : y.lastClientSeq = x.lastClientSeq := by
        rw [hy]
        split <;> rfl
      have hagree : Agree y := by
        rw [hy]
        split
        · exact Agree.own (x := { x with book := b' }) h.agree hnew
        · exact h.agree
      have howners : ∀ i, y.owners[i]? = if id = i ∧ id ∈ b'.index then some session else x.owners[i]? := by
        intro i
        rw [hy]
        by_cases hrests : id ∈ b'.index
        · rw [if_pos hrests, getElem?_own]
          simp [hrests]
        · rw [if_neg hrests]
          simp [hrests]
      have hroute : (routeAll { x with book := b' } session (.accepted id :: f.map (Market.trade id))).1 =
          (y.routeAll session (f.map (Market.trade id))).1 := by
        rw [Exchange.routeAll, Exchange.route, hy]
      have hrouted := routed_trades session id y f
      rw [hbook] at hrouted
      dsimp only at hsound ⊢
      rw [hroute]
      -- who has an owner rests, and who rests has one
      have hrests : ∀ i, i ∈ b'.index → (y.routeAll session (f.map (Market.trade id))).1.owners[i]? =
          if id = i then some session else x.owners[i]? := by
        intro i hi
        rw [hrouted.kept i fun hgone => hgone.2 hi, howners]
        by_cases hid : id = i
        · subst hid
          rw [if_pos ⟨rfl, hi⟩, if_pos rfl]
        · rw [if_neg fun heq => hid heq.1, if_neg hid]
      have hmem : ∀ i, i ∈ (y.routeAll session (f.map (Market.trade id))).1.owners ↔ i ∈ b'.index := by
        intro i
        constructor
        · intro hi
          by_contra hnot
          rw [mem_owners_iff] at hi
          by_cases hmaker : i ∈ f.map fun p => p.1.id
          · rw [hrouted.lost i ⟨hmaker, hnot⟩] at hi
            cases hi
          · have hother : ¬(id = i ∧ id ∈ b'.index) := fun hself => hnot (hself.1 ▸ hself.2)
            rw [hrouted.kept i fun hgone => hmaker hgone.1, howners, if_neg hother, ← mem_owners_iff, h.owners] at hi
            obtain ⟨o, ho, rfl⟩ := hi
            have hleft : o.id ∉ Market.exhausted f := by
              intro hex
              obtain ⟨p, hp, hid⟩ := List.mem_map.mp hex
              exact hmaker (List.mem_map.mpr ⟨p, (List.mem_filter.mp hp).1, hid⟩)
            rw [mem_exhausted htaken h.sound.distinct h.sound.live ho, not_not] at hleft
            exact hnot ((mem_index hsound.toRepresents).mpr
              ⟨_, List.mem_append_left _ (Market.mem_reduce.mpr ⟨o, ho, rfl, hleft⟩), rfl⟩)
        · intro hi
          rw [mem_owners_iff, hrests i hi]
          by_cases hid : id = i
          · rw [if_pos hid]
            rfl
          · rw [if_neg hid, ← mem_owners_iff, h.owners]
            obtain ⟨o, ho, rfl⟩ := (mem_index hsound.toRepresents).mp hi
            rcases List.mem_append.mp ho with ho | ho
            · obtain ⟨o', ho', rfl, -⟩ := Market.mem_reduce.mp ho
              exact ⟨o', ho', rfl⟩
            · split at ho
              · rw [List.mem_singleton.mp ho] at hid
                exact absurd rfl hid
              · cases ho
      refine ⟨⟨?_, hrouted.agree hagree, fun i => ?_⟩, hrouted.lastClientSeq.trans hlast, fun i hi => ?_⟩
      · rw [hrouted.book, hbook]
        exact hsound
      · rw [hmem i, mem_index hsound.toRepresents]
      · have hindex := (hmem i).mp hi
        rw [hrests i hindex]
        by_cases hid : id = i
        · subst hid
          rw [if_pos rfl, ExtTreeMap.getElem?_eq_none hnew]
          rfl
        · rw [mem_owners_iff, hrests i hindex, if_neg hid] at hi
          obtain ⟨owner, howner⟩ := Option.isSome_iff_exists.mp hi
          rw [if_neg hid, howner]
          rfl

/-- **A cancel**: the order loses its owner. -/
theorem driven_cancel (h : Owns x l) {b' : Book} (hsound : Sound b' (Market.cancel l id).state) :
    Driven x (routeAll { x with book := b' } session (Market.cancel l id).outputs).1 session
      (Market.cancel l id).state := by
  unfold Market.cancel at hsound ⊢
  split at hsound
  · exact h.unchanged hsound
  · rename_i o hfind
    have ho : o ∈ l := List.mem_of_find?_eq_some hfind
    refine ⟨⟨?_, Agree.disown (x := { x with book := b' }) h.agree, fun i => ?_⟩, disown_lastClientSeq, fun i hi => ?_⟩
    · show Sound (disown { x with book := b' } id).book _
      rw [disown_book]
      exact hsound
    · show i ∈ (disown { x with book := b' } id).owners ↔ _
      rw [mem_owners_iff, getElem?_disown]
      by_cases hi : id = i
      · subst hi
        rw [if_pos rfl]
        constructor
        · intro hsome
          cases hsome
        · rintro ⟨a, ha, heq⟩
          exact absurd heq (mem_remove.mp ha).2
      · rw [if_neg hi, ← mem_owners_iff]
        refine (h.owners i).trans (exists_congr fun a => ?_)
        rw [mem_remove]
        constructor
        · rintro ⟨ha, rfl⟩
          exact ⟨⟨ha, fun heq => hi heq.symm⟩, rfl⟩
        · rintro ⟨⟨ha, -⟩, heq⟩
          exact ⟨ha, heq⟩
    · have hget : (disown { x with book := b' } id).owners[i]? = if id = i then none else x.owners[i]? :=
        getElem?_disown i
      have hsome := mem_owners_iff.mp hi
      show (disown { x with book := b' } id).owners[i]? = _
      have hsome' : ((disown { x with book := b' } id).owners[i]?).isSome := hsome
      rw [hget] at hsome' ⊢
      by_cases hi : id = i
      · rw [if_pos hi] at hsome'
        cases hsome'
      · rw [if_neg hi] at hsome' ⊢
        obtain ⟨owner, howner⟩ := Option.isSome_iff_exists.mp hsome'
        rw [howner]
        rfl

/-- **Driving the book** keeps the exchange in order. -/
theorem drive_eq (session : UInt64) (h : Owns x l) (cmd : Cmd) : ∃ y, x.runBook cmd = some (y, (Market.apply l cmd).outputs) ∧
    Driven x (y.routeAll session (Market.apply l cmd).outputs).1 session (Market.apply l cmd).state := by
  obtain ⟨b', hstep, hsound⟩ := apply_eq h.sound cmd
  refine ⟨{ x with book := b' }, ?_, ?_⟩
  · rw [Exchange.runBook, hstep]
    rfl
  · cases cmd with
    | submit id side price qty => exact driven_submit h hsound
    | submitGtd id side price qty expireAt => exact driven_submit h hsound
    | cancel id => exact driven_cancel h hsound

end Command

end Ticktape.Exchange
