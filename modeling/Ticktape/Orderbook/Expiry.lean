import Ticktape.Orderbook.Codec
import Ticktape.Runtime.Follow

/-!
# Good-till-date orders

An order book behind a node: its expiries are timers of the node, kept in another wheel than the orders. Over every run
of calls the frames published say which market the book stands for, the timers pending are the expiries of the orders
that rest there, and a timer that fires takes out an order whose deadline has come.
-/

namespace Ticktape.Orderbook

open Ticktape.Lib Ticktape.Core Ticktape.Runtime Std
open Market (exhausted)

/-! ## The market of the published frames -/

/-- The market after one more frame. -/
def follow (l : List Order) (frame : Frame) : List Order :=
  match frame.kind with
  | .input =>
    match (decodeAll frame.payload : Except CodecError Cmd) with
    | .ok cmd => (Market.apply l cmd).state
    | .error _ => l
  | .timerFired =>
    match (decodeAll frame.payload : Except CodecError UInt64) with
    | .ok id => (Market.expire l id).state
    | .error _ => l
  | _ => l

def marketOf (frames : List Frame) : List Order := frames.foldl follow []

/-- **The timers pending** are the expiries of the orders that rest. -/
def Armed (l : List Order) (timers : TimerWheel) : Prop :=
  ∀ id deadline, (∃ armedAt, timers.byId[id]? = some (deadline, armedAt)) ↔
    ∃ o ∈ l, o.id = id ∧ o.expiry = some deadline

/-- **Every firing** took out an order whose deadline had come. -/
def OnTime (frames : List Frame) : Prop :=
  ∀ before frame rest, frames = before ++ frame :: rest → frame.kind = .timerFired →
    ∃ o ∈ marketOf before, frame.payload = encode o.id ∧ ∃ deadline, o.expiry = some deadline ∧
      deadline ≤ frame.timestamp

section Armed

variable {l : List Order} {timers : TimerWheel} {id seq : UInt64}

/-- Cancelling timers one after the other. -/
theorem applyAll_cancel (ids : List UInt64) (timers : TimerWheel) :
    (timers.applyAll (ids.map .cancel) seq).byId[id]? = if id ∈ ids then none else timers.byId[id]? := by
  induction ids generalizing timers with
  | nil => simp [TimerWheel.applyAll]
  | cons i ids ih =>
    show ((timers.cancel i).applyAll (ids.map .cancel) seq).byId[id]? = _
    rw [ih, TimerWheel.cancel_byId]
    by_cases hmem : id ∈ ids
    · simp [hmem]
    · by_cases hi : i = id
      · simp [hi]
      · simp [hmem, hi, Ne.symm hi]

theorem applyAll_append (timers : TimerWheel) (reqs reqs' : List TimerReq) :
    timers.applyAll (reqs ++ reqs') seq = (timers.applyAll reqs seq).applyAll reqs' seq := List.foldl_append

/-- Orders that leave the market take their timers with them. -/
theorem Armed.left {timers' : TimerWheel} {l' : List Order} (h : Armed l timers) (gone : UInt64 → Prop)
    (hgone : ∀ id, gone id → timers'.byId[id]? = none)
    (hkept : ∀ id, ¬gone id → timers'.byId[id]? = timers.byId[id]?)
    (horders : ∀ id deadline, (∃ o ∈ l', o.id = id ∧ o.expiry = some deadline) ↔
      ¬gone id ∧ ∃ o ∈ l, o.id = id ∧ o.expiry = some deadline) : Armed l' timers' := by
  intro id deadline
  rw [horders, ← h id deadline]
  by_cases hid : gone id
  · simp [hid, hgone id hid]
  · simp [hid, hkept id hid]

/-- An order that comes to rest arms its timer. -/
theorem Armed.rest (h : Armed l timers) {o : Order} (hnew : ∀ a ∈ l, a.id ≠ o.id) :
    Armed (l ++ [o]) (timers.applyAll (Market.arm o) seq) := by
  intro id deadline
  have hmem : (∃ a ∈ l ++ [o], a.id = id ∧ a.expiry = some deadline) ↔
      (∃ a ∈ l, a.id = id ∧ a.expiry = some deadline) ∨ o.id = id ∧ o.expiry = some deadline := by
    simp only [List.mem_append, List.mem_singleton, or_and_right, exists_or, exists_eq_left]
  have hnone : timers.byId[o.id]? = none := by
    cases hget : timers.byId[o.id]? with
    | none => rfl
    | some e =>
      obtain ⟨a, ha, hid, -⟩ := (h o.id e.1).mp ⟨e.2, hget⟩
      exact absurd hid (hnew a ha)
  rw [hmem, ← h id deadline]
  cases hexpiry : o.expiry with
  | none =>
    have harm : Market.arm o = [] := by rw [Market.arm, hexpiry]; rfl
    rw [harm]
    simp [TimerWheel.applyAll]
  | some at' =>
    have harm : Market.arm o = [.set o.id at'] := by rw [Market.arm, hexpiry]; rfl
    have hset : (timers.applyAll [.set o.id at'] seq).byId[id]? =
        if o.id = id then some (at', seq) else timers.byId[id]? := TimerWheel.set_byId ..
    rw [harm, hset]
    by_cases hid : o.id = id
    · subst hid
      simp [hnone]
    · simp [hid]

/-- **A submission** keeps the timers and the orders in step. -/
theorem Armed.submit {b : Book} (hsound : Sound b l) (h : Armed l timers) {side : Side} {price qty : UInt32}
    {expiry : Option UInt64} : Armed (Market.submit l id side price qty expiry).state
      (timers.applyAll (Market.submit l id side price qty expiry).timers seq) := by
  rw [Market.submit]
  split
  · exact h
  · split
    · exact h
    · rename_i hdup
      have htaken : Taken (Market.fills side.opposite price qty.toNat l) l := taken_fills hsound.distinct
      have hreduced : Armed (Market.reduce (Market.fills side.opposite price qty.toNat l) l) (timers.applyAll
          ((exhausted (Market.fills side.opposite price qty.toNat l)).map .cancel) seq) := by
        apply h.left fun id => id ∈ exhausted (Market.fills side.opposite price qty.toNat l)
        · intro id hgone
          rw [applyAll_cancel, if_pos hgone]
        · intro id hkept
          rw [applyAll_cancel, if_neg hkept]
        · intro id deadline
          constructor
          · rintro ⟨o, ho, rfl, hexpiry⟩
            obtain ⟨o', ho', rfl, hpos⟩ := Market.mem_reduce.mp ho
            refine ⟨?_, o', ho', rfl, hexpiry⟩
            rw [Market.after_id, mem_exhausted htaken hsound.distinct hsound.live ho', not_not]
            exact hpos
          · rintro ⟨hnot, o, ho, rfl, hexpiry⟩
            rw [mem_exhausted htaken hsound.distinct hsound.live ho, not_not] at hnot
            exact ⟨_, Market.mem_reduce.mpr ⟨o, ho, rfl, hnot⟩, rfl, hexpiry⟩
      rw [applyAll_append]
      dsimp only
      split
      · rw [List.flatMap_singleton]
        apply hreduced.rest
        intro a ha heq
        obtain ⟨a', ha', rfl, -⟩ := Market.mem_reduce.mp ha
        exact hdup ⟨a', ha', heq⟩
      · rw [List.append_nil]
        exact hreduced

/-- Taking an order out takes its timer out. -/
theorem Armed.remove (h : Armed l timers) (id : UInt64) : Armed (Market.remove l id) (timers.cancel id) := by
  apply h.left (id = ·)
  · intro id' hgone
    rw [TimerWheel.cancel_byId, if_pos hgone]
  · intro id' hkept
    rw [TimerWheel.cancel_byId, if_neg hkept]
  · intro id' deadline
    constructor
    · rintro ⟨o, ho, rfl, hexpiry⟩
      exact ⟨fun heq => (mem_remove.mp ho).2 heq.symm, o, (mem_remove.mp ho).1, rfl, hexpiry⟩
    · rintro ⟨hne, o, ho, rfl, hexpiry⟩
      exact ⟨o, mem_remove.mpr ⟨ho, fun heq => hne heq.symm⟩, rfl, hexpiry⟩

theorem Armed.cancel (h : Armed l timers) :
    Armed (Market.cancel l id).state (timers.applyAll (Market.cancel l id).timers seq) := by
  rw [Market.cancel]
  split
  · exact h
  · exact h.remove id

theorem Armed.apply {b : Book} (hsound : Sound b l) (h : Armed l timers) (cmd : Cmd) :
    Armed (Market.apply l cmd).state (timers.applyAll (Market.apply l cmd).timers seq) := by
  cases cmd with
  | submit id side price qty => exact h.submit hsound
  | submitGtd id side price qty expireAt => exact h.submit hsound
  | cancel id => exact h.cancel

end Armed

/-! ## Runs of a node -/

/-- **The invariant of a node that hosts a book.** -/
structure Hosts (past : List Frame) (state : Option Book) (timers : TimerWheel) : Prop where
  sound : ∃ b, state = some b ∧ Sound b (marketOf past)
  armed : Armed (marketOf past) timers
  onTime : OnTime past

section Hosts

variable {past : List Frame} {state : Option Book} {timers : TimerWheel} {frame : Frame}

theorem marketOf_snoc : marketOf (past ++ [frame]) = follow (marketOf past) frame := by
  rw [marketOf, List.foldl_append]
  rfl

/-- One frame more is on time if it is. -/
theorem OnTime.snoc (h : OnTime past) (hframe : frame.kind = .timerFired → ∃ o ∈ marketOf past,
    frame.payload = encode o.id ∧ ∃ deadline, o.expiry = some deadline ∧ deadline ≤ frame.timestamp) :
    OnTime (past ++ [frame]) := by
  intro before f rest hsplit hkind
  rcases List.eq_nil_or_concat rest with rfl | ⟨rest', last, rfl⟩
  · obtain ⟨rfl, hlast⟩ := List.append_inj' hsplit rfl
    obtain rfl := List.singleton_inj.mp hlast
    exact hframe hkind
  · have hpast : past = before ++ f :: rest' := by
      rw [List.concat_eq_append, ← List.cons_append, ← List.append_assoc] at hsplit
      exact (List.append_inj' hsplit rfl).1
    exact h before f rest' hpast hkind

/-- **Every published frame keeps the invariant.** -/
theorem hosts_follows : @Follows orderbook Hosts where
  input := by
    intro past state timers frame cmd h hkind hpayload
    obtain ⟨b, rfl, hsound⟩ := h.sound
    obtain ⟨b', hstep, hsound'⟩ := apply_eq hsound cmd
    have hfollow : marketOf (past ++ [frame]) = (Market.apply (marketOf past) cmd).state := by
      rw [marketOf_snoc, follow, hkind]
      simp only [hpayload]
      rw [show decodeAll (encode (α := orderbook.Input) cmd) = Except.ok (α := Cmd) cmd from
        decodeAll_encode (α := Cmd) cmd]
    have hstepped : orderbook.apply (some b) frame.seq cmd ⟨frame.seq, frame.timestamp⟩ =
        ⟨some b', (Market.apply (marketOf past) cmd).outputs, (Market.apply (marketOf past) cmd).timers⟩ :=
      congrArg stepped hstep
    rw [hstepped]
    refine ⟨⟨b', rfl, ?_⟩, ?_, h.onTime.snoc fun hfired => ?_⟩
    · rw [hfollow]
      exact hsound'
    · rw [hfollow]
      exact h.armed.apply hsound cmd
    · rw [hkind] at hfired
      cases hfired
  timer := by
    intro past state timers frame id deadline armedAt h hkind hpayload hget hdue
    obtain ⟨b, rfl, hsound⟩ := h.sound
    obtain ⟨b', hstep, hsound'⟩ := onTimer_eq hsound id
    obtain ⟨o, ho, rfl, hexpiry⟩ := (h.armed id deadline).mp ⟨armedAt, hget⟩
    have hexpire : Market.expire (marketOf past) o.id =
        ⟨Market.remove (marketOf past) o.id, [.expired o.id (UInt32.ofNat o.qty)], []⟩ := by
      rw [Market.expire, find?_id hsound.distinct ho]
    have hfollow : marketOf (past ++ [frame]) = Market.remove (marketOf past) o.id := by
      rw [marketOf_snoc, follow, hkind]
      simp only [hpayload, decodeAll_encode, hexpire]
    have hstepped : orderbook.onTimer (some b) o.id ⟨frame.seq, frame.timestamp⟩ =
        ⟨some b', (Market.expire (marketOf past) o.id).outputs, (Market.expire (marketOf past) o.id).timers⟩ :=
      congrArg stepped hstep
    rw [hexpire] at hsound' hstepped
    rw [hstepped]
    refine ⟨⟨b', rfl, ?_⟩, ?_, h.onTime.snoc fun _ => ⟨o, ho, hpayload, deadline, hexpiry, hdue⟩⟩
    · rw [hfollow]
      exact hsound'
    · rw [hfollow]
      exact h.armed.remove o.id
  control := by
    intro past state timers frame h hinput htimer
    have hfollow : marketOf (past ++ [frame]) = marketOf past := by
      rw [marketOf_snoc]
      unfold follow
      split
      · rename_i hkind
        exact absurd hkind hinput
      · rename_i hkind
        exact absurd hkind htimer
      · rfl
    refine ⟨?_, ?_, h.onTime.snoc fun hkind => absurd hkind htimer⟩
    · rw [hfollow]
      exact h.sound
    · rw [hfollow]
      exact h.armed

end Hosts

/-- **Good-till-date orders expire on time.** Over every run of calls of a node that was opened on a new book: the book
never panics and stands for the market of the published frames; the timers pending are exactly the expiries of the
orders that rest, so none outlives its order and none is lost; every `TimerFired` frame took out an order whose deadline
had come; and when a call that fires timers returns, no order that rests is past its deadline. -/
theorem orders_expire_on_time {n₀ n : Node orderbook} {inputs : List orderbook.Input}
    (hservice : n₀.service = some Book.genesis) (htimers : n₀.timers = .new) (hledger : n₀.ledger = [])
    (h : Turns n₀ inputs n) :
    (∃ b, n.service = some b ∧ Represents b (marketOf (n.ledger.map (·.frame)))) ∧
    Armed (marketOf (n.ledger.map (·.frame))) n.timers ∧ OnTime (n.ledger.map (·.frame)) ∧
    ∀ (call : Call orderbook) w w' n' result, call.run n w = .ok result n' w' → call.Triggers →
      ∀ o ∈ marketOf (n'.ledger.map (·.frame)), ∀ deadline, o.expiry = some deadline →
        n'.lastTimestamp < deadline := by
  have hstart : Hosts (n₀.ledger.map (·.frame)) n₀.service n₀.timers := by
    rw [hservice, htimers, hledger]
    exact ⟨⟨_, rfl, sound_genesis⟩, fun id deadline => by simp [marketOf, TimerWheel.new], fun before frame rest hsplit =>
      by simp at hsplit⟩
  have hhosts := h.follows hosts_follows hstart
  obtain ⟨b, hbook, hsound⟩ := hhosts.sound
  refine ⟨⟨b, hbook, hsound.toRepresents⟩, hhosts.armed, hhosts.onTime, ?_⟩
  intro call w w' n' result hrun htriggers o ho deadline hexpiry
  obtain ⟨hhosts', hidle⟩ := mwp_ok (mwp_call_follows hosts_follows call hhosts) hrun
  obtain ⟨armedAt, hget⟩ := (hhosts'.armed o.id deadline).mpr ⟨o, ho, rfl, hexpiry⟩
  exact TimerWheel.popDue_none.mp (hidle htriggers) o.id deadline armedAt hget

/-- A node on an empty directory takes an order that is due at once. -/
def shortLived : Option (Node orderbook × Node orderbook) := do
  let opening : Prog Unit Journal.JStore NodeError (Node orderbook) :=
    Node.openWith ⟨⟨1024, .never⟩, 1, none, 1, none⟩ () fun _ => 5
  let (n₀, _, w₀) ← (opening () (.healthy ⟨Disk.empty, Journal.History.fresh⟩)).returned
  let submit : Call orderbook := .submit 4 (.submitGtd 7 .buy 10 3 5 : Cmd)
  let (_, n, _) ← (submit.run n₀ w₀).returned
  pure (n₀, n)

/-- Nothing is on the book yet. -/
def newBook : Option Book → Bool
  | some b => b.bids.size = 0 ∧ b.asks.size = 0 ∧ b.index.size = 0 ∧
      b.acceptedShares = 0 ∧ b.tradedShares = 0 ∧ b.canceledShares = 0
  | none => false

theorem newBook_eq {state : Option Book} (h : newBook state = true) : state = some Book.genesis := by
  cases state with
  | none => cases h
  | some b =>
    obtain ⟨hbids, hasks, hindex, haccepted, htraded, hcanceled⟩ := of_decide_eq_true h
    refine congrArg some (Book.ext_side (fun s => ?_) (ExtTreeMap.eq_empty_iff_size_eq_zero.mpr hindex) haccepted htraded
      hcanceled)
    cases s with
    | buy => exact ExtTreeMap.eq_empty_iff_size_eq_zero.mpr hbids
    | sell => exact ExtTreeMap.eq_empty_iff_size_eq_zero.mpr hasks

/-- It is put on the book and taken out again. -/
theorem orders_expire_on_time_of_one : ∃ n : Node orderbook, OnTime (n.ledger.map (·.frame)) ∧
    (n.ledger.map (·.frame.kind)) = [.input, .timerFired] ∧ marketOf (n.ledger.map (·.frame)) = [] := by
  have hplay : shortLived.any (fun p => newBook p.1.service && decide (p.1.timers.byId.size = 0) &&
      decide (p.1.ledger.length = 0) && decide (p.2.ledger.map (·.frame.kind) = [.input, .timerFired]) &&
      decide (marketOf (p.2.ledger.map (·.frame)) = [])) = true := by decide +kernel
  obtain ⟨⟨n₀, n⟩, hplay, hchecked⟩ := (Option.any_eq_true _ _).mp hplay
  simp only [Bool.and_eq_true, decide_eq_true_eq] at hchecked
  obtain ⟨⟨⟨⟨hbook, htimers⟩, hledger⟩, hkinds⟩, hmarket⟩ := hchecked
  simp only [shortLived, bind, Option.bind_eq_some_iff, pure, Option.some.injEq, Prod.mk.injEq] at hplay
  obtain ⟨⟨_, _, w₀⟩, -, ⟨_, _, _⟩, hsubmit, rfl, rfl⟩ := hplay
  rw [Outcome.returned_eq_some] at hsubmit
  have hwheel : TimerWheel.byId _ = ∅ := ExtTreeMap.eq_empty_iff_size_eq_zero.mpr htimers
  have hempty := orders_expire_on_time (newBook_eq hbook) (TimerWheel.ext fun id => by rw [hwheel]; rfl)
    (List.length_eq_zero_iff.mp hledger) (Turns.start.call _ hsubmit)
  exact ⟨_, hempty.2.2.1, hkinds, hmarket⟩

end Ticktape.Orderbook
