import Ticktape.Runtime.Burst
import Ticktape.Runtime.Quorum

/-!
# The chronicle of the timers

What happened to the timers of a node, told from the frames it has sequenced: every arming, every cancellation
and every firing, in order. An arming stands until the next event on its id. Along every run the wheel holds
exactly the armings that stand, so every firing takes the earliest of them, each of them at most once, and none
that is due is left behind when a call returns (`timers_fire_once`).
-/

namespace Ticktape.Runtime

open Ticktape.Lib Ticktape.Core Ticktape.Journal

/-! ## Events -/

/-- Something that happens to a timer. -/
inductive TimerEvent where
  | armed (id deadline armedAt : UInt64)
  | cancelled (id : UInt64)
  | fired (id stamp : UInt64)
  deriving DecidableEq

namespace TimerEvent

/-- The timer it happens to. -/
def id : TimerEvent → UInt64
  | armed id _ _ => id
  | cancelled id => id
  | fired id _ => id

/-- What it leaves pending: a deadline, and the seq it was armed at. -/
def leaves : TimerEvent → Option (UInt64 × UInt64)
  | armed _ deadline armedAt => some (deadline, armedAt)
  | cancelled _ => none
  | fired _ _ => none

theorem eq_armed {e : TimerEvent} {deadline armedAt : UInt64} (h : e.leaves = some (deadline, armedAt)) :
    e = armed e.id deadline armedAt := by
  cases e with
  | armed =>
    obtain ⟨rfl, rfl⟩ := Prod.mk.inj (Option.some.inj h)
    rfl
  | cancelled => cases h
  | fired => cases h

end TimerEvent

/-- What is pending of a timer: what the last event on it has left. -/
def pending (events : List TimerEvent) (id : UInt64) : Option (UInt64 × UInt64) :=
  (events.reverse.find? (·.id = id)).bind (·.leaves)

@[simp] theorem pending_snoc (events : List TimerEvent) (e : TimerEvent) (id : UInt64) :
    pending (events ++ [e]) id = if e.id = id then e.leaves else pending events id := by
  simp only [pending, List.reverse_append, List.reverse_singleton, List.singleton_append, List.find?_cons]
  by_cases hid : e.id = id <;> simp [hid]

/-- **The `i`-th event is an arming that stands**: nothing has happened to its timer since. -/
structure Stands (events : List TimerEvent) (i : ℕ) (id deadline armedAt : UInt64) : Prop where
  armed : events[i]? = some (.armed id deadline armedAt)
  since : ∀ e ∈ events.drop (i + 1), e.id ≠ id

section Stands

variable {events : List TimerEvent} {i j : ℕ} {id deadline armedAt deadline' armedAt' : UInt64} {e : TimerEvent}

theorem Stands.lt (h : Stands events i id deadline armedAt) : i < events.length :=
  (List.getElem?_eq_some_iff.mp h.armed).1

theorem stands_snoc : Stands (events ++ [e]) i id deadline armedAt ↔
    i = events.length ∧ e = .armed id deadline armedAt ∨ e.id ≠ id ∧ Stands events i id deadline armedAt := by
  constructor
  · intro h
    have hle : i ≤ events.length := by
      have hlt := h.lt
      rw [List.length_append, List.length_singleton] at hlt
      omega
    rcases Nat.lt_or_eq_of_le hle with hlt | heq
    · have hdrop : (events ++ [e]).drop (i + 1) = events.drop (i + 1) ++ [e] := List.drop_append_of_le_length hlt
      have hsince := h.since
      rw [hdrop] at hsince
      refine Or.inr ⟨hsince e (by simp), ?_, fun e' he' => hsince e' (List.mem_append_left _ he')⟩
      rw [← List.getElem?_append_left hlt]
      exact h.armed
    · subst heq
      have harmed := h.armed
      rw [List.getElem?_concat_length] at harmed
      exact Or.inl ⟨rfl, Option.some.inj harmed⟩
  · rintro (⟨rfl, rfl⟩ | ⟨hne, h⟩)
    · refine ⟨List.getElem?_concat_length .., fun e' he' => ?_⟩
      rw [List.drop_of_length_le (by simp)] at he'
      cases he'
    · have hlt := h.lt
      refine ⟨?_, fun e' he' => ?_⟩
      · rw [List.getElem?_append_left hlt]
        exact h.armed
      · rw [List.drop_append_of_le_length hlt] at he'
        rcases List.mem_append.mp he' with hold | hnew
        · exact h.since e' hold
        · exact List.mem_singleton.mp hnew ▸ hne

/-- **A timer is pending exactly if an arming of it stands.** -/
theorem pending_eq_some : pending events id = some (deadline, armedAt) ↔
    ∃ i, Stands events i id deadline armedAt := by
  induction events using List.reverseRecOn with
  | nil =>
    constructor
    · intro h
      cases h
    · rintro ⟨i, h⟩
      exact absurd h.lt (Nat.not_lt_zero i)
  | append_singleton events e ih =>
    rw [pending_snoc]
    by_cases hid : e.id = id
    · rw [if_pos hid]
      constructor
      · exact fun h => ⟨_, stands_snoc.mpr (Or.inl ⟨rfl, hid ▸ e.eq_armed h⟩)⟩
      · rintro ⟨i, h⟩
        rcases stands_snoc.mp h with ⟨-, rfl⟩ | ⟨hne, -⟩
        · rfl
        · exact absurd hid hne
    · rw [if_neg hid, ih]
      refine exists_congr fun i => ?_
      rw [stands_snoc]
      constructor
      · exact fun h => Or.inr ⟨hid, h⟩
      · rintro (⟨-, rfl⟩ | ⟨-, h⟩)
        · exact absurd rfl hid
        · exact h

/-- Only one arming of a timer stands. -/
theorem Stands.unique (h : Stands events i id deadline armedAt) (h' : Stands events j id deadline' armedAt') :
    i = j := by
  -- the later of the two would have ended the earlier
  have hlater : ∀ {i j : ℕ} {d a d' a' : UInt64}, Stands events i id d a → Stands events j id d' a' → ¬i < j := by
    intro i j d a d' a' h h' hlt
    refine h.since (.armed id d' a') ?_ rfl
    refine List.mem_of_getElem? (i := j - (i + 1)) ?_
    rw [List.getElem?_drop, show i + 1 + (j - (i + 1)) = j by omega]
    exact h'.armed
  have := hlater h h'
  have := hlater h' h
  omega

end Stands

/-! ## Exact firing -/

/-- **Timers fire exactly once, in order, when due.** -/
structure FiresOnce (events : List TimerEvent) : Prop where
  /-- A firing takes the one arming of its timer that stands; it is due, and the earliest of all that stand. -/
  takes : ∀ k id stamp, events[k]? = some (.fired id stamp) → ∃ i deadline armedAt,
    Stands (events.take k) i id deadline armedAt ∧ deadline ≤ stamp ∧
    (∀ j deadline' armedAt', Stands (events.take k) j id deadline' armedAt' → j = i) ∧
    ∀ j id' deadline' armedAt', Stands (events.take k) j id' deadline' armedAt' →
      firingOrder (deadline, armedAt, id) (deadline', armedAt', id') ≠ .gt
  /-- No two firings take the same arming. -/
  once : ∀ k k' i id id' stamp stamp' deadline armedAt, k < k' → events[k]? = some (.fired id stamp) →
    events[k']? = some (.fired id' stamp') → Stands (events.take k) i id deadline armedAt →
    ¬Stands (events.take k') i id' deadline armedAt

/-- The next firing takes what the wheel pops. -/
def Takes (events : List TimerEvent) (id stamp : UInt64) : Prop :=
  ∃ deadline armedAt, pending events id = some (deadline, armedAt) ∧ deadline ≤ stamp ∧
    ∀ id' deadline' armedAt', pending events id' = some (deadline', armedAt') →
      firingOrder (deadline, armedAt, id) (deadline', armedAt', id') ≠ .gt

/-- Every firing takes what is pending, due and earliest. -/
def AllTake (events : List TimerEvent) : Prop :=
  ∀ k id stamp, events[k]? = some (.fired id stamp) → Takes (events.take k) id stamp

section Take

variable {events : List TimerEvent}

theorem AllTake.firesOnce (h : AllTake events) : FiresOnce events := by
  refine ⟨fun k id stamp hk => ?_, ?_⟩
  · obtain ⟨deadline, armedAt, hpending, hle, hleast⟩ := h k id stamp hk
    obtain ⟨i, hi⟩ := pending_eq_some.mp hpending
    exact ⟨i, deadline, armedAt, hi, hle, fun j _ _ hj => hj.unique hi,
      fun j id' deadline' armedAt' hj => hleast id' deadline' armedAt' (pending_eq_some.mpr ⟨j, hj⟩)⟩
  · intro k k' i id id' stamp stamp' deadline armedAt hlt hk hk' hi hi'
    have hik : i < k := by
      have := hi.lt
      rw [List.length_take] at this
      omega
    -- both firings are of the timer that the `i`-th event arms
    have harmed := hi.armed
    have harmed' := hi'.armed
    rw [List.getElem?_take_of_lt hik] at harmed
    rw [List.getElem?_take_of_lt (Nat.lt_trans hik hlt), harmed] at harmed'
    obtain ⟨rfl, -, -⟩ := TimerEvent.armed.inj (Option.some.inj harmed')
    -- and the first of them ends that arming
    refine hi'.since (.fired id stamp) ?_ rfl
    refine List.mem_of_getElem? (i := k - (i + 1)) ?_
    rw [List.getElem?_drop, show i + 1 + (k - (i + 1)) = k by omega, List.getElem?_take_of_lt hlt]
    exact hk

theorem AllTake.snoc {e : TimerEvent} (h : AllTake events)
    (he : ∀ id stamp, e = .fired id stamp → Takes events id stamp) : AllTake (events ++ [e]) := by
  intro k id stamp hk
  have hle : k ≤ events.length := by
    have hlt := (List.getElem?_eq_some_iff.mp hk).1
    rw [List.length_append, List.length_singleton] at hlt
    omega
  rcases Nat.lt_or_eq_of_le hle with hlt | rfl
  · rw [List.getElem?_append_left hlt] at hk
    rw [List.take_append_of_le_length hlt.le]
    exact h k id stamp hk
  · rw [List.getElem?_concat_length] at hk
    rw [List.take_left]
    exact he id stamp (Option.some.inj hk)

end Take

/-! ## What the frames tell -/

/-- What a scheduling request does to its timer. -/
def requested (armedAt : UInt64) : TimerReq → TimerEvent
  | .set id deadline => .armed id deadline armedAt
  | .cancel id => .cancelled id

/-- The armings of the wheel that a node starts with. -/
def restored (timers : TimerWheel) : List TimerEvent := timers.snapshot.map fun p => .armed p.1 p.2.1 p.2.2

variable {svc : Service}

/-- How far the frames were told: the service state, the inputs still to come and the events so far. -/
structure Telling (svc : Service) where
  state : svc.State
  inputs : List svc.Input
  events : List TimerEvent

namespace Telling

/-- The frame runs a step of the service. -/
def stepped (t : Telling svc) (frame : Frame) (step : svc.State → Ctx → Step svc.State svc.Output) : Telling svc :=
  { t with
    state := (step t.state ⟨frame.seq, frame.timestamp⟩).state
    events := t.events ++
      (step t.state ⟨frame.seq, frame.timestamp⟩).timers.map (requested (UInt64.ofNat frame.seq)) }

/-- Tell one frame. -/
def tell (t : Telling svc) (frame : Frame) : Telling svc :=
  match frame.kind with
  | .input =>
    match t.inputs with
    | [] => t
    | input :: inputs =>
      ({ t with inputs := inputs } : Telling svc).stepped frame fun state ctx => svc.apply state frame.seq input ctx
  | .timerFired =>
    match (decodeAll frame.payload : Except CodecError UInt64) with
    | .error _ => t
    | .ok id =>
      ({ t with events := t.events ++ [.fired id frame.timestamp] } : Telling svc).stepped frame
        fun state ctx => svc.onTimer state id ctx
  | _ => t

end Telling

/-- The frames published since `n₀`. -/
def Node.since (n₀ n : Node svc) : List Frame := (n.ledger.map (·.frame)).drop n₀.ledger.length

/-- **The timer events since `n₀`**: those of the frames published since, which apply `inputs` in order. -/
def Node.history (n₀ : Node svc) (inputs : List svc.Input) (n : Node svc) : List TimerEvent :=
  ((n₀.since n).foldl Telling.tell ⟨n₀.service, inputs, restored n₀.timers⟩).events

/-- The payload and the timestamp of a firing. -/
def TimerEvent.firing : TimerEvent → Option (Bytes × UInt64)
  | fired id stamp => some (encode id, stamp)
  | _ => none

/-- The payload and the timestamp of a `TimerFired` frame. -/
def firedFrame (frame : Frame) : Option (Bytes × UInt64) :=
  if frame.kind = .timerFired then some (frame.payload, frame.timestamp) else none

theorem firing_requested (reqs : List TimerReq) (armedAt : UInt64) :
    (reqs.map (requested armedAt)).filterMap (·.firing) = [] := by
  rw [List.filterMap_eq_nil_iff]
  intro e he
  obtain ⟨req, -, rfl⟩ := List.mem_map.mp he
  cases req <;> rfl

/-! ## The wheel and its events -/

/-- **The wheel holds what is pending.** -/
def Agrees (w : TimerWheel) (events : List TimerEvent) : Prop := ∀ id : UInt64, w.byId[id]? = pending events id

section Agree

variable {w : TimerWheel} {events : List TimerEvent} {id : UInt64}

theorem Agrees.armed (h : Agrees w events) (id deadline armedAt : UInt64) :
    Agrees (w.set id deadline armedAt) (events ++ [.armed id deadline armedAt]) := by
  intro id'
  rw [TimerWheel.set_byId, pending_snoc, h id']
  rfl

/-- A cancellation or a firing takes the timer out. -/
theorem Agrees.left (h : Agrees w events) {e : TimerEvent} (hleaves : e.leaves = none) :
    Agrees (w.cancel e.id) (events ++ [e]) := by
  intro id'
  rw [TimerWheel.cancel_byId, pending_snoc, h id', hleaves]

theorem Agrees.applyAll (h : Agrees w events) (reqs : List TimerReq) (armedAt : UInt64) :
    Agrees (w.applyAll reqs armedAt) (events ++ reqs.map (requested armedAt)) := by
  induction reqs generalizing w events with
  | nil =>
    rw [List.map_nil, List.append_nil]
    exact h
  | cons req reqs ih =>
    have hreq : Agrees (w.apply req armedAt) (events ++ [requested armedAt req]) := by
      cases req with
      | set id deadline => exact h.armed id deadline armedAt
      | cancel id => exact h.left (e := .cancelled id) rfl
    have hrest := ih hreq
    rw [List.append_assoc, List.singleton_append] at hrest
    exact hrest

/-- A node starts with what its wheel holds. -/
theorem agrees_restored (w : TimerWheel) : Agrees w (restored w) := by
  -- restoring the snapshot arms its timers one after the other
  have hset : ∀ (l : List (UInt64 × UInt64 × UInt64)) (w : TimerWheel) (events : List TimerEvent),
      Agrees w events → Agrees (l.foldl (fun w p => w.set p.1 p.2.1 p.2.2) w)
        (events ++ l.map fun p => .armed p.1 p.2.1 p.2.2) := by
    intro l
    induction l with
    | nil =>
      intro w events h
      rw [List.map_nil, List.append_nil]
      exact h
    | cons p l ih =>
      intro w events h
      have hrest := ih _ _ (h.armed p.1 p.2.1 p.2.2)
      rw [List.append_assoc, List.singleton_append] at hrest
      exact hrest
  have hnew : Agrees TimerWheel.new [] := fun id => by simp [TimerWheel.new, pending]
  have hrestore := hset w.snapshot TimerWheel.new [] hnew
  rw [List.nil_append] at hrestore
  have hsame : w.snapshot.foldl (fun w p => w.set p.1 p.2.1 p.2.2) TimerWheel.new = w := w.restore_snapshot
  rw [hsame] at hrestore
  exact hrestore

/-- What is popped is what the next firing takes. -/
theorem Agrees.takes {b : Burst svc} (h : Agrees b.timers events) (hdue : b.Due id) : Takes events id b.time := by
  obtain ⟨deadline, armedAt, hget, hle, hleast⟩ := TimerWheel.popDue_some hdue
  exact ⟨deadline, armedAt, h id ▸ hget, hle, fun id' deadline' armedAt' hpending =>
    hleast deadline' armedAt' id' ((h id').trans hpending)⟩

/-- Nothing that is due stands when nothing is due in the wheel. -/
theorem Agrees.idle {b : Burst svc} {i : ℕ} {deadline armedAt : UInt64} (h : Agrees b.timers events)
    (hidle : b.Idle) (hstands : Stands events i id deadline armedAt) : b.time < deadline :=
  TimerWheel.popDue_none.mp hidle id deadline armedAt ((h id).trans (pending_eq_some.mpr ⟨i, hstands⟩))

end Agree

theorem allTake_requested {events : List TimerEvent} (h : AllTake events) (reqs : List TimerReq) (armedAt : UInt64) :
    AllTake (events ++ reqs.map (requested armedAt)) := by
  induction reqs generalizing events with
  | nil =>
    rw [List.map_nil, List.append_nil]
    exact h
  | cons req reqs ih =>
    have hreq : AllTake (events ++ [requested armedAt req]) := by
      refine h.snoc fun id stamp heq => ?_
      cases req <;> cases heq
    have hrest := ih hreq
    rw [List.append_assoc, List.singleton_append] at hrest
    exact hrest

theorem allTake_restored (w : TimerWheel) : AllTake (restored w) := by
  intro k id stamp hk
  obtain ⟨p, -, heq⟩ := List.mem_map.mp (List.mem_of_getElem? hk)
  cases heq

/-! ## The invariant -/

/-- **The invariant of a run**: the frames published since `n₀` apply `inputs` and tell `events`, the wheel agrees
with them, and every firing has taken what it should. -/
structure Told (n₀ : Node svc) (inputs : List svc.Input) (n : Node svc) (events : List TimerEvent) : Prop where
  frames : ∃ frames, n.ledger.map (·.frame) = n₀.ledger.map (·.frame) ++ frames ∧
    events.filterMap (·.firing) = frames.filterMap firedFrame ∧
    ∀ more, frames.foldl Telling.tell ⟨n₀.service, inputs ++ more, restored n₀.timers⟩ = ⟨n.service, more, events⟩
  agrees : Agrees n.timers events
  allTake : AllTake events

section Told

variable {n₀ n n' : Node svc} {inputs : List svc.Input} {events : List TimerEvent}

theorem told_start (n₀ : Node svc) : Told n₀ [] n₀ (restored n₀.timers) where
  frames := by
    refine ⟨[], (List.append_nil _).symm, ?_, fun _ => rfl⟩
    rw [List.filterMap_nil, List.filterMap_eq_nil_iff]
    intro e he
    obtain ⟨p, -, rfl⟩ := List.mem_map.mp he
    rfl
  agrees := agrees_restored _
  allTake := allTake_restored _

/-- The history is what was told, and its firings are the `TimerFired` frames. -/
theorem Told.history_eq (h : Told n₀ inputs n events) : n₀.history inputs n = events ∧
    events.filterMap (·.firing) = (n₀.since n).filterMap firedFrame := by
  obtain ⟨frames, hledger, hfirings, htold⟩ := h.frames
  have hsince : n₀.since n = frames := by
    rw [Node.since, hledger, ← List.length_map (f := LedgerEntry.frame), List.drop_left]
  have hnil := htold []
  rw [List.append_nil] at hnil
  rw [Node.history, hsince, hnil]
  exact ⟨rfl, hfirings⟩

/-- Telling looks at the published frames, the service and the wheel only. -/
theorem Told.congr (h : Told n₀ inputs n events) (hledger : n'.ledger = n.ledger) (hservice : n'.service = n.service)
    (htimers : n'.timers = n.timers) : Told n₀ inputs n' events where
  frames := by
    rw [hledger, hservice]
    exact h.frames
  agrees := htimers ▸ h.agrees
  allTake := h.allTake

/-- Marks tell nothing. -/
theorem foldl_tell_marks {marks : List (LedgerEntry svc)} (h : ∀ e ∈ marks, e.frame.kind = .snapshotMark)
    (t : Telling svc) : (marks.map (·.frame)).foldl Telling.tell t = t := by
  induction marks with
  | nil => rfl
  | cons e marks ih =>
    have hhead : t.tell e.frame = t := by
      rw [Telling.tell, h e (List.mem_cons_self ..)]
    rw [List.map_cons, List.foldl_cons, hhead]
    exact ih fun e' he' => h e' (List.mem_cons_of_mem _ he')

/-- **One frame more**, and the marks behind it. -/
theorem Told.logged {kind : FrameKind} {payload : Bytes} {seq : ℕ} {stamp : UInt64} {b : Burst svc}
    (consumed : List svc.Input) (events' : List TimerEvent) (h : Told n₀ inputs n events)
    (hlogged : Node.Logged n kind payload seq stamp b n')
    (htell : ∀ frame : Frame, frame.kind = kind → frame.payload = payload → frame.seq = seq →
      frame.timestamp = stamp → ∀ more, Telling.tell ⟨n.service, consumed ++ more, events⟩ frame =
        ⟨b.service, more, events'⟩)
    (hfirings : events'.filterMap (·.firing) = events.filterMap (·.firing) ++
      if kind = .timerFired then [(payload, stamp)] else [])
    (hagrees : Agrees b.timers events') (hall : AllTake events') : Told n₀ (inputs ++ consumed) n' events' := by
  obtain ⟨frames, hbefore, hfired, htold⟩ := h.frames
  obtain ⟨frame, marks, outputs, hkind, hpayload, hseq, hstamp, hledger, hmarks⟩ := hlogged.ledger
  refine ⟨⟨frames ++ frame :: marks.map (·.frame), ?_, ?_, fun more => ?_⟩, hlogged.timers ▸ hagrees, hall⟩
  · rw [hledger, List.map_append, hbefore, List.append_assoc, List.map_cons]
  · have hnone : (marks.map (·.frame)).filterMap firedFrame = [] := by
      rw [List.filterMap_eq_nil_iff]
      intro f hf
      obtain ⟨e, he, rfl⟩ := List.mem_map.mp hf
      rw [firedFrame, if_neg (by rw [(hmarks e he).1]; decide)]
    rw [hfirings, hfired, List.filterMap_append, List.filterMap_cons, hnone, firedFrame, hkind, hpayload, hstamp]
    split <;> rfl
  · rw [List.append_assoc, List.foldl_append, htold, List.foldl_cons, htell frame hkind hpayload hseq hstamp,
      foldl_tell_marks fun e he => (hmarks e he).1, hlogged.service]

/-- An input runs, and its requests are recorded. -/
theorem Told.input {input : svc.Input} {seq : ℕ} {stamp : UInt64} {b : Burst svc} (h : Told n₀ inputs n events)
    (hlogged : Node.Logged n .input (encode input) seq stamp b n')
    (hservice : b.service = (svc.apply n.service seq input ⟨seq, stamp⟩).state)
    (htimers : b.timers = n.timers.applyAll (svc.apply n.service seq input ⟨seq, stamp⟩).timers (UInt64.ofNat seq)) :
    ∃ events', Told n₀ (inputs ++ [input]) n' events' := by
  refine ⟨_, h.logged [input] _ hlogged ?_ ?_ (htimers ▸ h.agrees.applyAll _ _)
    (allTake_requested h.allTake _ _)⟩
  · rintro frame hkind - rfl rfl more
    rw [Telling.tell, hkind, hservice]
    rfl
  · rw [List.filterMap_append, firing_requested]
    rfl

/-- A timer fires. -/
theorem Told.fired {id : UInt64} (h : Told n₀ inputs n events) (hdue : n.burst.Due id)
    (hfired : Node.Fired n id n') : ∃ events', Told n₀ inputs n' events' := by
  have hleft : Agrees (n.timers.cancel id) (events ++ [.fired id n.lastTimestamp]) :=
    h.agrees.left (e := .fired id n.lastTimestamp) rfl
  have htake : AllTake (events ++ [.fired id n.lastTimestamp]) := by
    refine h.allTake.snoc fun id' stamp heq => ?_
    obtain ⟨rfl, rfl⟩ := TimerEvent.fired.inj heq
    have hagrees : Agrees n.burst.timers events := h.agrees
    exact hagrees.takes hdue
  have hservice : (n.burst.fired n.snapshotEvery id).service =
      (svc.onTimer n.service id ⟨n.seq + 1, n.lastTimestamp⟩).state := Node.snapshot_service ..
  have htimers : (n.burst.fired n.snapshotEvery id).timers = (n.timers.cancel id).applyAll
      (svc.onTimer n.service id ⟨n.seq + 1, n.lastTimestamp⟩).timers (UInt64.ofNat (n.seq + 1)) :=
    Node.snapshot_timers ..
  have hnext := h.logged [] (events ++ [.fired id n.lastTimestamp] ++
    (svc.onTimer n.service id ⟨n.seq + 1, n.lastTimestamp⟩).timers.map (requested (UInt64.ofNat (n.seq + 1))))
    hfired.toLogged ?_ ?_ (htimers ▸ hleft.applyAll _ _) (allTake_requested htake _ _)
  · rw [List.append_nil] at hnext
    exact ⟨_, hnext⟩
  · rintro frame hkind hpayload hseq hstamp more
    rw [Telling.tell, hkind, hservice, ← hseq, ← hstamp]
    simp only [hpayload, decodeAll_encode]
    rfl
  · rw [List.filterMap_append, List.filterMap_append, firing_requested, List.append_nil]
    rfl

/-- A control frame tells nothing. -/
theorem Told.control {kind : FrameKind} {payload : Bytes} (h : Told n₀ inputs n events)
    (hkind : kind ≠ .input ∧ kind ≠ .timerFired)
    (hentered : Node.Entered n kind payload (n.seq + 1) n.stamp n.controlBurst n') : Told n₀ inputs n' events := by
  have hservice : n.controlBurst.service = n.service := Node.snapshot_service ..
  have htimers : n.controlBurst.timers = n.timers := Node.snapshot_timers ..
  have hnext := h.logged [] events hentered.toLogged ?_ ?_ (htimers ▸ h.agrees) h.allTake
  · rw [List.append_nil] at hnext
    exact hnext
  · rintro frame hframe - - - more
    subst hframe
    rw [hservice]
    unfold Telling.tell
    split
    · rename_i heq
      exact absurd heq hkind.1
    · rename_i heq
      exact absurd heq hkind.2
    · rfl
  · rw [if_neg hkind.2, List.append_nil]

end Told

/-! ## Runs -/

namespace Call

/-- The inputs a call submits. -/
def inputs : Call svc → List svc.Input
  | .submit _ input => [input]
  | .submitBatch _ inputs => inputs
  | _ => []

/-- Submissions and ticks fire what is due; an empty batch does not. -/
def Triggers : Call svc → Prop
  | .submit .. => True
  | .submitBatch _ inputs => inputs ≠ []
  | .tick _ => True
  | _ => False

end Call

/-- **Step lemma**: every call keeps the invariant, and one that triggers leaves nothing due. -/
theorem mwp_call_told {n₀ n : Node svc} {inputs : List svc.Input} {events : List TimerEvent} (call : Call svc)
    (h : Told n₀ inputs n events) :
    mwp call.run (fun _ n' => (∃ events', Told n₀ (inputs ++ call.inputs) n' events') ∧
      (call.Triggers → n'.burst.Idle)) (fun _ _ => True) n := by
  have hfire : ∀ (inputs : List svc.Input) (n : Node svc) id n', (∃ events, Told n₀ inputs n events) →
      n.burst.Due id → Node.Fired n id n' → ∃ events, Told n₀ inputs n' events := by
    rintro inputs n id n' ⟨events, h⟩ hdue hfired
    exact h.fired hdue hfired
  have hcontrol : ∀ {n' : Node svc} {kind : FrameKind} {payload : Bytes}, kind ≠ .input ∧ kind ≠ .timerFired →
      Node.Entered n kind payload (n.seq + 1) n.stamp n.controlBurst n' → Told n₀ (inputs ++ []) n' events := by
    intro n' kind payload hkind hentered
    rw [List.append_nil]
    exact h.control hkind hentered
  cases call with
  | submit fuel input =>
    refine mwp_seq (Node.mwp_submit_burst (I := fun n' => ∃ events', Told n₀ (inputs ++ [input]) n' events')
      (E := fun _ _ => True) ?_ (fun _ _ _ => trivial) (hfire _) (fun _ _ _ _ _ _ _ => trivial) fuel) ?_
    · intro n' hentered
      exact h.input hentered.toLogged (Node.snapshot_service ..) (Node.snapshot_timers ..)
    · rintro result n' ⟨htold, hidle⟩
      exact mwp_pure ⟨htold, fun _ => hidle⟩
  | submitBatch fuel batch =>
    refine mwp_seq (Node.mwp_submitBatch_burst (I := fun rest n' => ∃ done events', done ++ rest = batch ∧
      Told n₀ (inputs ++ done) n' events') ?_ ?_ ?_ fuel) ?_
    · refine fun journal => ⟨[], events, rfl, ?_⟩
      rw [List.append_nil]
      exact h.congr rfl rfl rfl
    · rintro input rest seq n₁ n' ⟨done, events₁, hdone, h₁⟩ hentered
      obtain ⟨events', h'⟩ := h₁.input hentered.toLogged (Node.snapshot_service ..) (Node.snapshot_timers ..)
      rw [List.append_assoc] at h'
      exact ⟨done ++ [input], events', by rw [List.append_assoc]; exact hdone, h'⟩
    · rintro rest n₁ id n' ⟨done, events₁, hdone, h₁⟩ hdue hfired
      obtain ⟨events', h'⟩ := h₁.fired hdue hfired
      exact ⟨done, events', hdone, h'⟩
    · rintro results n' (⟨rfl, rfl⟩ | ⟨hne, ⟨done, events', hdone, h'⟩, hidle⟩)
      · refine mwp_pure ⟨⟨events, ?_⟩, fun hne => absurd rfl hne⟩
        rw [Call.inputs, List.append_nil]
        exact h
      · rw [List.append_nil] at hdone
        exact mwp_pure ⟨⟨events', hdone ▸ h'⟩, fun _ => hidle⟩
  | tick fuel =>
    refine mwp_seq (Node.mwp_tick_burst (I := fun n' => ∃ events', Told n₀ (inputs ++ []) n' events')
      (E := fun _ _ => True) (fun n' hentered => ⟨events, hcontrol (by decide) hentered⟩) (fun _ _ _ => trivial)
      (hfire _) (fun _ _ _ _ _ _ _ => trivial) fuel) ?_
    rintro seq n' ⟨htold, hidle⟩
    exact mwp_pure ⟨htold, fun _ => hidle⟩
  | fence epoch =>
    refine mwp_seq (Node.mwp_fence_burst (Q := fun _ n' => ∃ events', Told n₀ (inputs ++ []) n' events')
      (E := fun _ _ => True) (fun _ _ n' hentered => ⟨events, hcontrol (by decide) hentered⟩)
      fun _ _ _ _ => trivial) ?_
    rintro seq n' htold
    exact mwp_pure ⟨htold, False.elim⟩
  | recordAck replica seq =>
    refine mwp_seq (Q := fun _ n' => n'.ledger = n.ledger ∧ n'.service = n.service ∧ n'.timers = n.timers) ?_ ?_
    · exact Node.mwp_onCommit (fun _ => ⟨rfl, rfl, rfl⟩) fun _ _ =>
        mwp_mono mwp_trivial (fun _ _ _ => ⟨rfl, rfl, rfl⟩) fun _ _ _ => trivial
    · rintro released n' ⟨hledger, hservice, htimers⟩
      refine mwp_pure ⟨⟨events, ?_⟩, False.elim⟩
      rw [show Call.inputs (.recordAck replica seq : Call svc) = [] from rfl, List.append_nil]
      exact h.congr hledger hservice htimers

/-- The nodes that runs of returning calls lead to from `n₀`, and the inputs they have submitted. -/
inductive Turns (n₀ : Node svc) : List svc.Input → Node svc → Prop where
  | start : Turns n₀ [] n₀
  | call {inputs : List svc.Input} {n n' : Node svc} {w w' : World JStore}
      {result : List svc.Output × List (ℕ × List svc.Output)} (call : Call svc) : Turns n₀ inputs n →
      call.run n w = .ok result n' w' → Turns n₀ (inputs ++ call.inputs) n'

/-- **Run lemma**: the invariant holds along every run. -/
theorem Turns.told {n₀ n : Node svc} {inputs : List svc.Input} (h : Turns n₀ inputs n) :
    ∃ events, Told n₀ inputs n events := by
  induction h with
  | start => exact ⟨_, told_start n₀⟩
  | call call _ hrun ih =>
    obtain ⟨events, htold⟩ := ih
    exact (mwp_ok (mwp_call_told call htold) hrun).1

/-- **Timers fire exactly once, in order, when due**, in every run of calls from any node on: the firings told are
the `TimerFired` frames, each takes one arming and none is taken twice, and when a call that triggers returns no
arming that stands is due. -/
theorem timers_fire_once {n₀ n : Node svc} {inputs : List svc.Input} (h : Turns n₀ inputs n) :
    (n₀.history inputs n).filterMap (·.firing) = (n₀.since n).filterMap firedFrame ∧
    FiresOnce (n₀.history inputs n) ∧
    ∀ (call : Call svc) w w' n' result, call.run n w = .ok result n' w' → call.Triggers →
      ∀ i id deadline armedAt, Stands (n₀.history (inputs ++ call.inputs) n') i id deadline armedAt →
        n'.lastTimestamp < deadline := by
  obtain ⟨events, htold⟩ := h.told
  obtain ⟨hhistory, hfirings⟩ := htold.history_eq
  refine ⟨hhistory ▸ hfirings, hhistory ▸ htold.allTake.firesOnce, ?_⟩
  intro call w w' n' result hrun htriggers i id deadline armedAt hstands
  obtain ⟨⟨events', htold'⟩, hidle⟩ := mwp_ok (mwp_call_told call htold) hrun
  rw [htold'.history_eq.1] at hstands
  have hagrees : Agrees n'.burst.timers events' := htold'.agrees
  exact hagrees.idle (hidle htriggers) hstands

/-- Submit an input to a node that was opened on an empty directory. -/
def submitOne : Option (Node doubler × Node doubler) := do
  let opening : Prog Unit JStore NodeError (Node doubler) :=
    Node.openWith ⟨⟨1024, .never⟩, 1, none, 1, none⟩ () fun _ => 5
  let (n₀, _, w₀) ← (opening () (.healthy ⟨Disk.empty, History.fresh⟩)).returned
  let submit : Call doubler := .submit 4 (3 : UInt64)
  let (_, n, _) ← (submit.run n₀ w₀).returned
  pure (n₀, n)

/-- The input arms a timer that is due at once, and its firing takes that arming. -/
theorem timers_fire_once_of_input : ∃ n₀ n : Node doubler, Turns n₀ [(3 : UInt64)] n ∧
    n₀.history [(3 : UInt64)] n = [.armed 1 5 1, .fired 1 5] ∧ FiresOnce (n₀.history [(3 : UInt64)] n) := by
  have hplay : submitOne.any (fun p => decide (p.1.history [(3 : UInt64)] p.2 = [.armed 1 5 1, .fired 1 5])) =
      true := by decide +kernel
  obtain ⟨⟨n₀, n⟩, hplay, hhistory⟩ := (Option.any_eq_true _ _).mp hplay
  simp only [submitOne, bind, Option.bind_eq_some_iff, pure, Option.some.injEq, Prod.mk.injEq] at hplay
  obtain ⟨⟨_, _, w₀⟩, -, ⟨_, _, _⟩, hsubmit, rfl, rfl⟩ := hplay
  rw [Outcome.returned_eq_some] at hsubmit
  have hturns := Turns.start.call _ hsubmit
  exact ⟨_, _, hturns, of_decide_eq_true hhistory, (timers_fire_once hturns).2.1⟩

/-- An input arms a timer ten ticks ahead. -/
def snooze : Service :=
  { doubler with apply := fun (total : UInt64) _ _ ctx => ⟨total, [], [.set 1 (ctx.now + 10)]⟩ }

def snoozeInput : snooze.Input := (3 : UInt64)

/-- Submit an input at time 5, and sequence a fence at time 100. -/
def fenceLate : Option (Node snooze × Node snooze × World JStore) := do
  let opening : Prog Unit JStore NodeError (Node snooze) :=
    Node.openWith ⟨⟨1024, .never⟩, 1, none, 1, none⟩ () fun i => if i = 0 then 5 else 100
  let (n₀, _, w₀) ← (opening () (.healthy ⟨Disk.empty, History.fresh⟩)).returned
  let submit : Call snooze := .submit 1 snoozeInput
  let fence : Call snooze := .fence 1
  let (_, n₁, w₁) ← (submit.run n₀ w₀).returned
  let (_, n₂, w₂) ← (fence.run n₁ w₁).returned
  pure (n₀, n₂, w₂)

/-- **An empty batch fires nothing**: the fence has moved sequenced time beyond the deadline, and the timer is still
pending when `submitBatch` of no inputs returns. -/
theorem empty_batch_fires_nothing : ∃ (n₀ n : Node snooze) (w : World JStore),
    Turns n₀ [snoozeInput] n ∧ (Call.submitBatch 1 []).run n w = .ok ([], []) n w ∧
    ∃ i id deadline armedAt, Stands (n₀.history [snoozeInput] n) i id deadline armedAt ∧
      deadline ≤ n.lastTimestamp := by
  have hplay : fenceLate.any (fun p => decide (pending (p.1.history [snoozeInput] p.2.1) 1 = some (15, 1)) &&
      decide (p.2.1.lastTimestamp = 100)) = true := by decide +kernel
  obtain ⟨⟨n₀, n, w⟩, hplay, hpending⟩ := (Option.any_eq_true _ _).mp hplay
  rw [Bool.and_eq_true, decide_eq_true_eq, decide_eq_true_eq] at hpending
  obtain ⟨hpending, htime⟩ := hpending
  simp only [fenceLate, bind, Option.bind_eq_some_iff, pure, Option.some.injEq, Prod.mk.injEq] at hplay
  obtain ⟨⟨_, _, w₀⟩, -, ⟨_, _, _⟩, hsubmit, ⟨_, _, w₂⟩, hfence, rfl, rfl, rfl⟩ := hplay
  rw [Outcome.returned_eq_some] at hsubmit hfence
  have hturns := (Turns.start.call _ hsubmit).call _ hfence
  obtain ⟨i, hstands⟩ := pending_eq_some.mp hpending
  refine ⟨_, _, w₂, hturns, rfl, i, 1, 15, 1, hstands, ?_⟩
  have hle : (15 : UInt64) ≤ 100 := by decide
  exact htime ▸ hle

end Ticktape.Runtime
