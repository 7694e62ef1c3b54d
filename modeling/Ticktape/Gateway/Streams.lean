import Ticktape.Lib.Pointwise
import Ticktape.Gateway.Admission

/-!
# Event streams

Every event addressed to a session gets the next number of that session, and is retained for a while. A connection
that registers is first sent what is retained behind the number it names, and then every event as it is routed, in
one loop that nothing interrupts: so what it is sent is one run of numbers, from the first it asked for that is
still there (`streams_replay`).
-/

namespace Ticktape.Gateway

open Std Ticktape.Lib Ticktape.Core Ticktape.Journal Ticktape.Runtime

variable {svc : Service} {C E α : Type}

/-! ## Numbered events -/

/-- The events addressed to a session, oldest first. -/
def addressedTo (session : UInt64) (routed : List (Addressed E)) : List E :=
  (routed.filter fun a => a.session = session).map (·.event)

/-- Events with their numbers, the first of which is `k`. -/
def numberedFrom (k : ℕ) : List E → List (ℕ × E)
  | [] => []
  | e :: rest => (k, e) :: numberedFrom (k + 1) rest

/-- Events with their numbers. -/
def numbered (events : List E) : List (ℕ × E) := numberedFrom 1 events

section Numbered

variable {events : List E}

@[simp] theorem numberedFrom_length (k : ℕ) : (numberedFrom k events).length = events.length := by
  induction events generalizing k with
  | nil => rfl
  | cons e rest ih => simp [numberedFrom, ih]

@[simp] theorem numbered_length : (numbered events).length = events.length := numberedFrom_length 1

theorem numberedFrom_concat (k : ℕ) (e : E) :
    numberedFrom k (events ++ [e]) = numberedFrom k events ++ [(k + events.length, e)] := by
  induction events generalizing k with
  | nil => rfl
  | cons e' rest ih =>
    simp only [List.cons_append, numberedFrom, ih, List.length_cons]
    rw [show k + 1 + rest.length = k + (rest.length + 1) by omega]

theorem numbered_concat (e : E) : numbered (events ++ [e]) = numbered events ++ [(events.length + 1, e)] := by
  rw [numbered, numberedFrom_concat, Nat.add_comm]
  rfl

/-- The numbers above `after` in a tail. -/
theorem filter_numberedFrom (k d after : ℕ) :
    ((numberedFrom k events).drop d).filter (fun p => after < p.1) =
      (numberedFrom k events).drop (max d (after + 1 - k)) := by
  induction events generalizing k d with
  | nil => simp [numberedFrom]
  | cons e rest ih =>
    simp only [numberedFrom]
    cases d with
    | zero =>
      have hrest := ih (k + 1) 0
      rw [List.drop_zero] at hrest
      rw [List.drop_zero, List.filter_cons, hrest]
      by_cases hlt : after < k
      · rw [if_pos (by simpa using hlt), show max 0 (after + 1 - (k + 1)) = 0 by omega,
          show max 0 (after + 1 - k) = 0 by omega]
        rfl
      · rw [if_neg (by simpa using hlt),
          show max 0 (after + 1 - k) = max 0 (after + 1 - (k + 1)) + 1 by omega, List.drop_succ_cons]
    | succ d =>
      rw [List.drop_succ_cons, ih, show max (d + 1) (after + 1 - k) = max d (after + 1 - (k + 1)) + 1 by omega,
        List.drop_succ_cons]

theorem head?_drop_numberedFrom (k d : ℕ) (hd : d ≤ events.length) :
    ((((numberedFrom k events).drop d).head?).map Prod.fst).getD (k + events.length) = k + d := by
  induction events generalizing k d with
  | nil =>
    obtain rfl : d = 0 := by simpa using hd
    rfl
  | cons e rest ih =>
    cases d with
    | zero => rfl
    | succ d =>
      rw [List.length_cons] at hd
      have hrest := ih (k + 1) d (by omega)
      simp only [numberedFrom, List.drop_succ_cons, List.length_cons]
      rw [show k + (rest.length + 1) = k + 1 + rest.length by omega, hrest]
      omega

end Numbered

/-! ## Registrations -/

/-- A connection that was attached to a session, or watches it. -/
structure Registration where
  sink : Sink
  session : UInt64
  watcher : Bool
  /-- The number of the first event it is to be sent. -/
  start : ℕ
  /-- Its session was attached again or closed since; that does not concern a watcher. -/
  closed : Bool
  deriving DecidableEq

/-- The first number above `after` that is still held, if `after` was assigned; the next one, if not. -/
def SessionSinks.firstAfter (entry : SessionSinks E) (after : ℕ) : ℕ :=
  if after < entry.nextEventSeq then
    max (after + 1) ((entry.outbox.head?.map Prod.fst).getD entry.nextEventSeq)
  else entry.nextEventSeq

/-- Where the events of a session go. -/
def SessionSinks.targets (entry : SessionSinks E) : List Sink := entry.cmd.toList ++ entry.watchers

/-- The session's command connection is replaced or gone. -/
def Registration.endCmd (session : UInt64) (r : Registration) : Registration :=
  if r.session = session ∧ r.watcher = false then { r with closed := true } else r

/-- The registrations behind a request. -/
def register (g : Sequencer svc E) (regs : List Registration) : Req C → List Registration
  | .attach session after sink =>
    regs.map (Registration.endCmd session) ++ [⟨sink, session, false, (g.sinksOf session).firstAfter after, false⟩]
  | .watch session after sink => regs ++ [⟨sink, session, true, (g.sinksOf session).firstAfter after, false⟩]
  | .cmd _ _ _ => regs
  | .close session => regs.map (Registration.endCmd session)

/-- The connection that a request registers. -/
def Req.sink : Req C → Option Sink
  | attach _ _ sink => some sink
  | watch _ _ sink => some sink
  | _ => none

/-- The events sent to a connection, with their numbers. -/
def eventsTo (sink : Sink) (sent : List (Sink × ServerMsg E)) : List (ℕ × E) :=
  sent.filterMap fun p =>
    if p.1 = sink then
      match p.2 with
      | .event eventSeq event => some (eventSeq, event)
      | _ => none
    else none

/-- One of the sends to the connection found no receiver. -/
def Failed (up : ℕ → Bool) (sent : List (Sink × ServerMsg E)) (sink : Sink) : Prop :=
  ∃ i msg, sent[i]? = some (sink, msg) ∧ up i = false

/-! ## What a request routes -/

/-- The input that a request submits to the node, if it does. -/
def submits (aware : SessionAware svc C E) (g : Sequencer svc E) : Req C → Option svc.Input
  | .cmd session clientSeq cmd =>
    match (g.flowOf session).admitSeq clientSeq.toNat with
    | some (.accept, _) => some (aware.input.symm (.client session clientSeq cmd))
    | _ => none
  | .close session => some (aware.input.symm (.sessionClosed session))
  | _ => none

/-- The addressed outputs of a request. -/
def routes (aware : SessionAware svc C E) (fuel : ℕ) (g : Sequencer svc E) (w : World JStore) (req : Req C) :
    List (Addressed E) :=
  match submits aware g req with
  | none => []
  | some input =>
    match Node.submit fuel input g.node w with
    | .ok (_, outputs) _ _ => outputs.map aware.output
    | _ => []

/-- The runs of the sequencer thread in which no submission fails: its state, the events it routed, and the
registrations. Every connection has a channel of its own. -/
inductive Streaming (aware : SessionAware svc C E) (config : ServeConfig) (up : ℕ → Bool) :
    Sequencer svc E → List (Addressed E) → List Registration → Prop where
  | start {node : Node svc} {g : Sequencer svc E} :
      Sequencer.start node config up = some g → Streaming aware config up g [] []
  | served {w w' : World JStore} {g g' : Sequencer svc E} {routed : List (Addressed E)}
      {regs : List Registration} (fuel : ℕ) (req : Req C) : Streaming aware config up g routed regs →
      (∀ sink, req.sink = some sink → sink ∉ regs.map (·.sink)) →
      Sequencer.serve aware fuel req g w = .ok none g' w' →
      Streaming aware config up g' (routed ++ routes aware fuel g w req) (register g regs req)

/-! ## Sending -/

namespace Sequencer

/-- The state behind some sends. -/
def sending (g : Sequencer svc E) (l : List (Sink × ServerMsg E)) : Sequencer svc E :=
  { g with up := fun i => g.up (i + l.length), sent := g.sent ++ l }

/-- One of these sends finds no receiver. -/
def Lost (g : Sequencer svc E) (l : List (Sink × ServerMsg E)) (sink : Sink) : Prop :=
  ∃ i msg, l[i]? = some (sink, msg) ∧ g.up i = false

section Sends

variable {Err : Empty → Sequencer svc E → World JStore → Prop} {g : Sequencer svc E} {w : World JStore}

@[simp] theorem sending_nil (g : Sequencer svc E) : g.sending [] = g := by simp [sending]

@[simp] theorem sending_sending (g : Sequencer svc E) (l l' : List (Sink × ServerMsg E)) :
    (g.sending l).sending l' = g.sending (l ++ l') := by
  simp [sending, Nat.add_assoc, Nat.add_comm l'.length]

theorem Lost.append_left {l : List (Sink × ServerMsg E)} {sink : Sink} (h : g.Lost l sink)
    (l' : List (Sink × ServerMsg E)) : g.Lost (l ++ l') sink := by
  obtain ⟨i, msg, hget, hdown⟩ := h
  obtain ⟨hlt, -⟩ := List.getElem?_eq_some_iff.mp hget
  exact ⟨i, msg, by rw [List.getElem?_append_left hlt, hget], hdown⟩

theorem Lost.append_right {l l' : List (Sink × ServerMsg E)} {sink : Sink} (h : (g.sending l).Lost l' sink) :
    g.Lost (l ++ l') sink := by
  obtain ⟨i, msg, hget, hdown⟩ := h
  refine ⟨i + l.length, msg, ?_, hdown⟩
  rw [List.getElem?_append_right (by omega), Nat.add_sub_cancel, hget]

theorem wpAt_send {sink : Sink} {msg : ServerMsg E} {Q : Bool → Sequencer svc E → World JStore → Prop}
    (h : Q (g.up 0) (g.sending [(sink, msg)]) w) : wpAt (send sink msg) Q Err g w := by
  apply wpAt_bind
  apply wpAt_mem
  apply wpAt_bind
  apply wpAt_update
  exact wpAt_pure h

theorem wpAt_sendCmd {cmd : Option Sink} {msg : ServerMsg E}
    {Q : Option Sink → Sequencer svc E → World JStore → Prop}
    (h : ∀ cmd', cmd' = cmd ∨ cmd' = none ∧ (∀ sink, cmd = some sink → g.Lost [(sink, msg)] sink) →
      Q cmd' (g.sending (cmd.toList.map (·, msg))) w) : wpAt (sendCmd cmd msg) Q Err g w := by
  cases cmd with
  | none =>
    have hnone := h none (Or.inl rfl)
    rw [Option.toList_none, List.map_nil, sending_nil] at hnone
    exact wpAt_pure hnone
  | some sink =>
    apply wpAt_bind
    apply wpAt_send
    cases hup : g.up 0 with
    | true => exact wpAt_pure (h _ (Or.inl rfl))
    | false =>
      refine wpAt_pure (h _ (Or.inr ⟨rfl, ?_⟩))
      rintro _ ⟨⟩
      exact ⟨0, msg, rfl, hup⟩

theorem wpAt_sendWatchers {sinks : List Sink} {msg : ServerMsg E}
    {Q : List Sink → Sequencer svc E → World JStore → Prop}
    (h : ∀ kept, kept.Sublist sinks → (∀ sink ∈ sinks, sink ∈ kept ∨ g.Lost (sinks.map (·, msg)) sink) →
      Q kept (g.sending (sinks.map (·, msg))) w) : wpAt (sendWatchers msg sinks) Q Err g w := by
  induction sinks generalizing g Q with
  | nil =>
    have hnil := h [] (List.Sublist.refl _) (by simp)
    rw [List.map_nil, sending_nil] at hnil
    exact wpAt_pure hnil
  | cons sink rest ih =>
    apply wpAt_bind
    apply wpAt_send
    apply wpAt_bind
    apply ih
    intro kept hsub hrest
    apply wpAt_pure
    rw [sending_sending]
    have hlater : ∀ sink' ∈ rest, sink' ∈ kept ∨ g.Lost ((sink :: rest).map (·, msg)) sink' := by
      intro sink' hmem
      exact (hrest sink' hmem).imp_right fun hlost => Lost.append_right (l := [(sink, msg)]) hlost
    cases hup : g.up 0 with
    | true =>
      apply h
      · exact hsub.cons_cons sink
      · intro sink' hmem
        rcases List.mem_cons.mp hmem with rfl | hmem
        · exact Or.inl (List.mem_cons_self ..)
        · exact (hlater sink' hmem).imp_left (List.mem_cons_of_mem _)
    | false =>
      apply h
      · exact hsub.cons sink
      · intro sink' hmem
        rcases List.mem_cons.mp hmem with rfl | hmem
        · exact Or.inr ⟨0, msg, rfl, hup⟩
        · exact hlater sink' hmem

theorem wpAt_sendAll {sink : Sink} {msgs : List (ServerMsg E)}
    {Q : Bool → Sequencer svc E → World JStore → Prop}
    (h : ∀ alive l, l <+: msgs → (alive = true → l = msgs) → (alive = false → g.Lost (l.map (sink, ·)) sink) →
      Q alive (g.sending (l.map (sink, ·))) w) : wpAt (sendAll sink msgs) Q Err g w := by
  induction msgs generalizing g Q with
  | nil =>
    have hnil := h true [] List.prefix_rfl (fun _ => rfl) (by simp)
    rw [List.map_nil, sending_nil] at hnil
    exact wpAt_pure hnil
  | cons msg rest ih =>
    apply wpAt_bind
    apply wpAt_send
    cases hup : g.up 0 with
    | true =>
      apply ih
      intro alive l hprefix hall hlost
      rw [sending_sending]
      apply h alive (msg :: l)
      · exact (List.prefix_cons_inj msg).mpr hprefix
      · exact fun halive => by rw [hall halive]
      · exact fun hdead => Lost.append_right (l := [(sink, msg)]) (hlost hdead)
    | false =>
      refine wpAt_pure (h false [msg] ?_ (by simp) fun _ => ⟨0, msg, rfl, hup⟩)
      exact (List.prefix_cons_inj msg).mpr (List.nil_prefix)

end Sends

end Sequencer

/-! ## The invariant -/

/-- **The stream of one registration**: a run of the numbered events from its start on, and as long as its connection
is a target, up to the last one. -/
structure Stream (up : ℕ → Bool) (events : List E) (sent : List (Sink × ServerMsg E)) (entry : SessionSinks E)
    (r : Registration) : Prop where
  start : 1 ≤ r.start ∧ r.start ≤ events.length + 1
  run : eventsTo r.sink sent <+: (numbered events).drop (r.start - 1)
  whole : r.sink ∈ entry.targets → eventsTo r.sink sent = (numbered events).drop (r.start - 1)
  stays : r.closed = false → r.sink ∈ entry.targets ∨ Failed up sent r.sink

/-- **The invariant of one session.** -/
structure SessionInv (up : ℕ → Bool) (capacity : ℕ) (events : List E) (regs : List Registration)
    (sent : List (Sink × ServerMsg E)) (session : UInt64) (entry : SessionSinks E) : Prop where
  next : entry.nextEventSeq = events.length + 1
  outbox : entry.outbox = (numbered events).drop (events.length - capacity)
  cmd : ∀ sink, entry.cmd = some sink → ∃ r ∈ regs, r.sink = sink ∧ r.session = session ∧ r.watcher = false
  watchers : ∀ sink ∈ entry.watchers, ∃ r ∈ regs, r.sink = sink ∧ r.session = session ∧ r.watcher = true
  nodup : entry.watchers.Nodup
  streams : ∀ r ∈ regs, r.session = session → Stream up events sent entry r

/-- **The invariant of the thread.** -/
structure StreamInv (up : ℕ → Bool) (capacity : ℕ) (routed : List (Addressed E)) (regs : List Registration)
    (g : Sequencer svc E) : Prop where
  ticks : g.up = fun i => up (i + g.sent.length)
  bound : g.outboxCapacity = capacity
  distinct : (regs.map (·.sink)).Nodup
  known : ∀ p ∈ g.sent, p.1 ∈ regs.map (·.sink)
  sessions : ∀ session, SessionInv up capacity (addressedTo session routed) regs g.sent session (g.sinksOf session)

section Inv

variable {up : ℕ → Bool} {capacity : ℕ} {events : List E} {routed : List (Addressed E)} {regs : List Registration}
  {sent l : List (Sink × ServerMsg E)} {session : UInt64} {entry : SessionSinks E} {g : Sequencer svc E}

@[simp] theorem eventsTo_append (sink : Sink) (l' : List (Sink × ServerMsg E)) :
    eventsTo sink (l ++ l') = eventsTo sink l ++ eventsTo sink l' := List.filterMap_append ..

theorem eventsTo_eq_nil {sink : Sink} (h : ∀ p ∈ l, p.1 ≠ sink) : eventsTo sink l = [] := by
  apply List.filterMap_eq_nil_iff.mpr
  intro p hp
  exact if_neg (h p hp)

/-- An event goes to every target once. -/
theorem eventsTo_broadcast {targets : List Sink} (hnodup : targets.Nodup) (n : ℕ) (e : E) (sink : Sink) :
    eventsTo sink (targets.map (·, ServerMsg.event n e)) = if sink ∈ targets then [(n, e)] else [] := by
  induction targets with
  | nil => rfl
  | cons t rest ih =>
    obtain ⟨hnot, hrest⟩ := List.nodup_cons.mp hnodup
    rw [List.map_cons, ← List.singleton_append, eventsTo_append, ih hrest]
    by_cases heq : t = sink
    · subst heq
      simp [eventsTo, hnot]
    · simp [eventsTo, heq, Ne.symm heq]

theorem Failed.append {sink : Sink} (h : Failed up sent sink) (l : List (Sink × ServerMsg E)) :
    Failed up (sent ++ l) sink := by
  obtain ⟨i, msg, hget, hdown⟩ := h
  obtain ⟨hlt, -⟩ := List.getElem?_eq_some_iff.mp hget
  exact ⟨i, msg, by rw [List.getElem?_append_left hlt, hget], hdown⟩

theorem Failed.of_lost {sink : Sink} (hticks : g.up = fun i => up (i + g.sent.length)) (h : g.Lost l sink) :
    Failed up (g.sent ++ l) sink := by
  obtain ⟨i, msg, hget, hdown⟩ := h
  refine ⟨i + g.sent.length, msg, ?_, ?_⟩
  · rw [List.getElem?_append_right (by omega), Nat.add_sub_cancel, hget]
  · rw [hticks] at hdown
    exact hdown

/-- Registrations are told apart by their sinks. -/
theorem reg_eq {r r' : Registration} (hdistinct : (regs.map (·.sink)).Nodup) (hr : r ∈ regs) (hr' : r' ∈ regs)
    (heq : r.sink = r'.sink) : r = r' := List.inj_on_of_nodup_map hdistinct hr hr' heq

/-- The targets of a session are registered for it. -/
theorem SessionInv.target (h : SessionInv up capacity events regs sent session entry) {sink : Sink}
    (hmem : sink ∈ entry.targets) : ∃ r ∈ regs, r.sink = sink ∧ r.session = session := by
  rcases List.mem_append.mp hmem with hmem | hmem
  · obtain ⟨r, hr, hsink, hsession, -⟩ := h.cmd sink (by simpa using hmem)
    exact ⟨r, hr, hsink, hsession⟩
  · obtain ⟨r, hr, hsink, hsession, -⟩ := h.watchers sink hmem
    exact ⟨r, hr, hsink, hsession⟩

theorem SessionInv.targets_nodup (h : SessionInv up capacity events regs sent session entry)
    (hdistinct : (regs.map (·.sink)).Nodup) : entry.targets.Nodup := by
  unfold SessionSinks.targets
  cases hcmd : entry.cmd with
  | none => simpa using h.nodup
  | some sink =>
    rw [Option.toList_some, List.singleton_append]
    refine List.nodup_cons.mpr ⟨fun hmem => ?_, h.nodup⟩
    obtain ⟨r, hr, hsink, -, hcommand⟩ := h.cmd sink hcmd
    obtain ⟨r', hr', hsink', -, hwatcher⟩ := h.watchers sink hmem
    rw [reg_eq hdistinct hr hr' (hsink.trans hsink'.symm), hwatcher] at hcommand
    cases hcommand

/-- Nothing more is sent to the connection. -/
theorem Stream.frame {entry' : SessionSinks E} {r : Registration} (h : Stream up events sent entry r)
    (hl : eventsTo r.sink l = []) (htargets : r.sink ∈ entry'.targets → r.sink ∈ entry.targets)
    (hkept : r.closed = false → r.sink ∈ entry.targets → r.sink ∈ entry'.targets ∨ Failed up (sent ++ l) r.sink) :
    Stream up events (sent ++ l) entry' r := by
  have hsame : eventsTo r.sink (sent ++ l) = eventsTo r.sink sent := by
    rw [eventsTo_append, hl, List.append_nil]
  refine ⟨h.start, ?_, ?_, ?_⟩
  · rw [hsame]
    exact h.run
  · rw [hsame]
    exact fun hmem => h.whole (htargets hmem)
  · intro hopen
    rcases h.stays hopen with hmem | hfailed
    · exact hkept hopen hmem
    · exact Or.inr (hfailed.append l)

/-- **Frame lemma**: a session that is not concerned. -/
theorem SessionInv.frame {regs' : List Registration}
    (h : SessionInv up capacity events regs sent session entry)
    (hregs : ∀ r, r.session = session → (r ∈ regs' ↔ r ∈ regs))
    (hl : ∀ r ∈ regs, r.session = session → eventsTo r.sink l = []) :
    SessionInv up capacity events regs' (sent ++ l) session entry := by
  refine ⟨h.next, h.outbox, ?_, ?_, h.nodup, ?_⟩
  · intro sink hcmd
    obtain ⟨r, hr, hsink, hsession, hkind⟩ := h.cmd sink hcmd
    exact ⟨r, (hregs r hsession).mpr hr, hsink, hsession, hkind⟩
  · intro sink hmem
    obtain ⟨r, hr, hsink, hsession, hkind⟩ := h.watchers sink hmem
    exact ⟨r, (hregs r hsession).mpr hr, hsink, hsession, hkind⟩
  · intro r hr hsession
    have hmem := (hregs r hsession).mp hr
    exact (h.streams r hmem hsession).frame (hl r hmem hsession) id fun _ => Or.inl

@[simp] theorem sinksOf_setSinks (g : Sequencer svc E) (session session' : UInt64) (entry : SessionSinks E) :
    (g.setSinks session entry).sinksOf session' = if session = session' then entry else g.sinksOf session' := by
  simp only [Sequencer.sinksOf, Sequencer.setSinks, ExtTreeMap.getD_insert, LawfulEqCmp.compare_eq_iff_eq]

@[simp] theorem sinksOf_setFlow (g : Sequencer svc E) (session session' : UInt64) (flow : SessionFlow) :
    (g.setFlow session flow).sinksOf session' = g.sinksOf session' := rfl

@[simp] theorem sinksOf_sending (g : Sequencer svc E) (l : List (Sink × ServerMsg E)) (session : UInt64) :
    (g.sending l).sinksOf session = g.sinksOf session := rfl

theorem sinksOf_eq (hget : g.sinks[session]? = some entry) : g.sinksOf session = entry := by
  rw [Sequencer.sinksOf, ExtTreeMap.getD_eq_getD_getElem?, hget, Option.getD_some]

theorem sinksOf_dropCmd (g : Sequencer svc E) (session session' : UInt64) :
    (g.dropCmd session).sinksOf session' =
      (g.setSinks session { g.sinksOf session with cmd := none }).sinksOf session' := by
  unfold Sequencer.dropCmd
  split
  · rename_i hget
    have hnew : g.sinksOf session = SessionSinks.new := by
      rw [Sequencer.sinksOf, ExtTreeMap.getD_eq_getD_getElem?, hget, Option.getD_none]
    rw [sinksOf_setSinks]
    split
    · next heq =>
      rw [← heq, hnew]
      rfl
    · rfl
  · rename_i entry hget
    rw [sinksOf_eq hget]

/-- Forgetting a command connection changes the sinks only. -/
theorem dropCmd_eq (g : Sequencer svc E) (session : UInt64) :
    ∃ sinks, g.dropCmd session = { g with sinks := sinks } := by
  unfold Sequencer.dropCmd
  split
  · exact ⟨_, rfl⟩
  · exact ⟨_, rfl⟩

/-- A sink of another session is no target. -/
theorem StreamInv.not_target (h : StreamInv up capacity routed regs g) {r : Registration} (hr : r ∈ regs)
    (hne : r.session ≠ session) : r.sink ∉ (g.sinksOf session).targets := by
  intro hmem
  obtain ⟨r', hr', hsink, hsession⟩ := (h.sessions session).target hmem
  rw [reg_eq h.distinct hr' hr hsink] at hsession
  exact hne hsession

/-- Numbering and retaining an event. -/
theorem retain_outbox {e : E} (hnext : entry.nextEventSeq = events.length + 1)
    (houtbox : entry.outbox = (numbered events).drop (events.length - capacity)) :
    (entry.retain e capacity).outbox =
      (numbered (events ++ [e])).drop ((events ++ [e]).length - capacity) := by
  have hheld : events.length - capacity ≤ (numbered events).length := by
    rw [numbered_length]
    omega
  have hwhole : entry.outbox ++ [(entry.nextEventSeq, e)] =
      (numbered (events ++ [e])).drop (events.length - capacity) := by
    rw [numbered_concat, houtbox, hnext, List.drop_append_of_le_length hheld]
  simp only [SessionSinks.retain, hwhole, List.drop_drop, List.length_drop, numbered_length, List.length_append,
    List.length_singleton]
  congr 1
  omega

/-- What becomes of the targets: a target is kept, or a send to it finds no receiver. -/
structure Sieved (g : Sequencer svc E) (l : List (Sink × ServerMsg E)) (entry entry' : SessionSinks E) : Prop where
  cmd : ∀ sink, entry'.cmd = some sink → entry.cmd = some sink
  watchers : entry'.watchers.Sublist entry.watchers
  lost : ∀ sink ∈ entry.targets, sink ∈ entry'.targets ∨ g.Lost l sink

theorem Sieved.targets {entry' : SessionSinks E} (h : Sieved g l entry entry') :
    ∀ sink ∈ entry'.targets, sink ∈ entry.targets := by
  intro sink hmem
  rcases List.mem_append.mp hmem with hmem | hmem
  · exact List.mem_append_left _ (by simpa using h.cmd sink (by simpa using hmem))
  · exact List.mem_append_right _ (h.watchers.subset hmem)

/-- The sends behind some sends. -/
theorem StreamInv.ticks_sending (h : StreamInv up capacity routed regs g) (l : List (Sink × ServerMsg E)) :
    (g.sending l).up = fun i => up (i + (g.sending l).sent.length) := by
  show (fun i => g.up (i + l.length)) = _
  rw [h.ticks]
  funext i
  show up (i + l.length + g.sent.length) = up (i + (g.sent ++ l).length)
  rw [List.length_append, Nat.add_assoc, Nat.add_comm l.length]

/-- **Routing an event.** -/
theorem StreamInv.route (h : StreamInv up capacity routed regs g) (a : Addressed E) {entry' : SessionSinks E}
    (hl : l = (g.sinksOf a.session).targets.map (·, ServerMsg.event (g.sinksOf a.session).nextEventSeq a.event))
    (hsieved : Sieved g l (g.sinksOf a.session) entry')
    (hnext : entry'.nextEventSeq = (g.sinksOf a.session).nextEventSeq + 1)
    (houtbox : entry'.outbox = ((g.sinksOf a.session).retain a.event capacity).outbox) :
    StreamInv up capacity (routed ++ [a]) regs ((g.sending l).setSinks a.session entry') := by
  have hself := h.sessions a.session
  have htargets := hself.targets_nodup h.distinct
  have hevents : ∀ session, addressedTo session (routed ++ [a]) =
      if a.session = session then addressedTo session routed ++ [a.event] else addressedTo session routed := by
    intro session
    by_cases heq : a.session = session <;> simp [addressedTo, heq]
  refine ⟨h.ticks_sending l, h.bound, h.distinct, ?_, ?_⟩
  · intro p hp
    rcases List.mem_append.mp hp with hp | hp
    · exact h.known p hp
    · rw [hl] at hp
      obtain ⟨sink, hsink, rfl⟩ := List.mem_map.mp hp
      obtain ⟨r, hr, rfl, -⟩ := hself.target hsink
      exact List.mem_map_of_mem hr
  · intro session
    rw [sinksOf_setSinks, hevents]
    by_cases heq : a.session = session
    · subst heq
      rw [if_pos rfl, if_pos rfl]
      refine ⟨?_, ?_, ?_, ?_, ?_, ?_⟩
      · rw [hnext, hself.next, List.length_append, List.length_singleton]
      · rw [houtbox]
        exact retain_outbox hself.next hself.outbox
      · exact fun sink hcmd => hself.cmd sink (hsieved.cmd sink hcmd)
      · exact fun sink hmem => hself.watchers sink (hsieved.watchers.subset hmem)
      · exact hsieved.watchers.nodup hself.nodup
      · intro r hr hsession
        have hstream := hself.streams r hr hsession
        have hstart := hstream.start
        have hgrown : (numbered (addressedTo a.session routed ++ [a.event])).drop (r.start - 1) =
            (numbered (addressedTo a.session routed)).drop (r.start - 1) ++
              [((g.sinksOf a.session).nextEventSeq, a.event)] := by
          rw [numbered_concat, hself.next, List.drop_append_of_le_length (by rw [numbered_length]; omega)]
        have hsent : eventsTo r.sink (g.sent ++ l) = eventsTo r.sink g.sent ++
            if r.sink ∈ (g.sinksOf a.session).targets then [((g.sinksOf a.session).nextEventSeq, a.event)]
            else [] := by
          rw [eventsTo_append, hl, eventsTo_broadcast htargets]
        refine ⟨⟨hstart.1, by rw [List.length_append]; omega⟩, ?_, ?_, ?_⟩
        · show eventsTo r.sink (g.sent ++ l) <+: _
          rw [hsent, hgrown]
          by_cases hmem : r.sink ∈ (g.sinksOf a.session).targets
          · rw [if_pos hmem, hstream.whole hmem]
          · rw [if_neg hmem, List.append_nil]
            exact hstream.run.trans (List.prefix_append _ _)
        · intro hmem
          have hmem := hsieved.targets _ hmem
          show eventsTo r.sink (g.sent ++ l) = _
          rw [hsent, hgrown, if_pos hmem, hstream.whole hmem]
        · intro hopen
          rcases hstream.stays hopen with hmem | hfailed
          · exact (hsieved.lost _ hmem).imp_right fun hlost => .of_lost h.ticks hlost
          · exact Or.inr (hfailed.append l)
    · rw [if_neg heq, if_neg heq]
      apply (h.sessions session).frame
      · exact fun _ _ => Iff.rfl
      · intro r hr hsession
        have hnot := h.not_target hr (show r.session ≠ a.session by rw [hsession]; exact Ne.symm heq)
        rw [hl, eventsTo_broadcast htargets, if_neg hnot]

/-- Sending what is no event. -/
theorem StreamInv.note (h : StreamInv up capacity routed regs g) {entry' : SessionSinks E}
    (hl : ∀ sink, eventsTo sink l = []) (hknown : ∀ p ∈ l, p.1 ∈ regs.map (·.sink))
    (hsieved : Sieved g l (g.sinksOf session) entry')
    (hnext : entry'.nextEventSeq = (g.sinksOf session).nextEventSeq)
    (houtbox : entry'.outbox = (g.sinksOf session).outbox) :
    StreamInv up capacity routed regs ((g.sending l).setSinks session entry') := by
  refine ⟨h.ticks_sending l, h.bound, h.distinct, ?_, ?_⟩
  · intro p hp
    exact (List.mem_append.mp hp).elim (h.known p) (hknown p)
  · intro session'
    rw [sinksOf_setSinks]
    by_cases heq : session = session'
    · subst heq
      have hinv := h.sessions session
      rw [if_pos rfl]
      refine ⟨hnext.trans hinv.next, houtbox.trans hinv.outbox, ?_, ?_, ?_, ?_⟩
      · exact fun sink hcmd => hinv.cmd sink (hsieved.cmd sink hcmd)
      · exact fun sink hmem => hinv.watchers sink (hsieved.watchers.subset hmem)
      · exact hsieved.watchers.nodup hinv.nodup
      · intro r hr hsession
        apply (hinv.streams r hr hsession).frame (hl r.sink) (hsieved.targets _)
        intro _ hmem
        exact (hsieved.lost _ hmem).imp_right fun hlost => .of_lost h.ticks hlost
    · rw [if_neg heq]
      exact (h.sessions session').frame (fun _ _ => Iff.rfl) fun r _ _ => hl r.sink

/-- Only the sinks and what was sent matter. -/
theorem StreamInv.congr {g' : Sequencer svc E} (h : StreamInv up capacity routed regs g)
    (hsinks : ∀ session, g'.sinksOf session = g.sinksOf session)
    (hsent : g'.sent = g.sent) (hup : g'.up = g.up) (hbound : g'.outboxCapacity = g.outboxCapacity) :
    StreamInv up capacity routed regs g' := by
  refine ⟨by rw [hup, hsent]; exact h.ticks, by rw [hbound]; exact h.bound, h.distinct, ?_, ?_⟩
  · rw [hsent]
    exact h.known
  · intro session
    rw [hsinks, hsent]
    exact h.sessions session

section Programs

variable {Err : Empty → Sequencer svc E → World JStore → Prop} {w : World JStore}

/-- A reply is no event. -/
theorem wpAt_sendToCmd (h : StreamInv up capacity routed regs g) (session : UInt64) {msg : ServerMsg E}
    (hmsg : ∀ n e, msg ≠ .event n e) :
    wpAt (Sequencer.sendToCmd session msg)
      (fun _ g' w' => StreamInv up capacity routed regs g' ∧ g'.node = g.node ∧ w' = w) Err g w := by
  have hquiet : ∀ sink sink' : Sink, eventsTo sink [(sink', msg)] = [] := by
    intro sink sink'
    cases msg with
    | event n e => exact absurd rfl (hmsg n e)
    | ack n m => simp [eventsTo]
    | rejected n reason => simp [eventsTo]
  apply wpAt_bind
  apply wpAt_mem
  split
  · exact wpAt_pure ⟨h, rfl, rfl⟩
  · rename_i entry hget
    have hentry := sinksOf_eq hget
    apply wpAt_bind
    apply Sequencer.wpAt_sendCmd
    intro cmd' hcmd'
    apply wpAt_update
    refine ⟨?_, rfl, rfl⟩
    have hinv := h.sessions session
    rw [hentry] at hinv
    apply h.note
    · intro sink
      cases entry.cmd with
      | none => rfl
      | some sink' => exact hquiet sink sink'
    · intro p hp
      obtain ⟨sink, hsink, rfl⟩ := List.mem_map.mp hp
      obtain ⟨r, hr, rfl, -⟩ := hinv.cmd sink (by simpa using hsink)
      exact List.mem_map_of_mem hr
    · rw [hentry]
      refine ⟨?_, List.Sublist.refl _, ?_⟩
      · intro sink hsink
        rcases hcmd' with rfl | ⟨rfl, -⟩
        · exact hsink
        · cases hsink
      · intro sink hmem
        rcases List.mem_append.mp hmem with hmem | hmem
        · have hcmd : entry.cmd = some sink := by simpa using hmem
          rcases hcmd' with rfl | ⟨rfl, hlost⟩
          · exact Or.inl (List.mem_append_left _ hmem)
          · refine Or.inr ?_
            rw [hcmd]
            exact hlost sink hcmd
        · exact Or.inl (List.mem_append_right _ hmem)
    · rw [hentry]
    · rw [hentry]

theorem wpAt_routeEvent (h : StreamInv up capacity routed regs g) (a : Addressed E) :
    wpAt (Sequencer.routeEvent a)
      (fun _ g' w' => StreamInv up capacity (routed ++ [a]) regs g' ∧ g'.node = g.node ∧ w' = w) Err g w := by
  apply wpAt_bind
  apply wpAt_mem
  apply wpAt_bind
  apply Sequencer.wpAt_sendCmd
  intro cmd' hcmd'
  apply wpAt_bind
  apply Sequencer.wpAt_sendWatchers
  intro kept hsub hkept
  apply wpAt_update
  refine ⟨?_, rfl, rfl⟩
  rw [Sequencer.sending_sending]
  apply h.route
  · rw [SessionSinks.targets, List.map_append]
  · refine ⟨?_, hsub, ?_⟩
    · intro sink hsink
      rcases hcmd' with rfl | ⟨rfl, -⟩
      · exact hsink
      · cases hsink
    · intro sink hmem
      rcases List.mem_append.mp hmem with hmem | hmem
      · have hcmd : (g.sinksOf a.session).cmd = some sink := by simpa using hmem
        rcases hcmd' with rfl | ⟨rfl, hlost⟩
        · exact Or.inl (List.mem_append_left _ hmem)
        · refine Or.inr (Sequencer.Lost.append_left ?_ _)
          rw [hcmd]
          exact hlost sink hcmd
      · rcases hkept sink hmem with hin | hlost
        · exact Or.inl (List.mem_append_right _ hin)
        · exact Or.inr hlost.append_right
  · rfl
  · show ((g.sinksOf a.session).retain a.event g.outboxCapacity).outbox = _
    rw [h.bound]

/-- **Routing the outputs of an input.** -/
theorem wpAt_routeEvents (h : StreamInv up capacity routed regs g) (events : List (Addressed E)) :
    wpAt (Sequencer.routeEvents events)
      (fun _ g' w' => StreamInv up capacity (routed ++ events) regs g' ∧ g'.node = g.node ∧ w' = w) Err g w := by
  induction events generalizing g routed with
  | nil =>
    rw [List.append_nil]
    exact wpAt_pure ⟨h, rfl, rfl⟩
  | cons a rest ih =>
    apply wpAt_seq (wpAt_routeEvent h a)
    rintro _ g₁ w₁ ⟨h₁, hnode, rfl⟩
    apply wpAt_mono (ih h₁)
    · rintro _ g' w' ⟨h', hnode', rfl⟩
      rw [List.append_assoc] at h'
      exact ⟨h', hnode'.trans hnode, rfl⟩
    · exact fun _ _ _ h => h

end Programs

/-! ## Registering -/

/-- The session's sinks with one more. -/
def SessionSinks.join (entry : SessionSinks E) (r : Registration) : SessionSinks E :=
  match r.watcher with
  | true => { entry with watchers := entry.watchers ++ [r.sink] }
  | false => { entry with cmd := some r.sink }

@[simp] theorem join_nextEventSeq (entry : SessionSinks E) (r : Registration) :
    (entry.join r).nextEventSeq = entry.nextEventSeq := by
  unfold SessionSinks.join
  split <;> rfl

@[simp] theorem join_outbox (entry : SessionSinks E) (r : Registration) : (entry.join r).outbox = entry.outbox := by
  unfold SessionSinks.join
  split <;> rfl

theorem mem_targets_join {r : Registration} (hfree : r.watcher = false → entry.cmd = none) {sink : Sink} :
    sink ∈ (entry.join r).targets ↔ sink ∈ entry.targets ∨ sink = r.sink := by
  unfold SessionSinks.join SessionSinks.targets
  cases hkind : r.watcher with
  | true => simp [or_assoc]
  | false =>
    simp only [hfree hkind, Option.toList_some, Option.toList_none]
    simp [or_comm]

theorem cmd_join {r : Registration} {sink : Sink} (h : (entry.join r).cmd = some sink) :
    entry.cmd = some sink ∨ r.watcher = false ∧ sink = r.sink := by
  unfold SessionSinks.join at h
  cases hkind : r.watcher with
  | true =>
    rw [hkind] at h
    exact Or.inl h
  | false =>
    rw [hkind] at h
    exact Or.inr ⟨rfl, (Option.some.inj h).symm⟩

theorem watchers_join {r : Registration} {sink : Sink} (h : sink ∈ (entry.join r).watchers) :
    sink ∈ entry.watchers ∨ r.watcher = true ∧ sink = r.sink := by
  unfold SessionSinks.join at h
  cases hkind : r.watcher with
  | true =>
    rw [hkind] at h
    exact (List.mem_append.mp h).imp_right fun hmem => ⟨rfl, List.mem_singleton.mp hmem⟩
  | false =>
    rw [hkind] at h
    exact Or.inl h

theorem join_nodup {r : Registration} (h : entry.watchers.Nodup) (hnew : r.sink ∉ entry.watchers) :
    (entry.join r).watchers.Nodup := by
  unfold SessionSinks.join
  split
  · exact List.nodup_append.mpr ⟨h, by simp, fun sink hmem sink' hmem' heq => hnew (by simp_all)⟩
  · exact h

/-- What is replayed to a connection, and where its stream starts. -/
theorem SessionInv.replay (h : SessionInv up capacity events regs sent session entry) (after : ℕ) :
    entry.outbox.filter (fun e => after < e.1) = (numbered events).drop (entry.firstAfter after - 1) ∧
      1 ≤ entry.firstAfter after ∧ entry.firstAfter after ≤ events.length + 1 := by
  have holdest : (entry.outbox.head?.map Prod.fst).getD entry.nextEventSeq = 1 + (events.length - capacity) := by
    rw [h.outbox, h.next, Nat.add_comm events.length]
    exact head?_drop_numberedFrom 1 _ (by omega)
  rw [SessionSinks.firstAfter, holdest, h.next, h.outbox]
  unfold numbered
  rw [filter_numberedFrom]
  by_cases hlt : after < events.length + 1
  · rw [if_pos hlt]
    refine ⟨?_, by omega, by omega⟩
    congr 1
    omega
  · -- nothing that high was numbered yet
    rw [if_neg hlt]
    refine ⟨?_, by omega, by omega⟩
    rw [List.drop_eq_nil_of_le (by rw [numberedFrom_length]; omega),
      List.drop_eq_nil_of_le (by rw [numberedFrom_length]; omega)]

/-- **A connection registers**: `alive` says whether it outlived what was replayed to it. -/
theorem StreamInv.join (h : StreamInv up capacity routed regs g) (new : Registration) (after : ℕ) (alive : Bool)
    (hopen : new.closed = false) (hfresh : new.sink ∉ regs.map (·.sink))
    (hfree : new.watcher = false → (g.sinksOf new.session).cmd = none)
    (hstart : new.start = (g.sinksOf new.session).firstAfter after) (hl : ∀ p ∈ l, p.1 = new.sink)
    (hrun : eventsTo new.sink l <+: (g.sinksOf new.session).outbox.filter fun e => after < e.1)
    (hwhole : alive = true → eventsTo new.sink l = (g.sinksOf new.session).outbox.filter fun e => after < e.1)
    (hlost : alive = false → g.Lost l new.sink) {entry' : SessionSinks E}
    (hentry : entry' = if alive then (g.sinksOf new.session).join new else g.sinksOf new.session) :
    StreamInv up capacity routed (regs ++ [new]) ((g.sending l).setSinks new.session entry') := by
  have hinv := h.sessions new.session
  have hnever : eventsTo new.sink g.sent = [] := by
    apply eventsTo_eq_nil
    intro p hp heq
    exact hfresh (heq ▸ h.known p hp)
  have hother : ∀ r ∈ regs, r.sink ≠ new.sink := fun r hr heq => hfresh (heq ▸ List.mem_map_of_mem hr)
  have hquiet : ∀ r ∈ regs, eventsTo r.sink l = [] := by
    intro r hr
    apply eventsTo_eq_nil
    intro p hp heq
    exact hother r hr (heq.symm.trans (hl p hp))
  refine ⟨h.ticks_sending l, h.bound, ?_, ?_, ?_⟩
  · rw [List.map_append, List.nodup_append]
    refine ⟨h.distinct, by simp, ?_⟩
    rintro sink hsink sink' hsink' rfl
    rw [List.map_singleton, List.mem_singleton] at hsink'
    exact hfresh (hsink' ▸ hsink)
  · intro p hp
    rw [List.map_append, List.mem_append]
    rcases List.mem_append.mp hp with hp | hp
    · exact Or.inl (h.known p hp)
    · exact Or.inr (by simp [hl p hp])
  · intro session
    rw [sinksOf_setSinks]
    by_cases heq : new.session = session
    · subst heq
      rw [if_pos rfl]
      have hstays : ∀ sink ∈ (g.sinksOf new.session).targets, sink ∈ entry'.targets := by
        intro sink hmem
        subst hentry
        split
        · exact (mem_targets_join hfree).mpr (Or.inl hmem)
        · exact hmem
      have hmem' : ∀ sink ∈ entry'.targets, sink ∈ (g.sinksOf new.session).targets ∨ alive ∧ sink = new.sink := by
        intro sink hmem
        subst hentry
        split at hmem
        · exact ((mem_targets_join hfree).mp hmem).imp_right fun heq => ⟨‹_›, heq⟩
        · exact Or.inl hmem
      have hcmds : ∀ sink, entry'.cmd = some sink →
          (g.sinksOf new.session).cmd = some sink ∨ new.watcher = false ∧ sink = new.sink := by
        intro sink hcmd
        subst hentry
        split at hcmd
        · exact cmd_join hcmd
        · exact Or.inl hcmd
      have hwatchers : ∀ sink ∈ entry'.watchers,
          sink ∈ (g.sinksOf new.session).watchers ∨ new.watcher = true ∧ sink = new.sink := by
        intro sink hmem
        subst hentry
        split at hmem
        · exact watchers_join hmem
        · exact Or.inl hmem
      obtain ⟨hreplay, hbounds⟩ := hinv.replay after
      rw [← hstart] at hreplay hbounds
      refine ⟨?_, ?_, ?_, ?_, ?_, ?_⟩
      · subst hentry
        split
        · exact (join_nextEventSeq _ _).trans hinv.next
        · exact hinv.next
      · subst hentry
        split
        · exact (join_outbox _ _).trans hinv.outbox
        · exact hinv.outbox
      · intro sink hcmd
        rcases hcmds sink hcmd with hold | ⟨hkind, rfl⟩
        · obtain ⟨r, hr, hr'⟩ := hinv.cmd sink hold
          exact ⟨r, List.mem_append_left _ hr, hr'⟩
        · exact ⟨new, by simp, rfl, rfl, hkind⟩
      · intro sink hmem
        rcases hwatchers sink hmem with hold | ⟨hkind, rfl⟩
        · obtain ⟨r, hr, hr'⟩ := hinv.watchers sink hold
          exact ⟨r, List.mem_append_left _ hr, hr'⟩
        · exact ⟨new, by simp, rfl, rfl, hkind⟩
      · subst hentry
        split
        · apply join_nodup hinv.nodup
          intro hmem
          obtain ⟨r, hr, hsink, -⟩ := hinv.watchers _ hmem
          exact hother r hr hsink
        · exact hinv.nodup
      · intro r hr hsession
        rcases List.mem_append.mp hr with hr | hr
        · apply (hinv.streams r hr hsession).frame (hquiet r hr)
          · intro hmem
            exact (hmem' _ hmem).resolve_right fun hnew => hother r hr hnew.2
          · exact fun _ hmem => Or.inl (hstays _ hmem)
        · obtain rfl := List.mem_singleton.mp hr
          have hsent : eventsTo r.sink (g.sent ++ l) = eventsTo r.sink l := by
            rw [eventsTo_append, hnever, List.nil_append]
          refine ⟨hbounds, ?_, ?_, ?_⟩
          · show eventsTo r.sink (g.sent ++ l) <+: _
            rw [hsent, ← hreplay]
            exact hrun
          · intro hmem
            show eventsTo r.sink (g.sent ++ l) = _
            rw [hsent, ← hreplay]
            rcases hmem' _ hmem with hold | ⟨halive, -⟩
            · obtain ⟨r', hr', hsink, -⟩ := hinv.target hold
              exact absurd hsink (hother r' hr')
            · exact hwhole halive
          · intro _
            cases halive : alive with
            | true =>
              left
              rw [hentry, halive, if_pos rfl]
              exact (mem_targets_join hfree).mpr (Or.inr rfl)
            | false => exact Or.inr (.of_lost h.ticks (hlost halive))
    · rw [if_neg heq]
      apply (h.sessions session).frame
      · intro r hsession
        rw [List.mem_append, List.mem_singleton]
        refine ⟨fun hmem => hmem.resolve_right ?_, Or.inl⟩
        rintro rfl
        exact heq hsession
      · exact fun r hr _ => hquiet r hr

theorem endCmd_sink (session : UInt64) (r : Registration) : (r.endCmd session).sink = r.sink := by
  unfold Registration.endCmd
  split <;> rfl

theorem endCmd_sinks (session : UInt64) (regs : List Registration) :
    (regs.map (Registration.endCmd session)).map (·.sink) = regs.map (·.sink) := by
  rw [List.map_map]
  exact List.map_congr_left fun r _ => endCmd_sink session r

/-- Other sessions keep their registrations. -/
theorem mem_map_endCmd {r : Registration} (hne : r.session ≠ session) :
    r ∈ regs.map (Registration.endCmd session) ↔ r ∈ regs := by
  have hsame : ∀ r' : Registration, (r'.endCmd session).session = r'.session := by
    intro r'
    unfold Registration.endCmd
    split <;> rfl
  rw [List.mem_map]
  constructor
  · rintro ⟨r', hr', rfl⟩
    rw [hsame] at hne
    rwa [Registration.endCmd, if_neg fun h => hne h.1]
  · intro hr
    exact ⟨r, hr, if_neg fun h => hne h.1⟩

/-- **The command connection of a session is replaced or gone.** -/
theorem StreamInv.endCmd (h : StreamInv up capacity routed regs g) (session : UInt64) :
    StreamInv up capacity routed (regs.map (Registration.endCmd session))
      (g.setSinks session { g.sinksOf session with cmd := none }) := by
  refine ⟨h.ticks, h.bound, by rw [endCmd_sinks]; exact h.distinct, by rw [endCmd_sinks]; exact h.known, ?_⟩
  intro session'
  have hsent : g.sent = g.sent ++ [] := (List.append_nil _).symm
  rw [sinksOf_setSinks]
  by_cases heq : session = session'
  · subst heq
    rw [if_pos rfl]
    have hinv := h.sessions session
    refine ⟨hinv.next, hinv.outbox, by simp, ?_, hinv.nodup, ?_⟩
    · intro sink hmem
      obtain ⟨r, hr, hsink, hsession, hkind⟩ := hinv.watchers sink hmem
      refine ⟨r, List.mem_map.mpr ⟨r, hr, if_neg ?_⟩, hsink, hsession, hkind⟩
      rw [hkind]
      simp
    · intro r' hr' hsession'
      obtain ⟨r, hr, rfl⟩ := List.mem_map.mp hr'
      have hsession : r.session = session := by
        unfold Registration.endCmd at hsession'
        split at hsession' <;> exact hsession'
      have hstream := hinv.streams r hr hsession
      show Stream up _ g.sent _ _
      by_cases hkind : r.watcher = false
      · rw [Registration.endCmd, if_pos ⟨hsession, hkind⟩]
        exact ⟨hstream.start, hstream.run, fun hmem => hstream.whole (List.mem_append_right _ hmem), by simp⟩
      · rw [Registration.endCmd, if_neg fun hboth => hkind hboth.2, hsent]
        apply hstream.frame rfl
        · exact fun hmem => List.mem_append_right _ hmem
        · intro _ hmem
          left
          rcases List.mem_append.mp hmem with hcmd | hmem
          · -- a watcher is no command connection
            obtain ⟨r', hr', hsink, -, hkind'⟩ := hinv.cmd r.sink (by simpa using hcmd)
            rw [reg_eq h.distinct hr' hr hsink] at hkind'
            exact absurd hkind' hkind
          · exact List.mem_append_right _ hmem
  · rw [if_neg heq]
    show SessionInv up capacity _ _ g.sent session' _
    rw [hsent]
    apply (h.sessions session').frame
    · exact fun r hsession => mem_map_endCmd (by rw [hsession]; exact Ne.symm heq)
    · exact fun _ _ _ => rfl

/-! ## Requests -/

theorem eventsTo_replay (sink : Sink) (held : List (ℕ × E)) :
    eventsTo sink ((held.map fun e => ServerMsg.event e.1 e.2).map (sink, ·)) = held := by
  induction held with
  | nil => rfl
  | cons e rest ih => simp [eventsTo]

section Requests

variable {Err : Empty → Sequencer svc E → World JStore → Prop} {w : World JStore}

theorem wpAt_replay {sink : Sink} {after : ℕ} {Q : Bool → Sequencer svc E → World JStore → Prop}
    (h : ∀ alive l, (∀ p ∈ l, p.1 = sink) → eventsTo sink l <+: (entry.outbox.filter fun e => after < e.1) →
      (alive = true → eventsTo sink l = entry.outbox.filter fun e => after < e.1) →
      (alive = false → g.Lost l sink) → Q alive (g.sending l) w) :
    wpAt (Sequencer.sendAll sink (entry.replayAfter after)) Q Err g w := by
  apply Sequencer.wpAt_sendAll
  intro alive msgs hprefix hall hlost
  obtain ⟨held, hheld, rfl⟩ := List.prefix_map_iff.mp hprefix
  apply h alive _ _ _ _ hlost
  · intro p hp
    obtain ⟨msg, -, rfl⟩ := List.mem_map.mp hp
    rfl
  · rw [eventsTo_replay]
    exact hheld
  · intro halive
    have hsame := congrArg (fun msgs => eventsTo sink (msgs.map (sink, ·))) (hall halive)
    simp only [SessionSinks.replayAfter, eventsTo_replay] at hsame
    rw [eventsTo_replay, hsame]

/-- **Attach**: the connection takes over the session's commands. -/
theorem wpAt_attach (h : StreamInv up capacity routed regs g) (session : UInt64) (after : ℕ) {sink : Sink}
    (hfresh : sink ∉ regs.map (·.sink)) :
    wpAt (Sequencer.attach session after sink)
      (fun _ g' _ => StreamInv up capacity routed (register g regs (Req.attach session after sink : Req C)) g')
      Err g w := by
  apply wpAt_bind
  apply wpAt_update
  apply wpAt_bind
  apply wpAt_update
  apply wpAt_bind
  apply wpAt_mem
  apply wpAt_bind
  apply wpAt_replay
  intro alive l hl hrun hwhole hlost
  simp only [sinksOf_setSinks, if_pos, sinksOf_setFlow] at hrun hwhole
  have hjoined := (h.endCmd session).join (l := l)
    ⟨sink, session, false, (g.sinksOf session).firstAfter after, false⟩ after alive rfl
    (by rw [endCmd_sinks]; exact hfresh) (by simp) (by simp [SessionSinks.firstAfter]) hl (by simpa using hrun)
    (by simpa using hwhole) hlost rfl
  apply wpAt_when
  · rintro rfl
    apply wpAt_update
    refine hjoined.congr (fun session' => ?_) rfl rfl rfl
    by_cases heq : session = session' <;> simp [heq]
  · intro halive
    refine hjoined.congr (fun session' => ?_) rfl rfl rfl
    by_cases heq : session = session' <;> simp [heq, halive, SessionSinks.join]

/-- **Watch**: the connection observes the session too. -/
theorem wpAt_watch (h : StreamInv up capacity routed regs g) (session : UInt64) (after : ℕ) {sink : Sink}
    (hfresh : sink ∉ regs.map (·.sink)) :
    wpAt (Sequencer.watch session after sink)
      (fun _ g' _ => StreamInv up capacity routed (register g regs (Req.watch session after sink : Req C)) g')
      Err g w := by
  apply wpAt_bind
  apply Sequencer.wpAt_send
  apply wpAt_bind
  apply wpAt_update
  apply wpAt_bind
  apply wpAt_mem
  apply wpAt_bind
  apply wpAt_replay
  intro alive l hl hrun hwhole hlost
  have hack : eventsTo sink ((sink, ServerMsg.ack 0 0) :: l) = eventsTo sink l := by
    simp [eventsTo]
  simp only [sinksOf_setSinks, if_pos, sinksOf_sending] at hrun hwhole
  have hjoined := h.join (l := (sink, .ack 0 0) :: l)
    ⟨sink, session, true, (g.sinksOf session).firstAfter after, false⟩ after alive rfl hfresh (by simp) rfl
    (by simpa using hl) (by rw [hack]; exact hrun) (by rw [hack]; exact hwhole)
    (fun hdead => Sequencer.Lost.append_right (l := [(sink, .ack 0 0)]) (hlost hdead)) rfl
  apply wpAt_when
  · rintro rfl
    apply wpAt_update
    refine hjoined.congr (fun session' => ?_) ?_ ?_ rfl
    · by_cases heq : session = session' <;> simp [heq, SessionSinks.join]
    · exact List.append_assoc g.sent _ l
    · rfl
  · intro halive
    refine hjoined.congr (fun session' => ?_) ?_ ?_ rfl
    · by_cases heq : session = session' <;> simp [heq, halive]
    · exact List.append_assoc g.sent _ l
    · rfl

/-- A node operation touches the node only. -/
theorem wpAt_onNode {p : NProg svc α} {Q : Except NodeError α → Sequencer svc E → World JStore → Prop}
    (hok : ∀ a node w', p g.node w = .ok a node w' → Q (.ok a) { g with node := node } w')
    (herr : ∀ e node w', p g.node w = .err e node w' → Q (.error e) { g with node := node } w') :
    wpAt (Sequencer.onNode p) Q Err g w := by
  apply wpAt_zoom
  apply wpAt_attempt
  exact wpAt_mono wpAt_self hok herr

variable {aware : SessionAware svc C E} {fuel : ℕ}

theorem routes_eq {req : Req C} {input : svc.Input} (hinput : submits aware g req = some input) {seq : ℕ}
    {outputs : List svc.Output} {node : Node svc} {w' : World JStore}
    (hrun : Node.submit fuel input g.node w = .ok (seq, outputs) node w') :
    routes aware fuel g w req = outputs.map aware.output := by
  rw [routes, hinput]
  simp only
  rw [hrun]

theorem routes_none {req : Req C} (hinput : submits aware g req = none) : routes aware fuel g w req = [] := by
  rw [routes, hinput]

theorem wpAt_close (h : StreamInv up capacity routed regs g) (session : UInt64) :
    wpAt (Sequencer.close aware fuel session)
      (fun r g' _ => r = none → StreamInv up capacity (routed ++ routes aware fuel g w (.close session))
        (register g regs (Req.close session : Req C)) g') Err g w := by
  obtain ⟨sinks, hsinks⟩ := dropCmd_eq g session
  have hended : StreamInv up capacity routed (regs.map (Registration.endCmd session)) (g.dropCmd session) := by
    apply (h.endCmd session).congr
    · exact sinksOf_dropCmd g session
    all_goals rw [hsinks]; rfl
  apply wpAt_bind
  apply wpAt_update
  apply wpAt_bind
  apply wpAt_onNode
  · rintro ⟨seq, outputs⟩ node w' hrun
    have hkept : StreamInv up capacity routed (regs.map (Registration.endCmd session))
        { g.dropCmd session with node := node } := hended.congr (fun _ => rfl) rfl rfl rfl
    have hnode : (g.dropCmd session).node = g.node := by rw [hsinks]
    rw [hnode] at hrun
    apply wpAt_seq (wpAt_routeEvents hkept _)
    rintro _ g' w' ⟨h', -⟩
    apply wpAt_pure
    intro _
    rw [show routes aware fuel g w (.close session) = _ from routes_eq rfl hrun]
    exact h'
  · intro e node w' _
    exact wpAt_pure nofun

/-- A refusal. -/
theorem wpAt_refusal (h : StreamInv up capacity routed regs g) (session : UInt64) (clientSeq : ℕ)
    (reason : RejectReason) :
    wpAt (do
        Sequencer.sendToCmd session (.rejected clientSeq reason)
        pure none : GProg svc E (Option NodeError))
      (fun _ g' _ => StreamInv up capacity routed regs g') Err g w := by
  apply wpAt_seq (wpAt_sendToCmd h session (by simp))
  rintro _ g' w' ⟨h', -⟩
  exact wpAt_pure h'

theorem wpAt_sequenceCmd (h : StreamInv up capacity routed regs g) (session clientSeq : UInt64) (cmd : C)
    (flow : SessionFlow) :
    wpAt (Sequencer.sequenceCmd aware fuel session clientSeq cmd flow)
      (fun r g' _ => r = none → ∃ seq outputs node w',
        Node.submit fuel (aware.input.symm (.client session clientSeq cmd)) g.node w = .ok (seq, outputs) node w' ∧
          StreamInv up capacity (routed ++ outputs.map aware.output) regs g') Err g w := by
  apply wpAt_bind
  apply wpAt_onNode
  · rintro ⟨seq, outputs⟩ node w' hrun
    apply wpAt_bind
    apply wpAt_update
    have hkept : StreamInv up capacity routed regs (({ g with node := node }).setFlow session flow.onAcked) :=
      h.congr (fun _ => rfl) rfl rfl rfl
    apply wpAt_seq (wpAt_sendToCmd hkept session (by simp))
    rintro _ g₁ w₁ ⟨h₁, -⟩
    apply wpAt_seq (wpAt_routeEvents h₁ _)
    rintro _ g₂ w₂ ⟨h₂, -⟩
    apply wpAt_pure
    intro _
    exact ⟨seq, outputs, node, w', hrun, h₂⟩
  · intro e node w' _
    apply wpAt_bind
    apply wpAt_update
    exact wpAt_pure nofun

theorem wpAt_command (h : StreamInv up capacity routed regs g) (session clientSeq : UInt64) (cmd : C) :
    wpAt (Sequencer.command aware fuel session clientSeq cmd)
      (fun r g' _ => r = none →
        StreamInv up capacity (routed ++ routes aware fuel g w (.cmd session clientSeq cmd)) regs g') Err g w := by
  apply wpAt_bind
  apply wpAt_mem
  split
  · exact wpAt_panic
  · rename_i verdict flow hverdict
    have hkept : StreamInv up capacity routed regs (g.setFlow session flow) := h.congr (fun _ => rfl) rfl rfl rfl
    have hrefused : verdict ≠ .accept → routes aware fuel g w (.cmd session clientSeq cmd) = [] := by
      intro hne
      apply routes_none
      simp only [submits, hverdict]
      cases verdict <;> first | rfl | exact absurd rfl hne
    apply wpAt_bind
    apply wpAt_update
    cases verdict with
    | accept =>
      apply wpAt_mono (wpAt_sequenceCmd hkept session clientSeq cmd flow)
      · intro r g' w' hdone hr
        obtain ⟨seq, outputs, node, w'', hrun, h'⟩ := hdone hr
        have hinput : submits aware g (.cmd session clientSeq cmd) =
            some (aware.input.symm (.client session clientSeq cmd)) := by
          simp only [submits, hverdict]
        rw [routes_eq hinput hrun]
        exact h'
      · exact fun _ _ _ h => h
    | duplicate =>
      rw [hrefused (by simp), List.append_nil]
      exact wpAt_mono (wpAt_refusal hkept _ _ _) (fun _ _ _ h _ => h) fun _ _ _ h => h
    | gap expected =>
      rw [hrefused (by simp), List.append_nil]
      exact wpAt_mono (wpAt_refusal hkept _ _ _) (fun _ _ _ h _ => h) fun _ _ _ h => h
    | throttled =>
      rw [hrefused (by simp), List.append_nil]
      exact wpAt_mono (wpAt_refusal hkept _ _ _) (fun _ _ _ h _ => h) fun _ _ _ h => h

/-- **The step lemma**: a request keeps the streams. -/
theorem wpAt_serve (h : StreamInv up capacity routed regs g) (req : Req C)
    (hfresh : ∀ sink, req.sink = some sink → sink ∉ regs.map (·.sink)) :
    wpAt (Sequencer.serve aware fuel req)
      (fun r g' _ => r = none → StreamInv up capacity (routed ++ routes aware fuel g w req) (register g regs req) g')
      Err g w := by
  cases req with
  | attach session after sink =>
    rw [routes_none rfl, List.append_nil]
    apply wpAt_seq (wpAt_attach (C := C) h session after (hfresh sink rfl))
    exact fun _ _ _ h' => wpAt_pure fun _ => h'
  | watch session after sink =>
    rw [routes_none rfl, List.append_nil]
    apply wpAt_seq (wpAt_watch (C := C) h session after (hfresh sink rfl))
    exact fun _ _ _ h' => wpAt_pure fun _ => h'
  | cmd session clientSeq cmd => exact wpAt_command h session clientSeq cmd
  | close session => exact wpAt_close h session

end Requests

end Inv

/-! ## Whole runs -/

section Runs

variable {aware : SessionAware svc C E} {config : ServeConfig} {up : ℕ → Bool} {g : Sequencer svc E}
  {routed : List (Addressed E)} {regs : List Registration}

/-- **The run lemma.** -/
theorem Streaming.inv (h : Streaming aware config up g routed regs) :
    StreamInv up config.outboxCapacity routed regs g := by
  induction h with
  | start hstart =>
    obtain ⟨flows, -, rfl⟩ := Option.map_eq_some_iff.mp hstart
    refine ⟨rfl, rfl, by simp, by simp, fun session => ?_⟩
    have hinv : SessionInv up config.outboxCapacity (addressedTo session ([] : List (Addressed E))) [] [] session
        SessionSinks.new :=
      ⟨rfl, by simp [SessionSinks.new, addressedTo, numbered, numberedFrom], by simp [SessionSinks.new],
        by simp [SessionSinks.new], List.nodup_nil, by simp⟩
    simpa [Sequencer.sinksOf] using hinv
  | @served w _ g _ _ _ fuel req _ hfresh hserve ih =>
    have hstep : wpAt (Sequencer.serve aware fuel req) _ (fun _ _ _ => True) g w := wpAt_serve ih req hfresh
    exact wpAt_ok hstep hserve rfl

/-- **Session event streams replay exactly.** After any requests from any connections, the events addressed to a
session have been numbered 1, 2, ... in the order they were routed, of which the outbox holds no more than its
capacity; and what was sent to a connection is a run of its session's numbered events from the first it asked for
that was held, up to the last one unless its session was attached again or closed, or a send to it failed. -/
theorem streams_replay (h : Streaming aware config up g routed regs) :
    (∀ session, (g.sinksOf session).nextEventSeq = (addressedTo session routed).length + 1 ∧
      (g.sinksOf session).outbox.length ≤ config.outboxCapacity) ∧
    (∀ p ∈ g.sent, p.1 ∈ regs.map (·.sink)) ∧
    ∀ r ∈ regs, eventsTo r.sink g.sent <+: (numbered (addressedTo r.session routed)).drop (r.start - 1) ∧
      (r.closed = false → ¬Failed up g.sent r.sink →
        eventsTo r.sink g.sent = (numbered (addressedTo r.session routed)).drop (r.start - 1)) := by
  have hinv := h.inv
  refine ⟨fun session => ⟨(hinv.sessions session).next, ?_⟩, hinv.known, fun r hr => ?_⟩
  · rw [(hinv.sessions session).outbox, List.length_drop, numbered_length]
    omega
  · have hstream := (hinv.sessions r.session).streams r hr rfl
    refine ⟨hstream.run, fun hopen hup => ?_⟩
    exact hstream.whole ((hstream.stays hopen).resolve_right hup)

end Runs

/-- Session 7 connects and sends a command, which the service sends back; an observer then asks for everything. -/
def lateObserver : Option (Sequencer echo UInt64 × List (Addressed UInt64) × List Registration) := do
  let (node, _, w₀) ← ((Node.openWith ⟨⟨1024, .everyFrame⟩, 1, none, 1, none⟩ () (fun _ => 5) :
    Prog Unit JStore NodeError (Node echo)) () (.healthy ⟨Disk.empty, History.fresh⟩)).returned
  let g₀ ← Sequencer.start node {} fun _ => true
  let (r₁, g₁, w₁) ← (Sequencer.serve echoAware 4 (.attach 7 0 1) g₀ w₀).returned
  let (r₂, g₂, w₂) ← (Sequencer.serve echoAware 4 (.cmd 7 1 9) g₁ w₁).returned
  let (r₃, g₃, _) ← (Sequencer.serve echoAware 4 (.watch 7 0 2) g₂ w₂).returned
  if r₁.isNone ∧ r₂.isNone ∧ r₃.isNone then
    some (g₃, routes echoAware 4 g₁ w₁ (.cmd 7 1 9), register g₂ (register g₀ [] (.attach 7 0 1 : Req UInt64))
      (.watch 7 0 2 : Req UInt64))
  else none

theorem Streaming.lateObserver {g : Sequencer echo UInt64} {routed : List (Addressed UInt64)}
    {regs : List Registration} (h : Gateway.lateObserver = some (g, routed, regs)) :
    Streaming echoAware {} (fun _ => true) g routed regs := by
  simp only [Gateway.lateObserver, bind, Option.bind_eq_some_iff] at h
  obtain ⟨⟨node, _, w₀⟩, -, g₀, hstart, ⟨r₁, g₁, w₁⟩, h₁, ⟨r₂, g₂, w₂⟩, h₂, ⟨r₃, g₃, w₃⟩, h₃, h⟩ := h
  obtain ⟨⟨hr₁, hr₂, hr₃⟩, heq⟩ := Option.ite_none_right_eq_some.mp h
  obtain rfl := Option.isNone_iff_eq_none.mp hr₁
  obtain rfl := Option.isNone_iff_eq_none.mp hr₂
  obtain rfl := Option.isNone_iff_eq_none.mp hr₃
  cases heq
  rw [Outcome.returned_eq_some] at h₁ h₂ h₃
  have hattached := (Streaming.start hstart).served 4 (.attach 7 0 1) (by simp) h₁
  have hechoed := hattached.served 4 (.cmd 7 1 9) (by simp [Req.sink]) h₂
  have hwatched := hechoed.served 4 (.watch 7 0 2) (by simp [Req.sink, register]) h₃
  simpa [routes, submits, register] using hwatched

/-- The observer is sent the event that was routed before it came. -/
theorem streams_replay_of_late_observer : ∃ (g : Sequencer echo UInt64) (routed : List (Addressed UInt64))
    (regs : List Registration), Streaming echoAware {} (fun _ => true) g routed regs ∧
      (⟨2, 7, true, 1, false⟩ : Registration) ∈ regs ∧ eventsTo 2 g.sent = [(1, 9)] ∧
      eventsTo 2 g.sent = numbered (addressedTo 7 routed) := by
  have hrun : lateObserver.any (fun p => decide ((⟨2, 7, true, 1, false⟩ : Registration) ∈ p.2.2 ∧
      eventsTo 2 p.1.sent = [(1, 9)])) = true := by decide +kernel
  rw [Option.any_eq_true] at hrun
  obtain ⟨⟨g, routed, regs⟩, hrun, hend⟩ := hrun
  obtain ⟨hmem, hevents⟩ := of_decide_eq_true hend
  have hstreaming := Streaming.lateObserver hrun
  refine ⟨g, routed, regs, hstreaming, hmem, hevents, ?_⟩
  apply ((streams_replay hstreaming).2.2 _ hmem).2 rfl
  -- no send fails
  rintro ⟨i, msg, -, hdown⟩
  cases hdown

end Ticktape.Gateway
