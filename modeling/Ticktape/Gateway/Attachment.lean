import Mathlib.Data.Fintype.EquivFin
import Ticktape.Gateway.Streams

/-!
# The command connection of a session

Requests name the session and not the connection they come from, so a close ends whatever connection the session has
by then. A connection that attached is sent the replies and the events of its session until the first close of the
session, also one of a connection that was replaced long before, or until a command of the session fails to be
sequenced (`reply_reaches_attached`).
-/

namespace Ticktape.Gateway

open Std Ticktape.Lib Ticktape.Core Ticktape.Journal Ticktape.Runtime

variable {svc : Service} {C E α β : Type}

/-! ## Requests and the connections they come from -/

/-- A connection claims the session. -/
def Req.Claims (session : UInt64) : Req C → Prop
  | attach session' _ _ => session' = session
  | _ => False

/-- A connection of the session dropped. -/
def Req.Closes (session : UInt64) : Req C → Prop
  | close session' => session' = session
  | _ => False

/-- A command of the session. -/
def Req.Commands (session : UInt64) : Req C → Prop
  | cmd session' _ _ => session' = session
  | _ => False

/-- A request that was served: the connection that sent it, and the error of a failed submission. -/
structure Served (C : Type) where
  conn : Sink
  req : Req C
  failed : Option NodeError

/-- The connection claimed the session and did not drop since. -/
def Open (trace : List (Served C)) (conn : Sink) (session : UInt64) : Prop :=
  (∃ x ∈ trace, x.conn = conn ∧ x.req.Claims session) ∧ ∀ x ∈ trace, x.conn = conn → ¬x.req.Closes session

/-- A connection attaches or watches first, with a channel of its own; one that attached goes on with commands and one
close. -/
def Continues (trace : List (Served C)) (conn : Sink) : Req C → Prop
  | .attach _ _ sink => sink = conn ∧ conn ∉ trace.map (·.conn)
  | .watch _ _ sink => sink = conn ∧ conn ∉ trace.map (·.conn)
  | .cmd session _ _ => Open trace conn session
  | .close session => Open trace conn session

/-- The requests of any connections, in any order in which the thread may receive them. -/
inductive Interleaved (aware : SessionAware svc C E) (config : ServeConfig) (up : ℕ → Bool) :
    Sequencer svc E → List (Served C) → Prop where
  | start {node : Node svc} {g : Sequencer svc E} :
      Sequencer.start node config up = some g → Interleaved aware config up g []
  | served {w w' : World JStore} {g g' : Sequencer svc E} {trace : List (Served C)} {failed : Option NodeError}
      (fuel : ℕ) (conn : Sink) (req : Req C) : Interleaved aware config up g trace → Continues trace conn req →
      Sequencer.serve aware fuel req g w = .ok failed g' w' →
      Interleaved aware config up g' (trace ++ [⟨conn, req, failed⟩])

/-- The messages sent to a connection. -/
def sentTo (sink : Sink) (sent : List (Sink × ServerMsg E)) : List (ServerMsg E) :=
  (sent.filter fun p => p.1 = sink).map (·.2)

/-- The ack or the reject that a request calls for on the session's connection. -/
def replies (aware : SessionAware svc C E) (fuel : ℕ) (g : Sequencer svc E) (w : World JStore) (session : UInt64) :
    Req C → List (ServerMsg E)
  | .cmd session' clientSeq cmd =>
    if session' = session then
      match (g.flowOf session').admitSeq clientSeq.toNat with
      | none => []
      | some (.accept, _) =>
        match Node.submit fuel (aware.input.symm (.client session' clientSeq cmd)) g.node w with
        | .ok (seq, _) _ _ => [.ack clientSeq.toNat seq]
        | _ => []
      | some (.duplicate, _) => [.rejected clientSeq.toNat .duplicate]
      | some (.gap expected, _) => [.rejected clientSeq.toNat (.gap expected)]
      | some (.throttled, _) => [.rejected clientSeq.toNat .throttled]
    else []
  | _ => []

/-- Events as messages, the first of which has the number `k`. -/
def eventMsgs (k : ℕ) (events : List E) : List (ServerMsg E) :=
  (numberedFrom k events).map fun e => .event e.1 e.2

/-- All that a request calls for on the session's connection: its reply, and the events it addresses to the
session. -/
def owed (aware : SessionAware svc C E) (fuel : ℕ) (g : Sequencer svc E) (w : World JStore) (session : UInt64)
    (req : Req C) : List (ServerMsg E) :=
  replies aware fuel g w session req ++
    eventMsgs (g.sinksOf session).nextEventSeq (addressedTo session (routes aware fuel g w req))

/-! ## What is sent to one connection -/

section Sends

variable {c : Sink} {l l' : List (Sink × ServerMsg E)}

@[simp] theorem sentTo_nil : sentTo c ([] : List (Sink × ServerMsg E)) = [] := rfl

@[simp] theorem sentTo_append : sentTo c (l ++ l') = sentTo c l ++ sentTo c l' := by
  simp [sentTo]

theorem sentTo_eq_nil (h : ∀ p ∈ l, p.1 ≠ c) : sentTo c l = [] := by
  have hnone : l.filter (fun p => p.1 = c) = [] := by
    apply List.filter_eq_nil_iff.mpr
    intro p hp
    simpa using h p hp
  rw [sentTo, hnone, List.map_nil]

theorem sentTo_self (msg : ServerMsg E) : sentTo c [(c, msg)] = [msg] := by simp [sentTo]

/-- What goes to sinks other than the connection. -/
theorem sentTo_map_of_notMem {sinks : List Sink} (h : c ∉ sinks) (msg : ServerMsg E) :
    sentTo c (sinks.map (·, msg)) = [] := by
  apply sentTo_eq_nil
  intro p hp heq
  obtain ⟨sink, hsink, rfl⟩ := List.mem_map.mp hp
  exact h (heq ▸ hsink)

end Sends

/-! ## The seat -/

/-- `c` can only be the command connection of `session`. -/
structure Seat (c : Sink) (session : UInt64) (g : Sequencer svc E) : Prop where
  watchers : ∀ session', c ∉ (g.sinksOf session').watchers
  cmd : ∀ session', session' ≠ session → (g.sinksOf session').cmd ≠ some c

/-- The messages `l` were sent on the way from `g` to `g'`. -/
structure Moves (c : Sink) (session : UInt64) (l : List (Sink × ServerMsg E)) (g g' : Sequencer svc E) : Prop where
  sent : g'.sent = g.sent ++ l
  up : g'.up = fun i => g.up (i + l.length)
  seat : Seat c session g'

/-- `c` is sent `msgs` and stays, if it is the command connection of its session. -/
def Relays (c : Sink) (session : UInt64) (msgs : List (ServerMsg E)) (g g' : Sequencer svc E) : Prop :=
  ∃ l, Moves c session l g g' ∧
    ((g.sinksOf session).cmd = some c → g.Lost l c ∨ sentTo c l = msgs ∧ (g'.sinksOf session).cmd = some c) ∧
    ((g.sinksOf session).cmd ≠ some c → sentTo c l = [] ∧ (g'.sinksOf session).cmd ≠ some c)

/-- `c` is not the command connection of its session any more, and is sent nothing. -/
def Cuts (c : Sink) (session : UInt64) (g g' : Sequencer svc E) : Prop :=
  ∃ l, Moves c session l g g' ∧ sentTo c l = [] ∧ (g'.sinksOf session).cmd ≠ some c

section Seat

variable {c : Sink} {session : UInt64} {g g' g'' : Sequencer svc E} {l l' : List (Sink × ServerMsg E)}
  {msgs msgs' : List (ServerMsg E)}

theorem Moves.refl (h : Seat c session g) : Moves c session [] g g := ⟨by simp, rfl, h⟩

theorem Moves.trans (h : Moves c session l g g') (h' : Moves c session l' g' g'') :
    Moves c session (l ++ l') g g'' := by
  refine ⟨by rw [h'.sent, h.sent, List.append_assoc], ?_, h'.seat⟩
  rw [h'.up, h.up]
  funext i
  rw [List.length_append, Nat.add_comm l.length, ← Nat.add_assoc]

/-- A loss in the second part of some sends. -/
theorem Moves.lost (h : Moves c session l g g') (hlost : g'.Lost l' c) : g.Lost (l ++ l') c := by
  obtain ⟨i, msg, hget, hdown⟩ := hlost
  refine ⟨i + l.length, msg, ?_, ?_⟩
  · rw [List.getElem?_append_right (by omega), Nat.add_sub_cancel, hget]
  · rw [h.up] at hdown
    exact hdown

theorem Relays.seat (h : Relays c session msgs g g') : Seat c session g' := h.choose_spec.1.seat

theorem Cuts.seat (h : Cuts c session g g') : Seat c session g' := h.choose_spec.1.seat

theorem Relays.refl (h : Seat c session g) : Relays c session [] g g :=
  ⟨[], .refl h, fun hseated => Or.inr ⟨rfl, hseated⟩, fun hnot => ⟨rfl, hnot⟩⟩

theorem Relays.trans (h : Relays c session msgs g g') (h' : Relays c session msgs' g' g'') :
    Relays c session (msgs ++ msgs') g g'' := by
  obtain ⟨l, hmoves, hseated, hnot⟩ := h
  obtain ⟨l', hmoves', hseated', hnot'⟩ := h'
  refine ⟨l ++ l', hmoves.trans hmoves', ?_, ?_⟩
  · intro hcmd
    rcases hseated hcmd with hlost | ⟨hsent, hcmd'⟩
    · exact Or.inl (hlost.append_left l')
    · rcases hseated' hcmd' with hlost | ⟨hsent', hcmd''⟩
      · exact Or.inl (hmoves.lost hlost)
      · exact Or.inr ⟨by rw [sentTo_append, hsent, hsent'], hcmd''⟩
  · intro hcmd
    obtain ⟨hsent, hcmd'⟩ := hnot hcmd
    obtain ⟨hsent', hcmd''⟩ := hnot' hcmd'
    exact ⟨by rw [sentTo_append, hsent, hsent', List.append_nil], hcmd''⟩

/-- Nothing is relayed behind a cut. -/
theorem Cuts.relays (h : Cuts c session g g') (h' : Relays c session msgs g' g'') : Cuts c session g g'' := by
  obtain ⟨l, hmoves, hsent, hcmd⟩ := h
  obtain ⟨l', hmoves', -, hnot⟩ := h'
  obtain ⟨hsent', hcmd'⟩ := hnot hcmd
  exact ⟨l ++ l', hmoves.trans hmoves', by rw [sentTo_append, hsent, hsent', List.append_nil], hcmd'⟩

theorem Cuts.trans (h : Cuts c session g g') (h' : Cuts c session g' g'') : Cuts c session g g'' := by
  obtain ⟨l, hmoves, hsent, -⟩ := h
  obtain ⟨l', hmoves', hsent', hcmd'⟩ := h'
  exact ⟨l ++ l', hmoves.trans hmoves', by rw [sentTo_append, hsent, hsent', List.append_nil], hcmd'⟩

/-- A change that concerns no sinks. -/
theorem relays_of_sinks (h : Seat c session g) (hsinks : ∀ session', g'.sinksOf session' = g.sinksOf session')
    (hsent : g'.sent = g.sent) (hup : g'.up = g.up) : Relays c session [] g g' := by
  refine ⟨[], ⟨by rw [hsent, List.append_nil], hup, ?_⟩, fun hcmd => Or.inr ⟨rfl, ?_⟩, fun hcmd => ⟨rfl, ?_⟩⟩
  · exact ⟨fun session' => by rw [hsinks]; exact h.watchers session',
      fun session' hne => by rw [hsinks]; exact h.cmd session' hne⟩
  · rw [hsinks]
    exact hcmd
  · rw [hsinks]
    exact hcmd

/-- The connection is taken out of its session, and nothing is sent. -/
theorem cuts_of_sinks (h : Seat c session g') (hcmd : (g'.sinksOf session).cmd ≠ some c) (hsent : g'.sent = g.sent)
    (hup : g'.up = g.up) : Cuts c session g g' :=
  ⟨[], ⟨by rw [hsent, List.append_nil], hup, h⟩, rfl, hcmd⟩

theorem Seat.setSinks (h : Seat c session g) {session' : UInt64} {entry : SessionSinks E} (hwatchers : c ∉ entry.watchers)
    (hcmd : session' ≠ session → entry.cmd ≠ some c) : Seat c session (g.setSinks session' entry) := by
  constructor
  · intro session''
    rw [sinksOf_setSinks]
    split
    · exact hwatchers
    · exact h.watchers session''
  · intro session'' hne
    rw [sinksOf_setSinks]
    split
    · next heq => exact hcmd (heq ▸ hne)
    · exact h.cmd session'' hne

theorem Seat.sending (h : Seat c session g) (l : List (Sink × ServerMsg E)) : Seat c session (g.sending l) :=
  ⟨h.watchers, h.cmd⟩

/-- Sending to sinks other than the connection. -/
theorem relays_sending (h : Seat c session g) (hl : sentTo c l = []) : Relays c session [] g (g.sending l) :=
  ⟨l, ⟨rfl, rfl, h.sending l⟩, fun hcmd => Or.inr ⟨hl, hcmd⟩, fun hcmd => ⟨hl, hcmd⟩⟩

/-- The sinks of another session change. -/
theorem relays_setSinks_of_ne (h : Seat c session g) {session' : UInt64} {entry : SessionSinks E}
    (hne : session' ≠ session) (hwatchers : c ∉ entry.watchers) (hcmd : entry.cmd ≠ some c) :
    Relays c session [] g (g.setSinks session' entry) := by
  have hself : (g.setSinks session' entry).sinksOf session = g.sinksOf session := by
    rw [sinksOf_setSinks, if_neg hne]
  refine ⟨[], ⟨(List.append_nil _).symm, rfl, h.setSinks hwatchers fun _ => hcmd⟩, ?_, ?_⟩
  · exact fun hseated => Or.inr ⟨rfl, by rw [hself]; exact hseated⟩
  · exact fun hnot => ⟨rfl, by rw [hself]; exact hnot⟩

/-- The sinks of the session change, but not its command connection. -/
theorem relays_setSinks (h : Seat c session g) {entry : SessionSinks E} (hwatchers : c ∉ entry.watchers)
    (hcmd : entry.cmd = (g.sinksOf session).cmd) : Relays c session [] g (g.setSinks session entry) := by
  have hself : ((g.setSinks session entry).sinksOf session).cmd = (g.sinksOf session).cmd := by
    rw [sinksOf_setSinks, if_pos rfl, hcmd]
  refine ⟨[], ⟨(List.append_nil _).symm, rfl, h.setSinks hwatchers fun hne => absurd rfl hne⟩, ?_, ?_⟩
  · exact fun hseated => Or.inr ⟨rfl, hself.trans hseated⟩
  · exact fun hnot => ⟨rfl, by rw [hself]; exact hnot⟩

end Seat

/-! ## Sending under a seat -/

section Programs

variable {c : Sink} {session : UInt64} {g : Sequencer svc E} {w : World JStore}
  {Err : Empty → Sequencer svc E → World JStore → Prop}

/-- A message goes to the command connection of a session and to its watchers, and the entry of the session is
replaced by one that keeps those that are alive. -/
theorem relays_entry (h : Seat c session g) {session' : UInt64} {entry' : SessionSinks E} {sinks : List Sink}
    {msg : ServerMsg E} (hsinks : c ∉ sinks) (hwatchers : c ∉ entry'.watchers)
    (hcmd : entry'.cmd = (g.sinksOf session').cmd ∨ entry'.cmd = none ∧
      ∀ sink, (g.sinksOf session').cmd = some sink → g.Lost [(sink, msg)] sink) :
    Relays c session (if session' = session then [msg] else []) g
      ((g.sending ((g.sinksOf session').cmd.toList.map (·, msg) ++ sinks.map (·, msg))).setSinks session' entry') := by
  have hkeep : ∀ sink, entry'.cmd = some sink → (g.sinksOf session').cmd = some sink := by
    rintro sink hsink
    rcases hcmd with heq | ⟨hnone, -⟩
    · rw [← heq, hsink]
    · rw [hnone] at hsink
      cases hsink
  have hrest := sentTo_map_of_notMem hsinks msg
  have hnotcmd : (g.sinksOf session').cmd ≠ some c →
      sentTo c ((g.sinksOf session').cmd.toList.map (·, msg) ++ sinks.map (·, msg)) = [] := by
    intro hne
    have hfirst : sentTo c ((g.sinksOf session').cmd.toList.map (·, msg)) = [] :=
      sentTo_map_of_notMem (fun hmem => hne (by simpa using hmem)) msg
    rw [sentTo_append, hrest, hfirst]
    rfl
  have hseat : Seat c session ((g.sending ((g.sinksOf session').cmd.toList.map (·, msg) ++
      sinks.map (·, msg))).setSinks session' entry') := by
    apply (h.sending _).setSinks hwatchers
    exact fun hne hsome => h.cmd session' hne (hkeep c hsome)
  refine ⟨_, ⟨rfl, rfl, hseat⟩, ?_, ?_⟩
  · intro hseated
    by_cases heq : session' = session
    · subst heq
      rw [sinksOf_setSinks, if_pos rfl, if_pos rfl, hseated]
      rcases hcmd with hsame | ⟨-, hlost⟩
      · right
        refine ⟨?_, hsame.trans hseated⟩
        rw [sentTo_append, hrest, List.append_nil]
        exact sentTo_self msg
      · left
        exact (hlost c hseated).append_left _
    · right
      rw [sinksOf_setSinks, if_neg heq, if_neg heq]
      exact ⟨hnotcmd (h.cmd session' heq), hseated⟩
  · intro hnot
    by_cases heq : session' = session
    · subst heq
      rw [sinksOf_setSinks, if_pos rfl]
      exact ⟨hnotcmd hnot, fun hsome => hnot (hkeep c hsome)⟩
    · rw [sinksOf_setSinks, if_neg heq]
      exact ⟨hnotcmd (h.cmd session' heq), hnot⟩

/-- **A reply** goes to the command connection, and takes no number. -/
theorem wpAt_sendToCmd_relays (h : Seat c session g) (session' : UInt64) (msg : ServerMsg E) :
    wpAt (Sequencer.sendToCmd session' msg)
      (fun _ g' _ => Relays c session (if session' = session then [msg] else []) g g' ∧
        (g'.sinksOf session).nextEventSeq = (g.sinksOf session).nextEventSeq) Err g w := by
  apply wpAt_bind
  apply wpAt_mem
  split
  · next hget =>
    have hnew : g.sinksOf session' = SessionSinks.new := by
      rw [Sequencer.sinksOf, ExtTreeMap.getD_eq_getD_getElem?, hget, Option.getD_none]
    refine wpAt_pure ⟨?_, rfl⟩
    by_cases heq : session' = session
    · -- a session without sinks has no command connection
      subst heq
      refine ⟨[], .refl h, fun hseated => ?_, fun hnot => ⟨rfl, hnot⟩⟩
      rw [hnew] at hseated
      cases hseated
    · rw [if_neg heq]
      exact .refl h
  · next entry hget =>
    obtain rfl := sinksOf_eq hget
    apply wpAt_bind
    apply Sequencer.wpAt_sendCmd
    intro cmd' hcmd'
    apply wpAt_update
    constructor
    · have hnobody : c ∉ ([] : List Sink) := by simp
      have hrelays := @relays_entry _ _ c session g h session' { g.sinksOf session' with cmd := cmd' } [] msg hnobody
        (h.watchers session') hcmd'
      rw [List.map_nil, List.append_nil] at hrelays
      exact hrelays
    · rw [sinksOf_setSinks]
      split
      · next heq => rw [heq]
      · rfl

theorem wpAt_routeEvent_relays (h : Seat c session g) (a : Addressed E) :
    wpAt (Sequencer.routeEvent a)
      (fun _ g' _ => Relays c session
          (if a.session = session then [.event (g.sinksOf a.session).nextEventSeq a.event] else []) g g' ∧
        (g'.sinksOf session).nextEventSeq =
          (g.sinksOf session).nextEventSeq + if a.session = session then 1 else 0) Err g w := by
  apply wpAt_bind
  apply wpAt_mem
  apply wpAt_bind
  apply Sequencer.wpAt_sendCmd
  intro cmd' hcmd'
  apply wpAt_bind
  apply Sequencer.wpAt_sendWatchers
  intro kept hsub _
  apply wpAt_update
  rw [Sequencer.sending_sending]
  constructor
  · apply relays_entry h (h.watchers a.session)
    · exact fun hmem => h.watchers a.session (hsub.subset hmem)
    · exact hcmd'
  · rw [sinksOf_setSinks]
    split
    · next heq =>
      rw [← heq]
      rfl
    · rfl

/-- **The events of an input**: those of the session go to its command connection, with their numbers. -/
theorem wpAt_routeEvents_relays (h : Seat c session g) (events : List (Addressed E)) :
    wpAt (Sequencer.routeEvents events)
      (fun _ g' _ => Relays c session
        (eventMsgs (g.sinksOf session).nextEventSeq (addressedTo session events)) g g') Err g w := by
  induction events generalizing g w with
  | nil => exact wpAt_pure (.refl h)
  | cons a rest ih =>
    apply wpAt_seq (wpAt_routeEvent_relays h a)
    rintro _ g₁ w₁ ⟨hfirst, hnext⟩
    apply wpAt_mono (ih hfirst.seat)
    · intro _ g' w' hrest
      have hboth := hfirst.trans hrest
      by_cases heq : a.session = session
      · rw [if_pos heq] at hboth hnext
        rw [hnext, heq] at hboth
        simpa [addressedTo, heq, eventMsgs, numberedFrom] using hboth
      · rw [if_neg heq] at hboth hnext
        rw [hnext] at hboth
        simpa [addressedTo, heq] using hboth
    · exact fun _ _ _ h => h

/-- Replaying to another connection. -/
theorem wpAt_sendAll_relays (h : Seat c session g) {sink : Sink} (hne : sink ≠ c) (msgs : List (ServerMsg E)) :
    wpAt (Sequencer.sendAll sink msgs) (fun _ g' _ => Relays c session [] g g') Err g w := by
  apply Sequencer.wpAt_sendAll
  intro alive l _ _ _
  apply relays_sending h
  apply sentTo_eq_nil
  intro p hp
  obtain ⟨msg, -, rfl⟩ := List.mem_map.mp hp
  exact hne

/-! ## Requests under a seat -/

variable {aware : SessionAware svc C E} {fuel : ℕ}

/-- The request takes the command connection out of the session: another one attaches, one is closed, or a command
cannot be sequenced. -/
def Req.Ends (session : UInt64) (failed : Option NodeError) (req : Req C) : Prop :=
  req.Claims session ∨ req.Closes session ∨ req.Commands session ∧ failed ≠ none

/-- What a request leaves of the seat. -/
structure Turn (aware : SessionAware svc C E) (fuel : ℕ) (c : Sink) (session : UInt64) (g : Sequencer svc E)
    (w : World JStore) (req : Req C) (failed : Option NodeError) (g' : Sequencer svc E) : Prop where
  relays : ¬req.Ends session failed → Relays c session (owed aware fuel g w session req) g g'
  cuts : req.Ends session failed → Cuts c session g g'
  /-- A submission that failed calls for nothing. -/
  quiet : failed ≠ none → owed aware fuel g w session req = []

theorem Turn.moves {req : Req C} {failed : Option NodeError} {g' : Sequencer svc E}
    (h : Turn aware fuel c session g w req failed g') :
    ∃ l, Moves c session l g g' ∧ ((g.sinksOf session).cmd ≠ some c → (g'.sinksOf session).cmd ≠ some c) := by
  by_cases hends : req.Ends session failed
  · obtain ⟨l, hmoves, -, hcmd⟩ := h.cuts hends
    exact ⟨l, hmoves, fun _ => hcmd⟩
  · obtain ⟨l, hmoves, -, hnot⟩ := h.relays hends
    exact ⟨l, hmoves, fun hcmd => (hnot hcmd).2⟩

theorem owed_of_quiet {req : Req C} (hreplies : replies aware fuel g w session req = [])
    (hroutes : routes aware fuel g w req = []) : owed aware fuel g w session req = [] := by
  rw [owed, hreplies, hroutes]
  rfl

theorem wpAt_attach_turn (h : Seat c session g) (session' : UInt64) (after : ℕ) {sink : Sink} (hne : sink ≠ c) :
    wpAt (Sequencer.attach session' after sink)
      (fun _ g' _ => Turn aware fuel c session g w (.attach session' after sink) none g') Err g w := by
  have hflow : Relays c session [] g (g.setFlow session' (g.flowOf session')) :=
    relays_of_sinks h (fun _ => rfl) rfl rfl
  have hsink : some sink ≠ some c := fun heq => hne (Option.some.inj heq)
  have howed : owed aware fuel g w session (.attach session' after sink) = [] := owed_of_quiet rfl rfl
  apply wpAt_bind
  apply wpAt_update
  apply wpAt_bind
  apply wpAt_update
  apply wpAt_bind
  apply wpAt_mem
  by_cases heq : session' = session
  · subst heq
    -- the other connection takes over
    have hcuts : Cuts c session' g ((g.setFlow session' (g.flowOf session')).setSinks session'
        { (g.setFlow session' (g.flowOf session')).sinksOf session' with cmd := some sink }) := by
      apply cuts_of_sinks
      · exact hflow.seat.setSinks (h.watchers session') fun hne' => absurd rfl hne'
      · rw [sinksOf_setSinks, if_pos rfl]
        exact hsink
      · rfl
      · rfl
    apply wpAt_seq (wpAt_sendAll_relays hcuts.seat hne _)
    intro alive g₁ w₁ hsent
    have hcuts₁ := hcuts.relays hsent
    have hends : Req.Ends session' none (.attach session' after sink : Req C) := Or.inl rfl
    apply wpAt_when
    · intro _
      apply wpAt_update
      refine ⟨fun hnot => absurd hends hnot, fun _ => hcuts₁.trans ?_, by simp⟩
      apply cuts_of_sinks
      · exact hcuts₁.seat.setSinks (hcuts₁.seat.watchers session') fun hne' => absurd rfl hne'
      · rw [sinksOf_setSinks, if_pos rfl]
        simp
      · rfl
      · rfl
    · exact fun _ => ⟨fun hnot => absurd hends hnot, fun _ => hcuts₁, by simp⟩
  · have hnot : ¬Req.Ends session none (.attach session' after sink : Req C) := by
      simp [Req.Ends, Req.Claims, Req.Closes, Req.Commands, heq]
    have hset : Relays c session [] g ((g.setFlow session' (g.flowOf session')).setSinks session'
        { (g.setFlow session' (g.flowOf session')).sinksOf session' with cmd := some sink }) :=
      hflow.trans (relays_setSinks_of_ne hflow.seat heq (h.watchers session') hsink)
    apply wpAt_seq (wpAt_sendAll_relays hset.seat hne _)
    intro alive g₁ w₁ hsent
    have hrelays := hset.trans hsent
    apply wpAt_when
    · intro _
      apply wpAt_update
      refine ⟨fun _ => ?_, fun hends => absurd hends hnot, by simp⟩
      rw [howed]
      exact hrelays.trans (relays_setSinks_of_ne hrelays.seat heq (hrelays.seat.watchers session') (by simp))
    · refine fun _ => ⟨fun _ => ?_, fun hends => absurd hends hnot, by simp⟩
      rw [howed]
      exact hrelays

/-- An entry that differs in its watchers only, of any session. -/
theorem relays_setWatchers (h : Seat c session g) (session' : UInt64) {watchers : List Sink} (hnot : c ∉ watchers) :
    Relays c session [] g (g.setSinks session' { g.sinksOf session' with watchers := watchers }) := by
  by_cases heq : session' = session
  · subst heq
    exact relays_setSinks h hnot rfl
  · exact relays_setSinks_of_ne h heq hnot (h.cmd session' heq)

theorem wpAt_watch_turn (h : Seat c session g) (session' : UInt64) (after : ℕ) {sink : Sink} (hne : sink ≠ c) :
    wpAt (Sequencer.watch session' after sink)
      (fun _ g' _ => Turn aware fuel c session g w (.watch session' after sink) none g') Err g w := by
  have hnot : ¬Req.Ends session none (.watch session' after sink : Req C) := by
    simp [Req.Ends, Req.Claims, Req.Closes, Req.Commands]
  have howed : owed aware fuel g w session (.watch session' after sink) = [] := owed_of_quiet rfl rfl
  have hack : Relays c session [] g (g.sending [(sink, .ack 0 0)]) := by
    apply relays_sending h
    apply sentTo_eq_nil
    intro p hp
    obtain rfl := List.mem_singleton.mp hp
    exact hne
  apply wpAt_bind
  apply Sequencer.wpAt_send
  apply wpAt_bind
  apply wpAt_update
  have hentered := hack.trans (relays_setWatchers hack.seat session' (hack.seat.watchers session'))
  apply wpAt_bind
  apply wpAt_mem
  apply wpAt_seq (wpAt_sendAll_relays hentered.seat hne _)
  intro alive g₁ w₁ hsent
  have hrelays := hentered.trans hsent
  apply wpAt_when
  · intro _
    apply wpAt_update
    refine ⟨fun _ => ?_, fun hends => absurd hends hnot, by simp⟩
    rw [howed]
    apply hrelays.trans (relays_setWatchers hrelays.seat session' _)
    intro hmem
    rcases List.mem_append.mp hmem with hmem | hmem
    · exact hrelays.seat.watchers session' hmem
    · exact hne (List.mem_singleton.mp hmem).symm
  · refine fun _ => ⟨fun _ => ?_, fun hends => absurd hends hnot, by simp⟩
    rw [howed]
    exact hrelays

theorem wpAt_close_turn (h : Seat c session g) (session' : UInt64) :
    wpAt (Sequencer.close aware fuel session')
      (fun failed g' _ => Turn aware fuel c session g w (.close session') failed g') Err g w := by
  obtain ⟨sinks, hsinks⟩ := dropCmd_eq g session'
  have hnode : (g.dropCmd session').node = g.node := by rw [hsinks]
  have hdropped : Seat c session (g.dropCmd session') := by
    have hset : Seat c session (g.setSinks session' { g.sinksOf session' with cmd := none }) :=
      h.setSinks (h.watchers session') (by simp)
    exact ⟨fun t => by rw [sinksOf_dropCmd]; exact hset.watchers t,
      fun t hne => by rw [sinksOf_dropCmd]; exact hset.cmd t hne⟩
  have hsent : (g.dropCmd session').sent = g.sent := by rw [hsinks]
  have hup : (g.dropCmd session').up = g.up := by rw [hsinks]
  have howed : ∀ e node w', Node.submit fuel (aware.input.symm (.sessionClosed session')) g.node w = .err e node w' →
      owed aware fuel g w session (.close session') = [] := by
    intro e node w' hrun
    apply owed_of_quiet rfl
    simp only [routes, submits, hrun]
  apply wpAt_bind
  apply wpAt_update
  apply wpAt_bind
  by_cases heq : session' = session
  · subst heq
    have hends : ∀ failed, Req.Ends session' failed (.close session' : Req C) := fun _ => Or.inr (Or.inl rfl)
    have hcuts : ∀ node, Cuts c session' g { g.dropCmd session' with node := node } := by
      intro node
      apply cuts_of_sinks
      · exact ⟨hdropped.watchers, hdropped.cmd⟩
      · show ((g.dropCmd session').sinksOf session').cmd ≠ some c
        rw [sinksOf_dropCmd, sinksOf_setSinks, if_pos rfl]
        simp
      · exact hsent
      · exact hup
    apply wpAt_onNode
    · rintro ⟨seq, outputs⟩ node w' _
      apply wpAt_seq (wpAt_routeEvents_relays (hcuts node).seat _)
      intro _ g₁ w₁ hrouted
      exact wpAt_pure ⟨fun hnot => absurd (hends _) hnot, fun _ => (hcuts node).relays hrouted, by simp⟩
    · intro e node w' hrun
      rw [hnode] at hrun
      exact wpAt_pure ⟨fun hnot => absurd (hends _) hnot, fun _ => hcuts node, fun _ => howed e node w' hrun⟩
  · have hnot : ∀ failed, ¬Req.Ends session failed (.close session' : Req C) := by
      simp [Req.Ends, Req.Claims, Req.Closes, Req.Commands, heq]
    have hself : (g.dropCmd session').sinksOf session = g.sinksOf session := by
      rw [sinksOf_dropCmd, sinksOf_setSinks, if_neg heq]
    have hrelays : ∀ node, Relays c session [] g { g.dropCmd session' with node := node } := by
      intro node
      refine ⟨[], ⟨by rw [List.append_nil]; exact hsent, hup, hdropped.watchers, hdropped.cmd⟩, ?_, ?_⟩
      · exact fun hcmd => Or.inr ⟨rfl, (congrArg SessionSinks.cmd hself).trans hcmd⟩
      · exact fun hcmd => ⟨rfl, fun hsome => hcmd ((congrArg SessionSinks.cmd hself).symm.trans hsome)⟩
    apply wpAt_onNode
    · rintro ⟨seq, outputs⟩ node w' hrun
      rw [hnode] at hrun
      have hroutes : routes aware fuel g w (.close session') = _ := routes_eq rfl hrun
      apply wpAt_seq (wpAt_routeEvents_relays (hrelays node).seat _)
      intro _ g₁ w₁ hrouted
      refine wpAt_pure ⟨fun _ => ?_, fun hends => absurd hends (hnot _), by simp⟩
      have hboth := (hrelays node).trans hrouted
      rw [List.nil_append, show Sequencer.sinksOf { g.dropCmd session' with node := node } session = _ from hself]
        at hboth
      rw [owed, hroutes]
      exact hboth
    · intro e node w' hrun
      rw [hnode] at hrun
      refine wpAt_pure ⟨fun _ => ?_, fun hends => absurd hends (hnot _), fun _ => howed e node w' hrun⟩
      rw [howed e node w' hrun]
      exact hrelays node

@[simp] theorem sinksOf_erase (g : Sequencer svc E) (session session' : UInt64) :
    ({ g with sinks := g.sinks.erase session } : Sequencer svc E).sinksOf session' =
      if session = session' then .new else g.sinksOf session' := by
  simp only [Sequencer.sinksOf, ExtTreeMap.getD_erase, LawfulEqCmp.compare_eq_iff_eq]

theorem Seat.erase (h : Seat c session g) (session' : UInt64) :
    Seat c session ({ g with sinks := g.sinks.erase session' } : Sequencer svc E) := by
  constructor
  · intro t
    rw [sinksOf_erase]
    split
    · simp [SessionSinks.new]
    · exact h.watchers t
  · intro t hne
    rw [sinksOf_erase]
    split
    · simp [SessionSinks.new]
    · exact h.cmd t hne

theorem wpAt_sequenceCmd_turn (h : Seat c session g) (session' clientSeq : UInt64) (cmd : C) (flow : SessionFlow) :
    wpAt (Sequencer.sequenceCmd aware fuel session' clientSeq cmd flow)
      (fun failed g' _ => match failed with
        | none => ∃ seq outputs node w',
            Node.submit fuel (aware.input.symm (.client session' clientSeq cmd)) g.node w =
              .ok (seq, outputs) node w' ∧
            Relays c session ((if session' = session then [.ack clientSeq.toNat seq] else []) ++
              eventMsgs (g.sinksOf session).nextEventSeq (addressedTo session (outputs.map aware.output))) g g'
        | some _ => (∃ e node w',
            Node.submit fuel (aware.input.symm (.client session' clientSeq cmd)) g.node w = .err e node w') ∧
            (session' = session → Cuts c session g g') ∧ (session' ≠ session → Relays c session [] g g')) Err g w := by
  apply wpAt_bind
  apply wpAt_onNode
  · rintro ⟨seq, outputs⟩ node w' hrun
    apply wpAt_bind
    apply wpAt_update
    have hacked : Relays c session [] g (({ g with node := node }).setFlow session' flow.onAcked) :=
      relays_of_sinks h (fun _ => rfl) rfl rfl
    apply wpAt_seq (wpAt_sendToCmd_relays hacked.seat session' _)
    rintro _ g₁ w₁ ⟨hreply, hnext⟩
    apply wpAt_seq (wpAt_routeEvents_relays hreply.seat _)
    intro _ g₂ w₂ hrouted
    refine wpAt_pure ⟨seq, outputs, node, w', hrun, ?_⟩
    rw [hnext] at hrouted
    exact hacked.trans (hreply.trans hrouted)
  · intro e node w' hrun
    apply wpAt_bind
    apply wpAt_update
    have herased : Seat c session { g with node := node, sinks := g.sinks.erase session' } :=
      ⟨(h.erase session').watchers, (h.erase session').cmd⟩
    refine wpAt_pure ⟨⟨e, node, w', hrun⟩, ?_, ?_⟩
    · rintro rfl
      apply cuts_of_sinks herased
      · show (Sequencer.sinksOf { g with sinks := g.sinks.erase session' } session').cmd ≠ some c
        rw [sinksOf_erase, if_pos rfl]
        simp [SessionSinks.new]
      · rfl
      · rfl
    · intro hne
      have hself : Sequencer.sinksOf { g with node := node, sinks := g.sinks.erase session' } session =
          g.sinksOf session := by
        show Sequencer.sinksOf { g with sinks := g.sinks.erase session' } session = _
        rw [sinksOf_erase, if_neg hne]
      refine ⟨[], ⟨(List.append_nil _).symm, rfl, herased⟩, fun hcmd => Or.inr ⟨rfl, ?_⟩, fun hcmd => ⟨rfl, ?_⟩⟩
      · rw [hself]
        exact hcmd
      · rw [hself]
        exact hcmd

theorem wpAt_refusal_turn (h : Seat c session g) (session' : UInt64) (msg : ServerMsg E) :
    wpAt (do
        Sequencer.sendToCmd session' msg
        pure none : GProg svc E (Option NodeError))
      (fun failed g' _ => failed = none ∧ Relays c session (if session' = session then [msg] else []) g g') Err g w := by
  apply wpAt_seq (wpAt_sendToCmd_relays h session' msg)
  rintro _ g' w' ⟨hrelays, -⟩
  exact wpAt_pure ⟨rfl, hrelays⟩

theorem wpAt_command_turn (h : Seat c session g) (session' clientSeq : UInt64) (cmd : C) :
    wpAt (Sequencer.command aware fuel session' clientSeq cmd)
      (fun failed g' _ => Turn aware fuel c session g w (.cmd session' clientSeq cmd) failed g') Err g w := by
  have hends : ∀ failed, Req.Ends session failed (.cmd session' clientSeq cmd : Req C) ↔
      session' = session ∧ failed ≠ none := by
    simp [Req.Ends, Req.Claims, Req.Closes, Req.Commands]
  apply wpAt_bind
  apply wpAt_mem
  split
  · exact wpAt_panic
  · next verdict flow hverdict =>
    have hadmitted : Relays c session [] g (g.setFlow session' flow) := relays_of_sinks h (fun _ => rfl) rfl rfl
    apply wpAt_bind
    apply wpAt_update
    -- a refusal submits nothing
    have hrefused : ∀ msg : ServerMsg E, submits aware g (.cmd session' clientSeq cmd) = none →
        replies aware fuel g w session (.cmd session' clientSeq cmd) =
          (if session' = session then [msg] else []) →
        wpAt (do
            Sequencer.sendToCmd session' msg
            pure none : GProg svc E (Option NodeError))
          (fun failed g' _ => Turn aware fuel c session g w (.cmd session' clientSeq cmd) failed g') Err
          (g.setFlow session' flow) w := by
      intro msg hsubmits hreplies
      apply wpAt_mono (wpAt_refusal_turn hadmitted.seat session' msg)
      · rintro failed g' w' ⟨rfl, hrelays⟩
        refine ⟨fun _ => ?_, fun h => absurd rfl ((hends none).mp h).2, by simp⟩
        rw [owed, hreplies, routes_none hsubmits]
        have hboth := hadmitted.trans hrelays
        rw [List.nil_append] at hboth
        simpa [addressedTo, eventMsgs, numberedFrom] using hboth
      · exact fun _ _ _ h => h
    cases verdict with
    | accept =>
      have hsubmits : submits aware g (.cmd session' clientSeq cmd) =
          some (aware.input.symm (.client session' clientSeq cmd)) := by
        simp only [submits, hverdict]
      apply wpAt_mono (wpAt_sequenceCmd_turn hadmitted.seat session' clientSeq cmd flow)
      · intro failed g' w' hdone
        cases failed with
        | none =>
          obtain ⟨seq, outputs, node, w'', hrun, hrelays⟩ := hdone
          refine ⟨fun _ => ?_, fun h => absurd rfl ((hends none).mp h).2, by simp⟩
          have hreplies : replies aware fuel g w session (.cmd session' clientSeq cmd) =
              if session' = session then [.ack clientSeq.toNat seq] else [] := by
            have hrun' : Node.submit fuel (aware.input.symm (.client session' clientSeq cmd)) g.node w = _ := hrun
            simp only [replies, hverdict, hrun']
          rw [owed, hreplies, routes_eq hsubmits hrun]
          exact hadmitted.trans hrelays
        | some e =>
          obtain ⟨⟨e', node, w'', hrun⟩, hcut, hkept⟩ := hdone
          have hrun' : Node.submit fuel (aware.input.symm (.client session' clientSeq cmd)) g.node w = _ := hrun
          have howed : owed aware fuel g w session (.cmd session' clientSeq cmd) = [] := by
            apply owed_of_quiet
            · simp only [replies, hverdict, hrun', ite_self]
            · simp only [routes, hsubmits, hrun']
          refine ⟨fun hnot => ?_, fun h => ?_, fun _ => howed⟩
          · have hne : session' ≠ session := fun heq => hnot ((hends _).mpr ⟨heq, by simp⟩)
            rw [howed]
            exact hadmitted.trans (hkept hne)
          · obtain ⟨rfl, -⟩ := (hends _).mp h
            obtain ⟨l, hmoves, hsent, hcmd⟩ := hcut rfl
            exact ⟨l, ⟨hmoves.sent, hmoves.up, hmoves.seat⟩, hsent, hcmd⟩
      · exact fun _ _ _ h => h
    | duplicate =>
      apply hrefused
      · simp only [submits, hverdict]
      · simp only [replies, hverdict]
    | gap expected =>
      apply hrefused
      · simp only [submits, hverdict]
      · simp only [replies, hverdict]
    | throttled =>
      apply hrefused
      · simp only [submits, hverdict]
      · simp only [replies, hverdict]

/-- **The step lemma**: a request that does not register the connection. -/
theorem wpAt_serve_turn (h : Seat c session g) (req : Req C) (hother : ∀ sink, req.sink = some sink → sink ≠ c) :
    wpAt (Sequencer.serve aware fuel req) (fun failed g' _ => Turn aware fuel c session g w req failed g') Err g w := by
  cases req with
  | attach session' after sink =>
    apply wpAt_seq (wpAt_attach_turn h session' after (hother sink rfl))
    exact fun _ _ _ h' => wpAt_pure h'
  | watch session' after sink =>
    apply wpAt_seq (wpAt_watch_turn h session' after (hother sink rfl))
    exact fun _ _ _ h' => wpAt_pure h'
  | cmd session' clientSeq cmd => exact wpAt_command_turn h session' clientSeq cmd
  | close session' => exact wpAt_close_turn h session'

/-- The connection itself attaches. -/
theorem wpAt_attach_own (h : Seat c session g) (after : ℕ) :
    wpAt (Sequencer.attach session after c)
      (fun _ g' _ => ∃ l, Moves c session l g g' ∧
        ((g'.sinksOf session).cmd = some c ∨ g.Lost l c)) Err g w := by
  have hset : ∀ (g : Sequencer svc E) cmd, Seat c session g →
      Seat c session (g.setSinks session { g.sinksOf session with cmd := cmd }) :=
    fun g cmd h => h.setSinks (h.watchers session) fun hne => absurd rfl hne
  apply wpAt_bind
  apply wpAt_update
  apply wpAt_bind
  apply wpAt_update
  apply wpAt_bind
  apply wpAt_mem
  apply wpAt_bind
  apply Sequencer.wpAt_sendAll
  intro alive l _ _ hlost
  have hentered := hset (g.setFlow session (g.flowOf session)) (some c) ⟨h.watchers, h.cmd⟩
  apply wpAt_when
  · intro hdead
    apply wpAt_update
    exact ⟨_, ⟨rfl, rfl, hset _ none (hentered.sending _)⟩, Or.inr (hlost hdead)⟩
  · intro _
    refine ⟨_, ⟨rfl, rfl, hentered.sending _⟩, Or.inl ?_⟩
    rw [sinksOf_sending, sinksOf_setSinks, if_pos rfl]

end Programs

/-! ## Whole runs -/

section Runs

variable {aware : SessionAware svc C E} {config : ServeConfig} {up : ℕ → Bool} {g : Sequencer svc E}
  {trace : List (Served C)} {c : Sink} {session : UInt64}

theorem Continues.sink {conn : Sink} {req : Req C} (h : Continues trace conn req) {sink : Sink}
    (hsink : req.sink = some sink) : sink = conn ∧ conn ∉ trace.map (·.conn) := by
  cases req with
  | attach session after sink' =>
    obtain rfl := Option.some.inj hsink
    exact h
  | watch session after sink' =>
    obtain rfl := Option.some.inj hsink
    exact h
  | cmd session clientSeq cmd => cases hsink
  | close session => cases hsink

/-- A request of a connection that is not `c`, under the seat of `c`. -/
theorem Seat.turn (h : Seat c session g) {fuel : ℕ} {conn : Sink} {req : Req C} {w w' : World JStore}
    {failed : Option NodeError} {g' : Sequencer svc E} (hnext : Continues trace conn req)
    (hother : c ∈ trace.map (·.conn) ∨ conn ≠ c) (hserve : Sequencer.serve aware fuel req g w = .ok failed g' w') :
    Turn aware fuel c session g w req failed g' := by
  have hsinks : ∀ sink, req.sink = some sink → sink ≠ c := by
    rintro sink hsink rfl
    obtain ⟨rfl, hnew⟩ := hnext.sink hsink
    exact hother.elim hnew fun hne => hne rfl
  have hstep : wpAt (Sequencer.serve aware fuel req) _ (fun _ _ _ => True) g w := wpAt_serve_turn h req hsinks
  exact wpAt_ok hstep hserve

/-- A connection of which nothing was served has no seat. -/
theorem Interleaved.absent (h : Interleaved aware config up g trace) (hnew : c ∉ trace.map (·.conn))
    (session : UInt64) : Seat c session g ∧ (g.sinksOf session).cmd ≠ some c := by
  induction h with
  | start hstart =>
    obtain ⟨flows, -, rfl⟩ := Option.map_eq_some_iff.mp hstart
    refine ⟨⟨?_, ?_⟩, ?_⟩ <;> simp [Sequencer.sinksOf, SessionSinks.new]
  | served fuel conn req _ hnext hserve ih =>
    rw [List.map_append, List.mem_append, not_or] at hnew
    obtain ⟨hseat, hcmd⟩ := ih hnew.1
    have hne : conn ≠ c := fun heq => hnew.2 (by simp [heq])
    obtain ⟨l, hmoves, hnot⟩ := (hseat.turn hnext (Or.inr hne) hserve).moves
    exact ⟨hmoves.seat, hnot hcmd⟩

/-- Sends are answered in order. -/
theorem Interleaved.ticks (h : Interleaved aware config up g trace) : g.up = fun i => up (i + g.sent.length) := by
  induction h with
  | start hstart =>
    obtain ⟨flows, -, rfl⟩ := Option.map_eq_some_iff.mp hstart
    rfl
  | @served _ _ g g' trace _ fuel conn req hrun hnext hserve ih =>
    -- seen from a connection that does not exist
    obtain ⟨c, hc⟩ := Infinite.exists_notMem_finset (conn :: trace.map (·.conn)).toFinset
    rw [List.mem_toFinset, List.mem_cons, not_or] at hc
    obtain ⟨l, hmoves, -⟩ := ((hrun.absent hc.2 0).1.turn hnext (Or.inr (Ne.symm hc.1)) hserve).moves
    rw [hmoves.up, ih, hmoves.sent]
    funext i
    show up (i + l.length + g.sent.length) = up (i + (g.sent ++ l).length)
    rw [List.length_append, Nat.add_assoc, Nat.add_comm l.length]

theorem Interleaved.failed (h : Interleaved aware config up g trace) {g' : Sequencer svc E}
    {l : List (Sink × ServerMsg E)} (hmoves : Moves c session l g g') (hlost : g.Lost l c) :
    Failed up g'.sent c := by
  rw [hmoves.sent]
  exact .of_lost h.ticks hlost

/-- **The run lemma**: a connection that attached keeps its seat until the first request that ends it, or a send to
it fails. -/
theorem Interleaved.seated (h : Interleaved aware config up g trace) {before later : List (Served C)} {after : ℕ}
    (htrace : trace = before ++ ⟨c, .attach session after c, none⟩ :: later) :
    Seat c session g ∧
      ((∀ x ∈ later, ¬x.req.Ends session x.failed) → (g.sinksOf session).cmd = some c ∨ Failed up g.sent c) ∧
      ((∃ x ∈ later, x.req.Ends session x.failed) → (g.sinksOf session).cmd ≠ some c) := by
  induction h generalizing later with
  | start => simp at htrace
  | @served w _ g g' trace failed fuel conn req hrun hnext hserve ih =>
    rcases List.eq_nil_or_concat later with rfl | ⟨later, x, rfl⟩
    · -- the connection attaches now
      obtain ⟨rfl, hx⟩ := List.append_inj' htrace rfl
      obtain ⟨⟨⟩⟩ := List.singleton_inj.mp hx
      have hseat := (hrun.absent (hnext.sink rfl).2 session).1
      have hstep : wpAt (Sequencer.serve aware fuel (.attach session after c))
          (fun _ g' _ => ∃ l, Moves c session l g g' ∧ ((g'.sinksOf session).cmd = some c ∨ g.Lost l c))
          (fun _ _ _ => True) g w :=
        wpAt_seq (wpAt_attach_own hseat after) fun _ _ _ h => wpAt_pure h
      obtain ⟨l, hmoves, hcmd⟩ := wpAt_ok hstep hserve
      exact ⟨hmoves.seat, fun _ => hcmd.imp_right (hrun.failed hmoves), by simp⟩
    · rw [List.concat_eq_append] at htrace ⊢
      rw [← List.cons_append, ← List.append_assoc] at htrace
      obtain ⟨hbefore, hx⟩ := List.append_inj' htrace rfl
      obtain rfl := List.singleton_inj.mp hx
      obtain ⟨hseat, hkept, hcut⟩ := ih hbefore
      have hold : c ∈ trace.map (·.conn) := by simp [hbefore]
      have hturn := hseat.turn hnext (Or.inl hold) hserve
      obtain ⟨l, hmoves, hnot⟩ := hturn.moves
      refine ⟨hmoves.seat, fun hall => ?_, ?_⟩
      · have hreq := hall _ (List.mem_append_right _ (List.mem_singleton_self _))
        obtain ⟨l', hmoves', hseated, -⟩ := hturn.relays hreq
        rcases hkept fun x hx => hall x (List.mem_append_left _ hx) with hcmd | hfailed
        · exact (hseated hcmd).symm.imp (fun hboth => hboth.2) (hrun.failed hmoves')
        · right
          rw [hmoves.sent]
          exact hfailed.append l
      · rintro ⟨x, hx, hends⟩
        rcases List.mem_append.mp hx with hx | hx
        · exact hnot (hcut ⟨x, hx, hends⟩)
        · obtain rfl := List.mem_singleton.mp hx
          exact (hturn.cuts hends).choose_spec.2.2

/-- **When a session's traffic reaches its connection.** A connection attached to a session, and neither was the
session attached again nor did the connection close since. The reply and the events that the next request calls for
are sent to it exactly if no other connection of the session was closed since, nor by this request, and no command of
the session failed to be sequenced. -/
theorem reply_reaches_attached {before later : List (Served C)} {after fuel : ℕ} {conn : Sink} {req : Req C}
    {w w' : World JStore} {failed : Option NodeError} {g' : Sequencer svc E}
    (hrun : Interleaved aware config up g (before ++ ⟨c, .attach session after c, none⟩ :: later))
    (hnext : Continues (before ++ ⟨c, .attach session after c, none⟩ :: later) conn req)
    (hserve : Sequencer.serve aware fuel req g w = .ok failed g' w')
    (hlatest : ∀ x ∈ later ++ [⟨conn, req, failed⟩],
      ¬x.req.Claims session ∧ ¬(x.conn = c ∧ x.req.Closes session))
    (hlive : ¬Failed up g'.sent c) (howed : owed aware fuel g w session req ≠ []) :
    sentTo c (g'.sent.drop g.sent.length) = owed aware fuel g w session req ↔
      (∀ x ∈ later ++ [⟨conn, req, failed⟩], ¬x.req.Closes session) ∧
        ∀ x ∈ later, ¬(x.req.Commands session ∧ x.failed ≠ none) := by
  obtain ⟨hseat, hkept, hcut⟩ := hrun.seated rfl
  have hturn := hseat.turn hnext (Or.inl (by simp)) hserve
  have hdone : failed = none := by
    by_contra hfailed
    exact howed (hturn.quiet hfailed)
  subst hdone
  constructor
  · intro hsent
    have hnocut : ¬Cuts c session g g' := by
      rintro ⟨l, hmoves, hnone, -⟩
      rw [hmoves.sent, List.drop_left, hnone] at hsent
      exact howed hsent.symm
    have hreq : ¬req.Ends session none := fun hends => hnocut (hturn.cuts hends)
    have hlater : ∀ x ∈ later, ¬x.req.Ends session x.failed := by
      intro x hx hends
      obtain ⟨l, hmoves, -, hnot⟩ := hturn.relays hreq
      obtain ⟨hnone, -⟩ := hnot (hcut ⟨x, hx, hends⟩)
      rw [hmoves.sent, List.drop_left, hnone] at hsent
      exact howed hsent.symm
    constructor
    · intro x hx hcloses
      rcases List.mem_append.mp hx with hx | hx
      · exact hlater x hx (Or.inr (Or.inl hcloses))
      · obtain rfl := List.mem_singleton.mp hx
        exact hreq (Or.inr (Or.inl hcloses))
    · exact fun x hx hfailed => hlater x hx (Or.inr (Or.inr hfailed))
  · rintro ⟨hcloses, hfailed⟩
    have hlater : ∀ x ∈ later, ¬x.req.Ends session x.failed := by
      rintro x hx (hclaims | hclose | hfail)
      · exact (hlatest x (List.mem_append_left _ hx)).1 hclaims
      · exact hcloses x (List.mem_append_left _ hx) hclose
      · exact hfailed x hx hfail
    have hreq : ¬req.Ends session none := by
      rintro (hclaims | hclose | ⟨-, hfail⟩)
      · exact (hlatest _ (List.mem_append_right _ (List.mem_singleton_self _))).1 hclaims
      · exact hcloses _ (List.mem_append_right _ (List.mem_singleton_self _)) hclose
      · exact hfail rfl
    obtain ⟨l, hmoves, hseated, -⟩ := hturn.relays hreq
    have hcmd : (g.sinksOf session).cmd = some c := by
      apply (hkept hlater).resolve_right
      intro hdown
      apply hlive
      rw [hmoves.sent]
      exact hdown.append l
    obtain ⟨hsent, -⟩ := (hseated hcmd).resolve_left fun hlost => hlive (hrun.failed hmoves hlost)
    rw [hmoves.sent, List.drop_left, hsent]

end Runs

/-- A gateway starts on an empty directory, connection 1 claims session 7, two more requests are served, and then a
command of the session. Returned are the gateway and the world in front of the command and behind it. -/
def reconnecting (second third : Req UInt64) :
    Option ((Sequencer echo UInt64 × World JStore) × (Sequencer echo UInt64 × World JStore)) := do
  let (node, _, w₀) ← ((Node.openWith ⟨⟨1024, .everyFrame⟩, 1, none, 1, none⟩ () (fun _ => 5) :
    Prog Unit JStore NodeError (Node echo)) () (.healthy ⟨Disk.empty, History.fresh⟩)).returned
  let g₀ ← Sequencer.start node {} fun _ => true
  let (r₁, g₁, w₁) ← (Sequencer.serve echoAware 4 (.attach 7 0 1) g₀ w₀).returned
  let (r₂, g₂, w₂) ← (Sequencer.serve echoAware 4 second g₁ w₁).returned
  let (r₃, g₃, w₃) ← (Sequencer.serve echoAware 4 third g₂ w₂).returned
  let (r₄, g₄, w₄) ← (Sequencer.serve echoAware 4 (.cmd 7 1 9) g₃ w₃).returned
  if r₁.isNone ∧ r₂.isNone ∧ r₃.isNone ∧ r₄.isNone then some ((g₃, w₃), (g₄, w₄)) else none

theorem Interleaved.reconnecting {second third : Req UInt64} (conn₂ conn₃ : Sink) {g g' : Sequencer echo UInt64}
    {w w' : World JStore} (h : Gateway.reconnecting second third = some ((g, w), (g', w')))
    (hsecond : Continues [⟨1, .attach 7 0 1, none⟩] conn₂ second)
    (hthird : Continues [⟨1, .attach 7 0 1, none⟩, ⟨conn₂, second, none⟩] conn₃ third) :
    Interleaved echoAware {} (fun _ => true) g
        [⟨1, .attach 7 0 1, none⟩, ⟨conn₂, second, none⟩, ⟨conn₃, third, none⟩] ∧
      Sequencer.serve echoAware 4 (.cmd 7 1 9) g w = .ok none g' w' := by
  simp only [Gateway.reconnecting, bind, Option.bind_eq_some_iff] at h
  obtain ⟨⟨node, _, w₀⟩, -, g₀, hstart, ⟨r₁, g₁, w₁⟩, h₁, ⟨r₂, g₂, w₂⟩, h₂, ⟨r₃, g₃, w₃⟩, h₃, ⟨r₄, g₄, w₄⟩, h₄, h⟩ := h
  obtain ⟨⟨hr₁, hr₂, hr₃, hr₄⟩, heq⟩ := Option.ite_none_right_eq_some.mp h
  obtain rfl := Option.isNone_iff_eq_none.mp hr₁
  obtain rfl := Option.isNone_iff_eq_none.mp hr₂
  obtain rfl := Option.isNone_iff_eq_none.mp hr₃
  obtain rfl := Option.isNone_iff_eq_none.mp hr₄
  cases heq
  rw [Outcome.returned_eq_some] at h₁ h₂ h₃ h₄
  have hfirst := (Interleaved.start hstart).served 4 1 (.attach 7 0 1) ⟨rfl, by simp⟩ h₁
  exact ⟨(hfirst.served 4 conn₂ second hsecond h₂).served 4 conn₃ third hthird h₃, h₄⟩

/-- The old connection is closed before the new one attaches: the command is answered. -/
theorem reply_reaches_reconnected : ∃ (g g' : Sequencer echo UInt64) (w : World JStore),
    Interleaved echoAware {} (fun _ => true) g
      [⟨1, .attach 7 0 1, none⟩, ⟨1, .close 7, none⟩, ⟨2, .attach 7 0 2, none⟩] ∧
    owed echoAware 4 g w 7 (.cmd 7 1 9) ≠ [] ∧
    sentTo 2 (g'.sent.drop g.sent.length) = owed echoAware 4 g w 7 (.cmd 7 1 9) := by
  have hrun : (reconnecting (.close 7) (.attach 7 0 2)).any (fun p =>
      (owed echoAware 4 p.1.1 p.1.2 7 (.cmd 7 1 9)).length == 2) = true := by decide +kernel
  obtain ⟨⟨⟨g, w⟩, g', w'⟩, hrun, hend⟩ := (Option.any_eq_true _ _).mp hrun
  have hopen : Continues [⟨1, .attach 7 0 1, none⟩] 1 (.close 7 : Req UInt64) := by
    constructor <;> simp [Req.Claims, Req.Closes]
  obtain ⟨hbefore, hserve⟩ := Interleaved.reconnecting 1 2 hrun hopen ⟨rfl, by simp⟩
  have howed : owed echoAware 4 g w 7 (.cmd 7 1 9) ≠ [] := by
    intro hnil
    simp [hnil] at hend
  have hlive : ¬Failed (fun _ => true) g'.sent 2 := by
    rintro ⟨i, msg, -, hdown⟩
    cases hdown
  have hnext : Continues [⟨1, .attach 7 0 1, none⟩, ⟨1, .close 7, none⟩, ⟨2, .attach 7 0 2, none⟩] 2
      (.cmd 7 1 9 : Req UInt64) := by
    constructor <;> simp [Req.Claims, Req.Closes]
  have hattached : Interleaved echoAware {} (fun _ => true) g
      ([⟨1, .attach 7 0 1, none⟩, ⟨1, .close 7, none⟩] ++ ⟨2, .attach 7 0 2, none⟩ :: []) := hbefore
  have hiff := reply_reaches_attached hattached hnext hserve (by simp [Req.Claims, Req.Closes]) hlive howed
  exact ⟨g, g', w, hbefore, howed, hiff.mpr (by simp [Req.Closes])⟩

/-- The old connection is closed behind the attach of the new one: the command of the new connection is sequenced, and
nothing of it is sent there. -/
theorem stale_close_detaches : ∃ (g g' : Sequencer echo UInt64) (w w' : World JStore),
    Interleaved echoAware {} (fun _ => true) g
      [⟨1, .attach 7 0 1, none⟩, ⟨2, .attach 7 0 2, none⟩, ⟨1, .close 7, none⟩] ∧
    Continues [⟨1, .attach 7 0 1, none⟩, ⟨2, .attach 7 0 2, none⟩, ⟨1, .close 7, none⟩] 2
      (.cmd 7 1 9 : Req UInt64) ∧
    Sequencer.serve echoAware 4 (.cmd 7 1 9) g w = .ok none g' w' ∧
    ¬Failed (fun _ => true) g'.sent 2 ∧ owed echoAware 4 g w 7 (.cmd 7 1 9) ≠ [] ∧
    sentTo 2 (g'.sent.drop g.sent.length) ≠ owed echoAware 4 g w 7 (.cmd 7 1 9) := by
  have hrun : (reconnecting (.attach 7 0 2) (.close 7)).any (fun p =>
      (owed echoAware 4 p.1.1 p.1.2 7 (.cmd 7 1 9)).length == 2 &&
        (sentTo 2 (p.2.1.sent.drop p.1.1.sent.length)).isEmpty) = true := by decide +kernel
  obtain ⟨⟨⟨g, w⟩, g', w'⟩, hrun, hend⟩ := (Option.any_eq_true _ _).mp hrun
  rw [Bool.and_eq_true, beq_iff_eq, List.isEmpty_iff] at hend
  obtain ⟨hlength, hnone⟩ := hend
  have hthird : Continues [⟨1, .attach 7 0 1, none⟩, ⟨2, .attach 7 0 2, none⟩] 1 (.close 7 : Req UInt64) := by
    constructor <;> simp [Req.Claims, Req.Closes]
  obtain ⟨hbefore, hserve⟩ := Interleaved.reconnecting 2 1 hrun ⟨rfl, by simp⟩ hthird
  have howed : owed echoAware 4 g w 7 (.cmd 7 1 9) ≠ [] := by
    intro hnil
    simp [hnil] at hlength
  refine ⟨g, g', w, w', hbefore, ?_, hserve, ?_, howed, ?_⟩
  · constructor <;> simp [Req.Claims, Req.Closes]
  · rintro ⟨i, msg, -, hdown⟩
    cases hdown
  · rw [hnone]
    exact Ne.symm howed

end Ticktape.Gateway
