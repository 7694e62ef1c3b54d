import Ticktape.Gateway.Server
import Ticktape.Runtime.Inputs

/-!
# Exactly-once admission

The dedup state lives in the gateway, the truth in the journal. `Aligned` ties the two: a session
expects the number after its last journaled one, and nothing is outstanding between requests. Every
request keeps it, whoever sends it, and a restart from the journaled numbers restores it; so the
commands of a session are journaled once each, in the order of their numbers.
-/

namespace Ticktape.Gateway

open Std Ticktape.Lib Ticktape.Core Ticktape.Journal Ticktape.Runtime
open Node (inputsOf)

variable {svc : Service} {C E α β : Type} {F : Fate → Prop}

/-! ## The commands of a session -/

/-- The number of a command that `session` sent. -/
def clientSeqOf (aware : SessionAware svc C E) (session : UInt64) (input : svc.Input) : Option ℕ :=
  match aware.input input with
  | .client session' clientSeq _ => if session' = session then some clientSeq.toNat else none
  | .sessionClosed _ => none

/-- The numbers of the commands of `session`, in the order they were sequenced. -/
def clientSeqs (aware : SessionAware svc C E) (session : UInt64) (inputs : List svc.Input) : List ℕ :=
  inputs.filterMap (clientSeqOf aware session)

/-- **Exactly once**: each session's commands are numbered 1, 2, and so on. -/
def ExactlyOnce (aware : SessionAware svc C E) (inputs : List svc.Input) : Prop :=
  ∀ session, clientSeqs aware session inputs
    = List.range' 1 (clientSeqs aware session inputs).length

section Inputs

variable {aware : SessionAware svc C E} {inputs : List svc.Input} {session : UInt64}

theorem clientSeqs_append (inputs' : List svc.Input) :
    clientSeqs aware session (inputs ++ inputs')
      = clientSeqs aware session inputs ++ clientSeqs aware session inputs' :=
  List.filterMap_append

theorem clientSeqs_client (clientSeq : UInt64) (cmd : C) (session' : UInt64) :
    clientSeqs aware session' (inputs ++ [aware.input.symm (.client session clientSeq cmd)])
      = clientSeqs aware session' inputs ++ if session = session' then [clientSeq.toNat] else [] := by
  rw [clientSeqs_append]
  by_cases h : session = session' <;> simp [clientSeqs, clientSeqOf, h]

theorem clientSeqs_closed (session' : UInt64) :
    clientSeqs aware session' (inputs ++ [aware.input.symm (.sessionClosed session)])
      = clientSeqs aware session' inputs := by
  rw [clientSeqs_append]
  simp [clientSeqs, clientSeqOf]

theorem ExactlyOnce.nil : ExactlyOnce aware ([] : List svc.Input) := fun _ => rfl

theorem ExactlyOnce.client (h : ExactlyOnce aware inputs) {clientSeq : UInt64} (cmd : C)
    (hnext : clientSeq.toNat = (clientSeqs aware session inputs).length + 1) :
    ExactlyOnce aware (inputs ++ [aware.input.symm (.client session clientSeq cmd)]) := by
  intro session'
  rw [clientSeqs_client]
  by_cases hs : session = session'
  · subst hs
    rw [if_pos rfl, hnext, List.length_append, List.length_singleton, List.range'_concat, ← h session]
    simp [Nat.add_comm]
  · rw [if_neg hs, List.append_nil]
    exact h session'

theorem ExactlyOnce.closed (h : ExactlyOnce aware inputs) :
    ExactlyOnce aware (inputs ++ [aware.input.symm (.sessionClosed session)]) := by
  intro session'
  rw [clientSeqs_closed]
  exact h session'

/-- A history cut short still has each session's commands once. -/
theorem ExactlyOnce.take {inputs' : List svc.Input} (h : ExactlyOnce aware inputs)
    (hle : inputs' <+: inputs) : ExactlyOnce aware inputs' := by
  intro session
  obtain ⟨rest, hrest⟩ := hle
  have hall := h session
  rw [← hrest, clientSeqs_append] at hall
  -- what is in front of a range is a range
  obtain ⟨k, -, hk, -⟩ := List.range'_eq_append_iff.mp hall.symm
  rw [hk, List.length_range']

theorem mem_clientSeqs (h : ExactlyOnce aware inputs) {k : ℕ} :
    k ∈ clientSeqs aware session inputs ↔ 1 ≤ k ∧ k ≤ (clientSeqs aware session inputs).length := by
  rw [h session]
  simp
  omega

end Inputs

/-! ## What leaves the admission state alone -/

/-- `g'` is `g` after some messages, all of them as `M` says, were sent. -/
structure Edged (M : ServerMsg E → Prop) (g g' : Sequencer svc E) : Prop where
  node : g'.node = g.node
  flows : ∀ session, g'.flowOf session = g.flowOf session
  sent : ∃ more, g'.sent = g.sent ++ more ∧ ∀ m ∈ more, M m.2

section Edge

variable {M : ServerMsg E → Prop} {g g' g'' : Sequencer svc E}

theorem Edged.refl (g : Sequencer svc E) : Edged M g g := ⟨rfl, fun _ => rfl, [], by simp, by simp⟩

theorem Edged.trans (h : Edged M g g') (h' : Edged M g' g'') : Edged M g g'' := by
  obtain ⟨more, hmore, hall⟩ := h.sent
  obtain ⟨more', hmore', hall'⟩ := h'.sent
  refine ⟨h'.node.trans h.node, fun s => (h'.flows s).trans (h.flows s), more ++ more', ?_, ?_⟩
  · rw [hmore', hmore, List.append_assoc]
  · intro m hm
    exact (List.mem_append.mp hm).elim (hall m) (hall' m)

/-- The program only sends messages, all of them as `M` says. -/
def Quiet (F : Fate → Prop) (M : ServerMsg E → Prop) (p : GProg svc E α) : Prop :=
  ∀ (g : Sequencer svc E) (s : JStore),
    wp F p (fun _ g' s' => Edged M g g' ∧ s' = s) (fun _ _ _ => False) (fun _ => False) g s

theorem Quiet.pure (a : α) : Quiet F M (pure a : GProg svc E α) := fun g _ => wp_pure ⟨.refl g, rfl⟩

theorem Quiet.bind {p : GProg svc E α} {f : α → GProg svc E β} (hp : Quiet F M p)
    (hf : ∀ a, Quiet F M (f a)) : Quiet F M (p >>= f) := by
  intro g s
  apply wp_seq (hp g s)
  rintro a g' s' ⟨hedge, rfl⟩
  exact wp_mono (hf a g' s') (fun _ _ _ h => ⟨hedge.trans h.1, h.2⟩) (fun _ _ _ h => h) fun _ h => h

theorem Quiet.mem : Quiet F M (Prog.mem : GProg svc E (Sequencer svc E)) := fun g _ => wp_mem ⟨.refl g, rfl⟩

theorem Quiet.update {f : Sequencer svc E → Sequencer svc E} (h : ∀ g, Edged M g (f g)) :
    Quiet F M (Prog.update f : GProg svc E Unit) := fun g _ => wp_update ⟨h g, rfl⟩

theorem Quiet.when {c : Prop} [Decidable c] {p : GProg svc E Unit} (h : Quiet F M p) :
    Quiet F M (Prog.when c p) := fun g s => wp_when (fun _ => h g s) fun _ => ⟨.refl g, rfl⟩

theorem edged_setSinks (g : Sequencer svc E) (session : UInt64) (entry : SessionSinks E) :
    Edged M g (g.setSinks session entry) := ⟨rfl, fun _ => rfl, [], by simp [Sequencer.setSinks], by simp⟩

namespace Sequencer

theorem quiet_send (sink : Sink) {msg : ServerMsg E} (h : M msg) :
    Quiet F M (send sink msg : GProg svc E Bool) := by
  apply Quiet.mem.bind
  intro g
  have hsent : ∀ g : Sequencer svc E,
      Edged M g { g with up := fun i => g.up (i + 1), sent := g.sent ++ [(sink, msg)] } :=
    fun g => ⟨rfl, fun _ => rfl, [(sink, msg)], rfl, by simpa using h⟩
  exact (Quiet.update hsent).bind fun _ => .pure _

theorem quiet_sendAll (sink : Sink) {msgs : List (ServerMsg E)} (h : ∀ msg ∈ msgs, M msg) :
    Quiet F M (sendAll sink msgs : GProg svc E Bool) := by
  induction msgs with
  | nil => exact .pure _
  | cons msg rest ih =>
    apply (quiet_send sink (h msg (by simp))).bind
    intro alive
    cases alive with
    | false => exact .pure _
    | true => exact ih fun m hm => h m (by simp [hm])

theorem quiet_sendWatchers {msg : ServerMsg E} (h : M msg) (sinks : List Sink) :
    Quiet F M (sendWatchers msg sinks : GProg svc E (List Sink)) := by
  induction sinks with
  | nil => exact .pure _
  | cons sink rest ih => exact (quiet_send sink h).bind fun _ => ih.bind fun _ => .pure _

theorem quiet_sendCmd (cmd : Option Sink) {msg : ServerMsg E} (h : M msg) :
    Quiet F M (sendCmd cmd msg : GProg svc E (Option Sink)) := by
  cases cmd with
  | none => exact .pure _
  | some sink => exact (quiet_send sink h).bind fun _ => .pure _

theorem quiet_sendToCmd (session : UInt64) {msg : ServerMsg E} (h : M msg) :
    Quiet F M (sendToCmd session msg : GProg svc E Unit) := by
  apply Quiet.mem.bind
  intro g
  split
  · exact .pure _
  · exact (quiet_sendCmd _ h).bind fun _ => .update fun g => edged_setSinks g _ _

/-- Routing events sends events only. -/
theorem quiet_routeEvents (hM : ∀ n event, M (.event n event)) (events : List (Addressed E)) :
    Quiet F M (routeEvents events : GProg svc E Unit) := by
  induction events with
  | nil => exact .pure _
  | cons addressed rest ih =>
    refine Quiet.bind ?_ fun _ => ih
    apply Quiet.mem.bind
    intro g
    apply (quiet_sendCmd _ (hM _ _)).bind
    intro cmd
    apply (quiet_sendWatchers (hM _ _) _).bind
    intro watchers
    exact .update fun g => edged_setSinks g _ _

theorem quiet_replay (hM : ∀ n event, M (.event n event)) (sink : Sink) (entry : SessionSinks E)
    (after : ℕ) : Quiet F M (sendAll sink (entry.replayAfter after) : GProg svc E Bool) := by
  apply quiet_sendAll
  intro msg hmsg
  obtain ⟨e, -, rfl⟩ := List.mem_map.mp hmsg
  exact hM _ _

@[simp] theorem flowOf_setFlow (g : Sequencer svc E) (session session' : UInt64) (flow : SessionFlow) :
    (g.setFlow session flow).flowOf session' = if session = session' then flow else g.flowOf session' := by
  simp only [flowOf, setFlow, ExtTreeMap.getD_insert, LawfulEqCmp.compare_eq_iff_eq]

theorem quiet_attach (hM : ∀ n event, M (.event n event)) (session : UInt64) (fromEventSeq : ℕ)
    (sink : Sink) : Quiet F M (attach session fromEventSeq sink : GProg svc E Unit) := by
  have hopen : ∀ g : Sequencer svc E, Edged M g (g.setFlow session (g.flowOf session)) := by
    intro g
    refine ⟨rfl, fun session' => ?_, [], by simp [setFlow], by simp⟩
    rw [flowOf_setFlow]
    split
    · next heq => rw [heq]
    · rfl
  apply (Quiet.update hopen).bind
  intro _
  apply (Quiet.update fun g => edged_setSinks g _ _).bind
  intro _
  apply Quiet.mem.bind
  intro g
  apply (quiet_replay hM _ _ _).bind
  intro alive
  exact .when (.update fun g => edged_setSinks g _ _)

theorem quiet_watch (hM : ∀ n event, M (.event n event)) (hack : M (.ack 0 0)) (session : UInt64)
    (fromEventSeq : ℕ) (sink : Sink) :
    Quiet F M (watch session fromEventSeq sink : GProg svc E Unit) := by
  apply (quiet_send sink hack).bind
  intro _
  apply (Quiet.update fun g => edged_setSinks g _ _).bind
  intro _
  apply Quiet.mem.bind
  intro g
  apply (quiet_replay hM _ _ _).bind
  intro alive
  exact .when (.update fun g => edged_setSinks g _ _)

end Sequencer

end Edge

/-! ## Alignment -/

/-- The inputs in the journal. -/
abbrev journaled (svc : Service) (s : JStore) : List svc.Input := inputsOf svc s.ghost.tape

/-- **Between requests**, every session expects the number after its last journaled one, and none
of its commands is outstanding. -/
structure Aligned (aware : SessionAware svc C E) (g : Sequencer svc E) (s : JStore) : Prop where
  exact : ExactlyOnce aware (journaled svc s)
  next : ∀ session,
    (g.flowOf session).next = (clientSeqs aware session (journaled svc s)).length + 1
  idle : ∀ session, (g.flowOf session).outstanding = 0
  window : ∀ session, 1 ≤ (g.flowOf session).window

/-- How a refusal relates to the `n` commands the session has journaled. -/
def Refuses (n clientSeq : ℕ) : RejectReason → Prop
  | .duplicate => clientSeq ≤ n
  | .gap expected => expected = n + 1 ∧ n + 1 < clientSeq
  | .throttled => False

/-- The message refuses nothing. -/
def NotRejected (msg : ServerMsg E) : Prop := ∀ clientSeq reason, msg ≠ .rejected clientSeq reason

/-- What became of a command. -/
inductive Handled (aware : SessionAware svc C E) (session clientSeq : UInt64) (cmd : C)
    (g : Sequencer svc E) (s : JStore) : Option NodeError → Sequencer svc E → JStore → Prop
  /-- It was refused: nothing is journaled, and the admission state is what it was. -/
  | refused {g' : Sequencer svc E} {s' : JStore} (reason : RejectReason)
      (hreason : Refuses (clientSeqs aware session (journaled svc s)).length clientSeq.toNat reason)
      (hedge : Edged (· = .rejected clientSeq.toNat reason) g g') (hs : s' = s) :
      Handled aware session clientSeq cmd g s none g' s'
  /-- It was the next command of its session, and its envelope is the next input. -/
  | accepted {g' : Sequencer svc E} {s' : JStore}
      (hnext : clientSeq.toNat = (clientSeqs aware session (journaled svc s)).length + 1)
      (hinputs : journaled svc s' = journaled svc s ++
        [aware.input.symm (.client session clientSeq cmd)])
      (haligned : Aligned aware g' s')
      (hsent : ∃ more, g'.sent = g.sent ++ more ∧ ∀ m ∈ more, NotRejected m.2) :
      Handled aware session clientSeq cmd g s none g' s'
  /-- The submission failed. -/
  | failed {g' : Sequencer svc E} {s' : JStore} (e : NodeError) :
      Handled aware session clientSeq cmd g s (some e) g' s'

section Requests

variable {aware : SessionAware svc C E} {g g' : Sequencer svc E} {s s' : JStore}

theorem Aligned.edged {M : ServerMsg E → Prop} (h : Aligned aware g s) (hedge : Edged M g g') :
    Aligned aware g' s where
  exact := h.exact
  next session := by rw [hedge.flows, h.next]
  idle session := by rw [hedge.flows, h.idle]
  window session := by rw [hedge.flows]; exact h.window session

/-- An input that is not a client command changes no session. -/
theorem Aligned.closed (h : Aligned aware g s) {session : UInt64} (hflows : ∀ s, g'.flowOf s = g.flowOf s)
    (hinputs : journaled svc s' = journaled svc s ++
      [aware.input.symm (.sessionClosed session)]) : Aligned aware g' s' where
  exact := by rw [hinputs]; exact h.exact.closed
  next session' := by rw [hinputs, clientSeqs_closed, hflows, h.next]
  idle session' := by rw [hflows, h.idle]
  window session' := by rw [hflows]; exact h.window session'

/-- The next command of a session moves that session on, and no other. -/
theorem Aligned.client (h : Aligned aware g s) {session clientSeq : UInt64} {cmd : C}
    (hnext : clientSeq.toNat = (g.flowOf session).next)
    (hflows : ∀ session', g'.flowOf session' = if session = session'
      then ⟨(g.flowOf session).next + 1, (g.flowOf session).window, 0⟩ else g.flowOf session')
    (hinputs : journaled svc s' = journaled svc s ++
      [aware.input.symm (.client session clientSeq cmd)]) : Aligned aware g' s' where
  exact := by
    rw [hinputs]
    exact h.exact.client cmd (hnext.trans (h.next session))
  next session' := by
    rw [hinputs, clientSeqs_client, hflows]
    by_cases hs : session = session'
    · subst hs
      simp [h.next]
    · simp [hs, h.next]
  idle session' := by
    rw [hflows]
    split
    · rfl
    · exact h.idle session'
  window session' := by
    rw [hflows]
    split
    · exact h.window session
    · exact h.window session'

namespace Sequencer

theorem wp_onNode {p : NProg svc α} {Q : Except NodeError α → Sequencer svc E → JStore → Prop}
    {E' : Empty → Sequencer svc E → JStore → Prop} {D : JStore → Prop}
    (h : wp F p (fun a node s' => Q (.ok a) { g with node := node } s')
      (fun e node s' => Q (.error e) { g with node := node } s') D g.node s) :
    wp F (onNode p) Q E' D g s :=
  wp_zoom (wp_attempt h)

/-- A refusal: the reply is sent, and that is all. -/
theorem wp_refuse (session clientSeq : UInt64) {reason : RejectReason}
    {flow : SessionFlow} (hflow : flow = g.flowOf session) :
    wp F (do
        Prog.update fun g => g.setFlow session flow
        sendToCmd session (.rejected clientSeq.toNat reason)
        pure none : GProg svc E (Option NodeError))
      (fun r g' s' => r = none ∧ Edged (· = .rejected clientSeq.toNat reason) g g' ∧ s' = s)
      (fun _ _ _ => False) (fun _ => False) g s := by
  have hset : Edged (· = .rejected clientSeq.toNat reason) g (g.setFlow session flow) := by
    refine ⟨rfl, fun session' => ?_, [], by simp [setFlow], by simp⟩
    rw [flowOf_setFlow, hflow]
    split
    · next heq => rw [heq]
    · rfl
  apply wp_bind
  apply wp_update
  apply wp_seq (quiet_sendToCmd (M := (· = .rejected clientSeq.toNat reason)) session rfl (g.setFlow session flow) s)
  rintro _ g' s' ⟨hedge, rfl⟩
  exact wp_pure ⟨rfl, hset.trans hedge, rfl⟩

/-- What the journal holds if the process goes down in a request. -/
def Interrupted (aware : SessionAware svc C E) (s' : JStore) : Prop := ExactlyOnce aware (journaled svc s')

variable [LawfulCodec svc.Input]

theorem wp_sequenceCmd (h : Aligned aware g s) (fuel : ℕ) {session clientSeq : UInt64} (cmd : C)
    (hnext : clientSeq.toNat = (g.flowOf session).next) :
    wp F (sequenceCmd aware fuel session clientSeq cmd
        ⟨(g.flowOf session).next + 1, (g.flowOf session).window, (g.flowOf session).outstanding + 1⟩)
      (Handled aware session clientSeq cmd g s) (fun _ _ _ => False) (Interrupted aware)
      (g.setFlow session
        ⟨(g.flowOf session).next + 1, (g.flowOf session).window, (g.flowOf session).outstanding + 1⟩) s := by
  have hone := h.exact.client cmd (hnext.trans (h.next session))
  -- sends may only acknowledge the command or carry events
  have hack : ∀ k seq, NotRejected (.ack k seq : ServerMsg E) := by simp [NotRejected]
  have hevents : ∀ n event, NotRejected (.event n event : ServerMsg E) := by simp [NotRejected]
  apply wp_bind
  apply wp_onNode
  refine wp_mono (Node.wp_submit_inputs fuel _) ?_ ?_ ?_
  · rintro ⟨seq, outputs⟩ node s' hinputs
    apply wp_bind
    apply wp_update
    apply wp_seq (wp_mono (quiet_sendToCmd session (hack _ _) _ _) (fun _ _ _ h => h) (fun _ _ _ h => h)
      fun _ h => h.elim)
    rintro _ g₁ s₁ ⟨hedge₁, rfl⟩
    apply wp_seq (wp_mono (quiet_routeEvents hevents _ _ _) (fun _ _ _ h => h) (fun _ _ _ h => h) fun _ h => h.elim)
    rintro _ g₂ s₂ ⟨hedge₂, rfl⟩
    apply wp_pure
    have hedge := hedge₁.trans hedge₂
    refine .accepted (hnext.trans (h.next session)) hinputs (h.client hnext (fun session' => ?_) hinputs) ?_
    · rw [hedge.flows, flowOf_setFlow]
      split
      · simp [SessionFlow.onAcked, h.idle]
      · next hs =>
        show (g.setFlow session _).flowOf session' = _
        rw [flowOf_setFlow, if_neg hs]
    · exact hedge.sent
  · intro e node s' _
    apply wp_bind
    apply wp_update
    exact wp_pure (.failed e)
  · rintro s' (hsame | hmore)
    · show ExactlyOnce aware (inputsOf svc s'.ghost.tape)
      rw [hsame]
      exact h.exact
    · show ExactlyOnce aware (inputsOf svc s'.ghost.tape)
      rw [hmore]
      exact hone

/-- **A command is handled by its number alone.** -/
theorem wp_command (h : Aligned aware g s) (fuel : ℕ) (session clientSeq : UInt64) (cmd : C) :
    wp F (command aware fuel session clientSeq cmd) (Handled aware session clientSeq cmd g s)
      (fun _ _ _ => False) (Interrupted aware) g s := by
  have hrefused : ∀ reason (flow : SessionFlow), flow = g.flowOf session →
      Refuses (clientSeqs aware session (journaled svc s)).length clientSeq.toNat reason →
      wp F (do
          Prog.update fun g => g.setFlow session flow
          sendToCmd session (.rejected clientSeq.toNat reason)
          pure none : GProg svc E (Option NodeError))
        (Handled aware session clientSeq cmd g s) (fun _ _ _ => False) (Interrupted aware) g s := by
    intro reason flow hflow hreason
    refine wp_mono (wp_refuse session clientSeq hflow) ?_ (fun _ _ _ h => h) fun _ h => h.elim
    rintro _ g' s' ⟨rfl, hedge, hs⟩
    exact .refused reason hreason hedge hs
  have hn := h.next session
  apply wp_bind
  apply wp_mem
  cases hverdict : (g.flowOf session).admitSeq clientSeq.toNat with
  | none => exact wp_panic h.exact
  | some p =>
    obtain ⟨verdict, flow⟩ := p
    rcases SessionFlow.admit_cases hverdict with ⟨rfl, hlt, hflow⟩ | ⟨rfl, hgt, hflow⟩ |
      ⟨rfl, -, hfull, -⟩ | ⟨rfl, heq, -, rfl⟩
    · exact hrefused .duplicate flow hflow (by simp only [Refuses]; omega)
    · exact hrefused (.gap _) flow hflow ⟨hn, by omega⟩
    · -- nothing is outstanding, so the window has room
      have hidle := h.idle session
      have hwindow := h.window session
      omega
    · apply wp_bind
      apply wp_update
      exact wp_sequenceCmd h fuel cmd heq

theorem wp_close (h : Aligned aware g s) (fuel : ℕ) (session : UInt64) :
    wp F (close aware fuel session) (fun r g' s' => r = none → Aligned aware g' s')
      (fun _ _ _ => False) (Interrupted aware) g s := by
  have hone : ExactlyOnce aware (journaled svc s ++ [aware.input.symm (.sessionClosed session)]) :=
    h.exact.closed
  have hdrop : Edged (fun _ => True) g (g.dropCmd session) := by
    unfold dropCmd
    split
    · exact .refl g
    · exact edged_setSinks g _ _
  apply wp_bind
  apply wp_update
  apply wp_bind
  apply wp_onNode
  refine wp_mono (Node.wp_submit_inputs fuel _) ?_ ?_ ?_
  · rintro ⟨seq, outputs⟩ node s' hinputs
    apply wp_seq (wp_mono (quiet_routeEvents (M := fun _ => True) (fun _ _ => trivial) _ _ _) (fun _ _ _ h => h)
      (fun _ _ _ h => h) fun _ h => h.elim)
    rintro _ g' s'' ⟨hedge, rfl⟩
    apply wp_pure
    intro _
    have hflows : ∀ s, g'.flowOf s = g.flowOf s := fun s => (hedge.flows s).trans (hdrop.flows s)
    exact h.closed hflows hinputs
  · intro e node s' _
    exact wp_pure fun hr => by cases hr
  · rintro s' (hsame | hmore)
    · show ExactlyOnce aware (inputsOf svc s'.ghost.tape)
      rw [hsame]
      exact h.exact
    · show ExactlyOnce aware (inputsOf svc s'.ghost.tape)
      rw [hmore]
      exact hone

/-- **Every request keeps the alignment.** -/
theorem wp_serve (h : Aligned aware g s) (fuel : ℕ) (req : Req C) :
    wp F (serve aware fuel req) (fun r g' s' => r = none → Aligned aware g' s')
      (fun _ _ _ => False) (Interrupted aware) g s := by
  have hevents : ∀ n (event : E), (fun _ : ServerMsg E => True) (.event n event) := fun _ _ => trivial
  cases req with
  | attach session fromEventSeq sink =>
    apply wp_seq (wp_mono (quiet_attach (M := fun _ => True) hevents session fromEventSeq sink g s) (fun _ _ _ h => h)
      (fun _ _ _ h => h) fun _ h => h.elim)
    rintro _ g' s' ⟨hedge, rfl⟩
    exact wp_pure fun _ => h.edged hedge
  | watch session fromEventSeq sink =>
    apply wp_seq (wp_mono (quiet_watch (M := fun _ => True) hevents trivial session fromEventSeq sink g s) (fun _ _ _ h => h)
      (fun _ _ _ h => h) fun _ h => h.elim)
    rintro _ g' s' ⟨hedge, rfl⟩
    exact wp_pure fun _ => h.edged hedge
  | cmd session clientSeq cmd =>
    refine wp_mono (wp_command h fuel session clientSeq cmd) ?_ (fun _ _ _ h => h) fun _ h => h
    intro r g' s' hhandled hr
    cases hhandled with
    | refused reason _ hedge hs => exact hs ▸ h.edged hedge
    | accepted _ _ haligned => exact haligned
    | failed e => cases hr
  | close session => exact wp_close h fuel session

end Sequencer

end Requests

/-! ## Restarts -/

/-- The highest journaled number of a session, 0 if it has none. -/
def highestSeq (aware : SessionAware svc C E) (session : UInt64) (inputs : List svc.Input) : ℕ :=
  ((clientSeqs aware session inputs).max?).getD 0

theorem highestSeq_eq {aware : SessionAware svc C E} {inputs : List svc.Input} {session : UInt64}
    (h : ExactlyOnce aware inputs) :
    highestSeq aware session inputs = (clientSeqs aware session inputs).length := by
  unfold highestSeq
  rw [h session, List.length_range']
  cases (clientSeqs aware session inputs).length with
  | zero => rfl
  | succ n =>
    have hmax : (List.range' 1 (n + 1)).max? = some (n + 1) := by
      apply List.max?_eq_some_iff.mpr
      simp
      omega
    rw [hmax]
    rfl

/-- `resume` lists each session's highest journaled number. -/
structure Resumes (aware : SessionAware svc C E) (inputs : List svc.Input)
    (resume : List (UInt64 × ℕ)) : Prop where
  highest : ∀ entry ∈ resume, entry.2 = highestSeq aware entry.1 inputs
  all : ∀ session, clientSeqs aware session inputs ≠ [] → ∃ last, (session, last) ∈ resume

namespace Sequencer

/-- Every session present is at the flow after its last number. -/
def ResumedAt (window : ℕ) (last : UInt64 → ℕ) (flows : ExtTreeMap UInt64 SessionFlow) : Prop :=
  ∀ (session : UInt64) (flow : SessionFlow), flows[session]? = some flow →
    flow = ⟨last session + 1, max window 1, 0⟩

theorem resumeOne_spec {window : ℕ} {last : UInt64 → ℕ} {entry : UInt64 × ℕ}
    {flows flows' : ExtTreeMap UInt64 SessionFlow} (hentry : entry.2 = last entry.1)
    (hflows : ResumedAt window last flows) (h : resumeOne window flows entry = some flows') :
    ResumedAt window last flows' ∧ ∀ session, session ∈ flows' ↔ entry.1 = session ∨ session ∈ flows := by
  obtain ⟨flow, hflow, rfl⟩ := Option.map_eq_some_iff.mp h
  obtain ⟨next, hnext, rfl⟩ := Option.map_eq_some_iff.mp hflow
  obtain rfl := u64Succ_eq_some hnext
  constructor
  · intro session flow hget
    rw [ExtTreeMap.getElem?_insert] at hget
    split at hget
    · next heq =>
      obtain rfl := LawfulEqCmp.compare_eq_iff_eq.mp heq
      rw [← hentry]
      exact (Option.some.inj hget).symm
    · exact hflows session flow hget
  · intro session
    rw [ExtTreeMap.mem_insert, LawfulEqCmp.compare_eq_iff_eq]

/-- Resuming gives every listed session the flow after its last number, and no other a flow. -/
theorem resumeAll_spec {window : ℕ} {last : UInt64 → ℕ} {resume : List (UInt64 × ℕ)}
    {acc flows : ExtTreeMap UInt64 SessionFlow} (hlast : ∀ entry ∈ resume, entry.2 = last entry.1)
    (hacc : ResumedAt window last acc) (h : resume.foldlM (resumeOne window) acc = some flows) :
    ResumedAt window last flows ∧
      ∀ session, session ∈ acc ∨ (∃ n, (session, n) ∈ resume) → session ∈ flows := by
  induction resume generalizing acc with
  | nil =>
    obtain rfl := Option.some.inj h
    exact ⟨hacc, fun session hs => by simpa using hs⟩
  | cons entry resume ih =>
    rw [List.foldlM_cons] at h
    obtain ⟨acc', hacc', hrest⟩ := Option.bind_eq_some_iff.mp h
    obtain ⟨hresumed, hmem⟩ := resumeOne_spec (hlast entry (by simp)) hacc hacc'
    obtain ⟨hall, hin⟩ := ih (fun e he => hlast e (by simp [he])) hresumed hrest
    refine ⟨hall, fun session hs => hin session ?_⟩
    rcases hs with hs | ⟨n, hn⟩
    · exact .inl ((hmem session).mpr (.inr hs))
    · rcases List.mem_cons.mp hn with heq | hn
      · exact .inl ((hmem session).mpr (.inl (by rw [← heq])))
      · exact .inr ⟨n, hn⟩

/-- **A restart restores the alignment.** -/
theorem start_aligned {aware : SessionAware svc C E} {node : Node svc} {config : ServeConfig}
    {up : ℕ → Bool} {g : Sequencer svc E} {s : JStore} (h : ExactlyOnce aware (journaled svc s))
    (hresume : Resumes aware (journaled svc s) config.resume)
    (hstart : start node config up = some g) : Aligned aware g s := by
  obtain ⟨flows, hflows, rfl⟩ := Option.map_eq_some_iff.mp hstart
  have hempty : ResumedAt config.window (fun session => highestSeq aware session (journaled svc s)) ∅ := by
    simp [ResumedAt]
  obtain ⟨hall, hmem⟩ := resumeAll_spec hresume.highest hempty hflows
  have hflow : ∀ session, flows.getD session (.new config.window)
      = ⟨(clientSeqs aware session (journaled svc s)).length + 1, max config.window 1, 0⟩ := by
    intro session
    rw [ExtTreeMap.getD_eq_getD_getElem?]
    cases hget : flows[session]? with
    | some flow =>
      rw [Option.getD_some, hall session flow hget]
      show SessionFlow.mk (highestSeq aware session (journaled svc s) + 1) _ _ = _
      rw [highestSeq_eq h]
    | none =>
      -- a session that is not listed has journaled nothing
      have hnil : clientSeqs aware session (journaled svc s) = [] := by
        by_contra hne
        have hin := hmem session (.inr (hresume.all session hne))
        rw [ExtTreeMap.mem_iff_isSome_getElem?, hget] at hin
        cases hin
      rw [hnil]
      rfl
  exact {
    exact := h
    next := fun session => congrArg SessionFlow.next (hflow session)
    idle := fun session => congrArg SessionFlow.outstanding (hflow session)
    window := fun session => by
      have hwindow := congrArg SessionFlow.window (hflow session)
      exact Nat.le_trans (Nat.le_max_right _ _) (Nat.le_of_eq hwindow.symm) }

end Sequencer

/-! ## Whole runs -/

section Runs

variable (aware : SessionAware svc C E)

/-- The request takes the gateway from `g` to `g'` and the store from `s` to `s'`. -/
def Serves (fuel : ℕ) (req : Req C) (g : Sequencer svc E) (s : JStore) (r : Option NodeError)
    (g' : Sequencer svc E) (s' : JStore) : Prop :=
  ∃ w w' : World JStore, w.st = s ∧ w'.st = s' ∧ Sequencer.serve aware fuel req g w = .ok r g' w'

/-- The process goes down during the request. -/
def Interrupts (fuel : ℕ) (req : Req C) (g : Sequencer svc E) (s s' : JStore) : Prop :=
  ∃ w w' : World JStore, w.st = s ∧ w'.st = s' ∧ Sequencer.serve aware fuel req g w = .down w'

/-- **The runs of a gateway**: requests in any order, from any number of connections, with
`node.submit` succeeding, and any number of restarts, of which each may find the history cut
short. The node a restart brings up is left open. -/
inductive Run : Option (Sequencer svc E) → JStore → Prop
  /-- Nothing is journaled and no gateway is running. -/
  | fresh {s : JStore} (h : journaled svc s = []) : Run none s
  /-- What the store loses while no gateway is running. -/
  | lost {s s' : JStore} (h : Run none s) (htape : s'.ghost.tape <+: s.ghost.tape) : Run none s'
  /-- A gateway starts, resuming each session from its highest journaled number. -/
  | started {g : Sequencer svc E} {s : JStore} (node : Node svc) (config : ServeConfig)
      (up : ℕ → Bool) (h : Run none s) (hresume : Resumes aware (journaled svc s) config.resume)
      (hstart : Sequencer.start node config up = some g) : Run (some g) s
  | served {g g' : Sequencer svc E} {s s' : JStore} (fuel : ℕ) (req : Req C) (h : Run (some g) s)
      (hserves : Serves aware fuel req g s none g' s') : Run (some g') s'
  /-- The gateway stops between two requests, or during one. -/
  | stopped {g : Sequencer svc E} {s : JStore} (h : Run (some g) s) : Run none s
  | interrupted {g : Sequencer svc E} {s s' : JStore} (fuel : ℕ) (req : Req C)
      (h : Run (some g) s) (hdown : Interrupts aware fuel req g s s') : Run none s'

/-- What a reply that refuses a command says of the numbers journaled for its session. -/
def Justified (seqs : List ℕ) (clientSeq : ℕ) : RejectReason → Prop
  | .duplicate => clientSeq ∈ seqs ∨ clientSeq = 0
  | .gap expected => expected = seqs.length + 1 ∧ seqs.length + 1 < clientSeq
  | .throttled => False

variable {aware}

theorem wp_down {μ σ ε : Type} {p : Prog μ σ ε α} {Q : α → μ → σ → Prop} {E' : ε → μ → σ → Prop}
    {D : σ → Prop} {m : μ} {w w' : World σ} (h : wp (fun _ => True) p Q E' D m w.st)
    (hrun : p m w = .down w') : D w'.st := by
  have hs := h w rfl fun _ _ => trivial
  rw [hrun] at hs
  exact hs

variable [LawfulCodec svc.Input]

/-- **The run lemma**: every state of a run is aligned. -/
theorem Run.aligned {running : Option (Sequencer svc E)} {s : JStore} (h : Run aware running s) :
    ExactlyOnce aware (journaled svc s) ∧ ∀ g, running = some g → Aligned aware g s := by
  induction h with
  | fresh h =>
    rw [h]
    exact ⟨.nil, by simp⟩
  | lost _ htape ih =>
    refine ⟨ih.1.take ?_, by simp⟩
    exact htape.filterMap _
  | started node config up _ hresume hstart ih =>
    have haligned := Sequencer.start_aligned ih.1 hresume hstart
    refine ⟨ih.1, ?_⟩
    rintro _ ⟨⟩
    exact haligned
  | served fuel req _ hserves ih =>
    obtain ⟨w, w', rfl, rfl, hrun⟩ := hserves
    have haligned := wp_ok (Sequencer.wp_serve (F := fun _ => True) (ih.2 _ rfl) fuel req)
      (fun _ _ => trivial) hrun rfl
    refine ⟨haligned.exact, ?_⟩
    rintro _ ⟨⟩
    exact haligned
  | stopped _ ih => exact ⟨ih.1, by simp⟩
  | interrupted fuel req _ hdown ih =>
    obtain ⟨w, w', rfl, rfl, hrun⟩ := hdown
    exact ⟨wp_down (Sequencer.wp_serve (ih.2 _ rfl) fuel req) hrun, by simp⟩

/-- **Exactly-once admission.** In every state of every run the commands of each session are
journaled as 1, 2, ..., n; a refusal leaves journal and admission state alone and is justified by
the journal; the next number is always accepted; and a session's window is never overrun. -/
theorem exactly_once {running : Option (Sequencer svc E)} {s : JStore} (h : Run aware running s) :
    ExactlyOnce aware (journaled svc s) ∧
    (∀ g, running = some g → ∀ fuel session clientSeq cmd g' s',
      Serves aware fuel (.cmd session clientSeq cmd) g s none g' s' →
      (∃ more, g'.sent = g.sent ++ more ∧ ∀ m ∈ more, ∀ k reason, m.2 = .rejected k reason →
        k = clientSeq.toNat ∧ s' = s ∧ (∀ session', g'.flowOf session' = g.flowOf session') ∧
          Justified (clientSeqs aware session (journaled svc s)) clientSeq.toNat reason) ∧
      (clientSeq.toNat = (clientSeqs aware session (journaled svc s)).length + 1 →
        journaled svc s' = journaled svc s ++ [aware.input.symm (.client session clientSeq cmd)])) ∧
    ∀ window flow, SessionFlow.Reach window flow →
      flow.outstanding ≤ flow.window ∧ flow.window = max window 1 ∧
      ∀ clientSeq flow', flow.admitSeq clientSeq = some (.throttled, flow') →
        flow' = flow ∧ (clientSeq + 1 < 2 ^ 64 →
          ∃ flow'', flow'.onAcked.admitSeq clientSeq = some (.accept, flow'')) := by
  obtain ⟨honce, haligned⟩ := h.aligned
  refine ⟨honce, ?_, ?_⟩
  · rintro g rfl fuel session clientSeq cmd g' s' ⟨w, w', rfl, rfl, hrun⟩
    have hhandled := wp_ok (Sequencer.wp_command (F := fun _ => True) (haligned g rfl) fuel session clientSeq cmd)
      (fun _ _ => trivial) hrun
    cases hhandled with
    | refused reason hreason hedge hs =>
      constructor
      · obtain ⟨more, hmore, hall⟩ := hedge.sent
        refine ⟨more, hmore, fun m hm k reason' hmsg => ?_⟩
        rw [hall m hm] at hmsg
        obtain ⟨rfl, rfl⟩ := ServerMsg.rejected.inj hmsg
        refine ⟨rfl, hs, hedge.flows, ?_⟩
        cases reason with
        | duplicate =>
          rw [Justified, mem_clientSeqs honce]
          simp only [Refuses] at hreason
          omega
        | gap expected => exact hreason
        | throttled => exact hreason
      · intro hnext
        -- the next number is no reason to refuse
        cases reason with
        | duplicate =>
          simp only [Refuses] at hreason
          omega
        | gap expected =>
          have := hreason.2
          omega
        | throttled => exact hreason.elim
    | accepted _ hinputs _ hsent =>
      obtain ⟨more, hmore, hall⟩ := hsent
      exact ⟨⟨more, hmore, fun m hm k reason hmsg => absurd hmsg (hall m hm k reason)⟩, fun _ => hinputs⟩
  · intro window flow hreach
    refine ⟨hreach.bounded.2, hreach.bounded.1, fun clientSeq flow' hverdict => ⟨?_, fun hnext => ?_⟩⟩
    · rcases SessionFlow.admit_cases hverdict with ⟨hv, -⟩ | ⟨hv, -⟩ | ⟨-, -, -, hflow⟩ | ⟨hv, -⟩
      · cases hv
      · cases hv
      · exact hflow
      · cases hv
    · exact SessionFlow.admit_after_throttled hreach hverdict hnext

end Runs

/-! ## Runs of a small gateway -/

/-- A service that counts its inputs and sends every command back to its session. -/
def echo : Service where
  State := UInt64
  Input := GatewayInput UInt64
  Output := Addressed UInt64
  Snapshot := UInt64
  Config := Unit
  SCHEMA_VERSION := 1
  genesis _ := 0
  apply count _ input _ :=
    match input with
    | .client session _ cmd => ⟨count + 1, [⟨session, cmd⟩], []⟩
    | .sessionClosed _ => ⟨count + 1, [], []⟩
  onTimer count _ _ := ⟨count, [], []⟩
  snapshot count := count
  restore count _ := count

instance : LawfulCodec echo.Input := inferInstanceAs (LawfulCodec (GatewayInput UInt64))

def echoAware : SessionAware echo UInt64 UInt64 := ⟨Equiv.refl _, Equiv.refl _⟩

/-- A gateway starts on an empty directory, session 7 connects and sends one command. Returned are
the gateway and the store before the command, and what the command makes of them. -/
def oneCommand (clientSeq : UInt64) : Option ((Sequencer echo UInt64 × World JStore) ×
    (Option NodeError × Sequencer echo UInt64 × World JStore)) := do
  let (node, _, w₀) ← ((Node.openWith ⟨⟨1024, .everyFrame⟩, 1, none, 1, none⟩ () (fun _ => 5) :
    Prog Unit JStore NodeError (Node echo)) () (.healthy ⟨Disk.empty, History.fresh⟩)).returned
  let g₀ ← Sequencer.start node {} fun _ => true
  let (attached, g₁, w₁) ← (Sequencer.serve echoAware 4 (.attach 7 0 1) g₀ w₀).returned
  let served ← (Sequencer.serve echoAware 4 (.cmd 7 clientSeq 9) g₁ w₁).returned
  if (journaled echo w₀.st).isEmpty ∧ attached.isNone then some ((g₁, w₁), served) else none

theorem Run.oneCommand {clientSeq : UInt64} {g : Sequencer echo UInt64} {w : World JStore}
    {served : Option NodeError × Sequencer echo UInt64 × World JStore}
    (h : Gateway.oneCommand clientSeq = some ((g, w), served)) :
    Run echoAware (some g) w.st ∧
      Serves echoAware 4 (.cmd 7 clientSeq 9) g w.st served.1 served.2.1 served.2.2.st := by
  simp only [Gateway.oneCommand, bind, Option.bind_eq_some_iff] at h
  obtain ⟨⟨node, _, w₀⟩, -, g₀, hstart, ⟨attached, g₁, w₁⟩, hattach, ⟨r, g₂, w₂⟩, hcmd, h⟩ := h
  obtain ⟨⟨hempty, hattached⟩, heq⟩ := Option.ite_none_right_eq_some.mp h
  cases heq
  rw [Outcome.returned_eq_some] at hattach hcmd
  have hnil : journaled echo w₀.st = [] := List.isEmpty_iff.mp hempty
  have hfresh : Run echoAware none w₀.st := .fresh hnil
  -- with nothing journaled there is nothing to resume
  have hresumes : Resumes echoAware (journaled echo w₀.st) [] := by
    constructor
    · simp
    · simp [hnil, clientSeqs]
  have hstarted := Run.started node {} (fun _ => true) hfresh hresumes hstart
  obtain rfl := Option.isNone_iff_eq_none.mp hattached
  exact ⟨.served 4 (.attach 7 0 1) hstarted ⟨w₀, w₁, rfl, rfl, hattach⟩, w₁, w₂, rfl, rfl, hcmd⟩

/-- Session 7 sends its first command: it is journaled, acknowledged and echoed. -/
theorem exactly_once_of_one_command : ∃ (g : Sequencer echo UInt64) (s : JStore),
    Run echoAware (some g) s ∧ ExactlyOnce echoAware (journaled echo s) ∧
      clientSeqs echoAware 7 (journaled echo s) = [1] ∧ g.sent = [(1, .ack 1 1), (1, .event 1 9)] := by
  have hrun : (oneCommand 1).any (fun p => decide (p.2.1 = none ∧
      clientSeqs echoAware 7 (journaled echo p.2.2.2.st) = [1] ∧
      p.2.2.1.sent = [(1, .ack 1 1), (1, .event 1 9)])) = true := by decide +kernel
  rw [Option.any_eq_true] at hrun
  obtain ⟨⟨⟨g, w⟩, r, g', w'⟩, hrun, hend⟩ := hrun
  obtain ⟨rfl, hseqs, hsent⟩ := of_decide_eq_true hend
  obtain ⟨hbefore, hserves⟩ := Run.oneCommand hrun
  have hafter := Run.served 4 _ hbefore hserves
  exact ⟨g', w'.st, hafter, (exactly_once hafter).1, hseqs, hsent⟩

/-- A command numbered 0 is answered as a duplicate, though none was ever journaled. -/
theorem zero_is_duplicate : ∃ (g g' : Sequencer echo UInt64) (s s' : JStore),
    Run echoAware (some g) s ∧ Serves echoAware 4 (.cmd 7 0 9) g s none g' s' ∧
      g'.sent = g.sent ++ [(1, .rejected 0 .duplicate)] ∧
      clientSeqs echoAware 7 (journaled echo s) = [] ∧
      clientSeqs echoAware 7 (journaled echo s') = [] := by
  have hrun : (oneCommand 0).any (fun p => decide (p.2.1 = none ∧
      p.2.2.1.sent = p.1.1.sent ++ [(1, .rejected 0 .duplicate)] ∧
      clientSeqs echoAware 7 (journaled echo p.1.2.st) = [] ∧
      clientSeqs echoAware 7 (journaled echo p.2.2.2.st) = [])) = true := by decide +kernel
  rw [Option.any_eq_true] at hrun
  obtain ⟨⟨⟨g, w⟩, r, g', w'⟩, hrun, hend⟩ := hrun
  obtain ⟨rfl, hsent, hbefore, hafter⟩ := of_decide_eq_true hend
  obtain ⟨hreach, hserves⟩ := Run.oneCommand hrun
  exact ⟨g, g', w.st, w'.st, hreach, hserves, hsent, hbefore, hafter⟩

end Ticktape.Gateway
