import Ticktape.Gateway.Connection

/-!
# A client's script

Whatever happens to its connections, a client that numbers the commands of a script 1, 2, ... and sends each of them
under its number, as often as it likes, gets a prefix of the script sequenced, every command once and in order
(`script_runs_once`): connections may break anywhere and be opened again, those of other clients come in between, and
the gateway may lose power and resume from what is left of the journal.
-/

namespace Ticktape.Gateway

open Std Ticktape.Lib Ticktape.Core Ticktape.Journal Ticktape.Runtime

variable {svc : Service} {C E : Type} {F : Fate → Prop}

/-! ## What a request sequences -/

/-- The envelope that a request submits. -/
def Req.envelope : Req C → Option (GatewayInput C)
  | attach _ _ _ => none
  | watch _ _ _ => none
  | cmd session clientSeq body => some (.client session clientSeq body)
  | close session => some (.sessionClosed session)

/-- Nothing is journaled by a request but its envelope. -/
def Adds (aware : SessionAware svc C E) (req : Req C) (s s' : JStore) : Prop :=
  journaled svc s' = journaled svc s ∨
    ∃ envelope, req.envelope = some envelope ∧ journaled svc s' = journaled svc s ++ [aware.input.symm envelope]

section Adds

variable {aware : SessionAware svc C E} {g : Sequencer svc E} {s s' : JStore}

open Sequencer

theorem Quiet.keeps {α : Type} {p : GProg svc E α} {M : ServerMsg E → Prop} {I : JStore → Prop} (h : Quiet F M p) :
    Keeps F I p := by
  intro g s hI
  refine wp_mono (h g s) ?_ (fun _ _ _ h => h.elim) fun _ h => h.elim
  rintro _ g' s' ⟨-, rfl⟩
  exact hI

theorem keeps_sendToCmd {I : JStore → Prop} (session : UInt64) (msg : ServerMsg E) :
    Keeps F I (sendToCmd session msg : GProg svc E Unit) :=
  (quiet_sendToCmd (M := fun _ => True) session trivial).keeps

theorem keeps_routeEvents {I : JStore → Prop} (events : List (Addressed E)) :
    Keeps F I (routeEvents events : GProg svc E Unit) :=
  (quiet_routeEvents (M := fun _ => True) (fun _ _ => trivial) events).keeps

variable [LawfulCodec svc.Input]

/-- An envelope is submitted, and what follows leaves the store alone. -/
theorem adds_of_submit {envelope : GatewayInput C} {req : Req C} (henvelope : req.envelope = some envelope) (fuel : ℕ)
    {k : Except NodeError (ℕ × List svc.Output) → GProg svc E (Option NodeError)}
    (hk : ∀ r, Keeps F (Adds aware req s) (k r)) :
    wp F (onNode (Node.submit fuel (aware.input.symm envelope)) >>= k) (fun _ _ => Adds aware req s)
      (fun _ _ => Adds aware req s) (Adds aware req s) g s := by
  have hsubmitted : ∀ s', journaled svc s' = journaled svc s ∨
      journaled svc s' = journaled svc s ++ [aware.input.symm envelope] → Adds aware req s s' := by
    rintro s' (hsame | hmore)
    · exact .inl hsame
    · exact .inr ⟨envelope, henvelope, hmore⟩
  apply wp_bind
  apply wp_onNode
  refine wp_mono (Node.wp_submit_inputs fuel _) ?_ ?_ hsubmitted
  · intro result node s' hinputs
    exact hk _ _ _ (hsubmitted s' (.inr hinputs))
  · intro e node s' hinputs
    exact hk _ _ _ (hsubmitted s' hinputs)

/-- **A request journals nothing but its envelope**, however it ends. -/
theorem wp_serve_adds (fuel : ℕ) (req : Req C) :
    wp F (serve aware fuel req) (fun _ _ => Adds aware req s) (fun _ _ => Adds aware req s) (Adds aware req s) g s := by
  have hnow : Adds aware req s s := .inl rfl
  cases req with
  | attach session fromEventSeq sink =>
    exact keeps_bind (quiet_attach (M := fun _ => True) (fun _ _ => trivial) session fromEventSeq sink).keeps
      (fun _ => keeps_pure _) g s hnow
  | watch session fromEventSeq sink =>
    exact keeps_bind (quiet_watch (M := fun _ => True) (fun _ _ => trivial) trivial session fromEventSeq sink).keeps
      (fun _ => keeps_pure _) g s hnow
  | cmd session clientSeq cmd =>
    apply wp_bind
    apply wp_mem
    cases (g.flowOf session).admitSeq clientSeq.toNat with
    | none => exact wp_panic hnow
    | some p =>
      obtain ⟨verdict, flow⟩ := p
      apply wp_bind
      apply wp_update
      cases verdict with
      | accept =>
        apply adds_of_submit rfl
        rintro (e | ⟨seq, outputs⟩)
        · exact keeps_bind (keeps_update _) fun _ => keeps_pure _
        · refine keeps_bind (keeps_update _) fun _ => keeps_bind (keeps_sendToCmd _ _) fun _ => ?_
          exact keeps_bind (keeps_routeEvents _) fun _ => keeps_pure _
      | duplicate => exact keeps_bind (keeps_sendToCmd _ _) (fun _ => keeps_pure _) _ s hnow
      | gap expected => exact keeps_bind (keeps_sendToCmd _ _) (fun _ => keeps_pure _) _ s hnow
      | throttled => exact keeps_bind (keeps_sendToCmd _ _) (fun _ => keeps_pure _) _ s hnow
  | close session =>
    apply wp_bind
    apply wp_update
    apply adds_of_submit rfl
    rintro (e | ⟨seq, outputs⟩)
    · exact keeps_pure _
    · exact keeps_bind (keeps_routeEvents _) fun _ => keeps_pure _

end Adds

/-! ## The commands of a session -/

/-- A command that `session` sent, with its number. -/
def commandOf (aware : SessionAware svc C E) (session : UInt64) (input : svc.Input) : Option (UInt64 × C) :=
  match aware.input input with
  | .client session' clientSeq cmd => if session' = session then some (clientSeq, cmd) else none
  | .sessionClosed _ => none

/-- The commands of `session`, in the order they were sequenced. -/
def commandsOf (aware : SessionAware svc C E) (session : UInt64) (inputs : List svc.Input) : List (UInt64 × C) :=
  inputs.filterMap (commandOf aware session)

section Commands

variable {aware : SessionAware svc C E} {session : UInt64} {inputs : List svc.Input}

/-- Their numbers. -/
theorem commandsOf_seqs : (commandsOf aware session inputs).map (fun p => p.1.toNat) = clientSeqs aware session inputs := by
  rw [commandsOf, List.map_filterMap, clientSeqs]
  apply List.filterMap_congr
  intro input _
  rw [commandOf, clientSeqOf]
  cases aware.input input with
  | client session' clientSeq cmd => by_cases h : session' = session <;> simp [h]
  | sessionClosed session' => rfl

theorem mem_commandsOf {clientSeq : UInt64} {cmd : C} :
    (clientSeq, cmd) ∈ commandsOf aware session inputs ↔ aware.input.symm (.client session clientSeq cmd) ∈ inputs := by
  rw [commandsOf, List.mem_filterMap]
  constructor
  · rintro ⟨input, hmem, hcmd⟩
    unfold commandOf at hcmd
    split at hcmd
    next session' clientSeq' cmd' heq =>
      obtain ⟨rfl, hpair⟩ := Option.ite_none_right_eq_some.mp hcmd
      obtain ⟨rfl, rfl⟩ := Prod.mk.inj (Option.some.inj hpair)
      rw [← heq, Equiv.symm_apply_apply]
      exact hmem
    · cases hcmd
  · intro hmem
    refine ⟨_, hmem, ?_⟩
    rw [commandOf, Equiv.apply_symm_apply]
    exact if_pos rfl

/-- **Commands numbered one after the other, each of which is the script's**, are the script. -/
theorem commandsOf_eq (honce : ExactlyOnce aware inputs) {script : UInt64 → C}
    (h : ∀ p ∈ commandsOf aware session inputs, p.2 = script p.1) :
    commandsOf aware session inputs = (List.range' 1 (commandsOf aware session inputs).length).map fun k =>
      (UInt64.ofNat k, script (UInt64.ofNat k)) := by
  have hlen : (clientSeqs aware session inputs).length = (commandsOf aware session inputs).length := by
    rw [← commandsOf_seqs, List.length_map]
  have hseqs : (commandsOf aware session inputs).map (fun p => p.1.toNat) =
      List.range' 1 (commandsOf aware session inputs).length := by
    rw [commandsOf_seqs, honce session, hlen]
  rw [← hseqs, List.map_map]
  refine (List.map_id _).symm.trans (List.map_congr_left fun p hp => ?_)
  show p = (UInt64.ofNat p.1.toNat, script (UInt64.ofNat p.1.toNat))
  rw [UInt64.ofNat_toNat, ← h p hp]

end Commands

/-! ## A gateway and its sockets -/

/-- A gateway that runs: its sequencer thread, what reaches each of its connections, and what it served. -/
structure Running (svc : Service) (C E : Type) where
  sequencer : Sequencer svc E
  stream : Sink → Bytes
  trace : List (Served C)

/-- **The runs of a gateway on sockets.** `may` says what may reach the connections of one run of the process. Requests
are served in any order the connections' threads allow, with `node.submit` succeeding; the process may stop anywhere
and be started again, on what is left of the journal. -/
inductive Sockets [Decode C] (aware : SessionAware svc C E) (may : (Sink → Bytes) → Prop) :
    Option (Running svc C E) → JStore → Prop
  | fresh {s : JStore} : journaled svc s = [] → Sockets aware may none s
  | lost {s s' : JStore} : Sockets aware may none s → s'.ghost.tape <+: s.ghost.tape → Sockets aware may none s'
  | started {g : Sequencer svc E} {s : JStore} (node : Node svc) (config : ServeConfig) (up : ℕ → Bool)
      (stream : Sink → Bytes) : Sockets aware may none s → Resumes aware (journaled svc s) config.resume →
      Sequencer.start node config up = some g → may stream → Sockets aware may (some ⟨g, stream, []⟩) s
  | served {gw : Running svc C E} {g' : Sequencer svc E} {s s' : JStore} (fuel : ℕ) (conn : Sink) (req : Req C) :
      Sockets aware may (some gw) s → sentBy conn gw.trace ++ [req] <+: connectionLoop conn (gw.stream conn) →
      Serves aware fuel req gw.sequencer s none g' s' →
      Sockets aware may (some ⟨g', gw.stream, gw.trace ++ [⟨conn, req, none⟩]⟩) s'
  | stopped {gw : Running svc C E} {s : JStore} : Sockets aware may (some gw) s → Sockets aware may none s
  | interrupted {gw : Running svc C E} {s s' : JStore} (fuel : ℕ) (conn : Sink) (req : Req C) :
      Sockets aware may (some gw) s → sentBy conn gw.trace ++ [req] <+: connectionLoop conn (gw.stream conn) →
      Interrupts aware fuel req gw.sequencer s s' → Sockets aware may none s'

/-- A connection that said hello for the session carries this command. -/
def Says [Encode C] [Decode C] (stream : Sink → Bytes) (session clientSeq : UInt64) (cmd : C) : Prop :=
  ∃ conn fromEventSeq msgs tail,
    Carries (stream conn) (.hello session fromEventSeq :: msgs) tail ∧ ClientMsg.cmd clientSeq cmd ∈ msgs

section Sockets

variable {aware : SessionAware svc C E} {may : (Sink → Bytes) → Prop}
  {running : Option (Running svc C E)} {s s' : JStore} {session clientSeq : UInt64} {cmd : C}

/-- A command among what messages behind the first ask for. -/
theorem mem_commands {msgs : List (ClientMsg C)} {session' : UInt64} (h : Req.cmd session clientSeq cmd ∈ commands session' msgs) :
    session = session' ∧ ClientMsg.cmd clientSeq cmd ∈ msgs := by
  induction msgs with
  | nil => cases List.mem_singleton.mp h
  | cons msg msgs ih =>
    cases msg with
    | cmd clientSeq' cmd' =>
      rcases List.mem_cons.mp h with heq | hrest
      · obtain ⟨rfl, rfl, rfl⟩ := Req.cmd.inj heq
        exact ⟨rfl, List.mem_cons_self ..⟩
      · obtain ⟨rfl, hmem⟩ := ih hrest
        exact ⟨rfl, List.mem_cons_of_mem _ hmem⟩
    | hello session'' fromEventSeq => cases List.mem_singleton.mp h
    | dropCopy session'' fromEventSeq => cases List.mem_singleton.mp h

variable [Decode C]

/-- A run on sockets is a run of the sequencer thread. -/
theorem Sockets.run (h : Sockets aware may running s) : Run aware (running.map (·.sequencer)) s := by
  induction h with
  | fresh hnil => exact .fresh hnil
  | lost _ htape ih => exact .lost ih htape
  | started node config up stream _ hresume hstart _ ih => exact .started node config up ih hresume hstart
  | served fuel conn req _ _ hserves ih => exact .served fuel req ih hserves
  | stopped _ ih => exact .stopped ih
  | interrupted fuel conn req _ _ hdown ih => exact .interrupted fuel req ih hdown

variable [Encode C]

/-- **What a connection asks for, it was told**: behind a command stand a hello and that command. -/
theorem says_of_mem [ExactCodec C] {stream : Sink → Bytes} {conn : Sink}
    (h : Req.cmd session clientSeq cmd ∈ connectionLoop conn (stream conn)) : Says stream session clientSeq cmd := by
  have hcarries := carries_readMsgs (T := ClientMsg C) (stream conn)
  rw [connectionLoop_eq conn hcarries] at h
  generalize (readMsgs (ClientMsg C) (stream conn)).1 = msgs at hcarries h
  match msgs, hcarries, h with
  | .hello session' fromEventSeq :: msgs, hcarries, h =>
    rcases List.mem_cons.mp h with heq | hmem
    · cases heq
    · obtain ⟨rfl, hcmd⟩ := mem_commands hmem
      exact ⟨conn, fromEventSeq, msgs, _, hcarries, hcmd⟩
  | .dropCopy session' fromEventSeq :: msgs, hcarries, h => cases List.mem_singleton.mp h
  | .cmd clientSeq' cmd' :: msgs, hcarries, h => cases h
  | [], hcarries, h => cases h

/-- Every journaled command was sent. -/
def Told (aware : SessionAware svc C E) (may : (Sink → Bytes) → Prop) (inputs : List svc.Input) : Prop :=
  ∀ session clientSeq cmd, aware.input.symm (.client session clientSeq cmd) ∈ inputs →
    ∃ stream, may stream ∧ Says stream session clientSeq cmd

/-- **Step lemma**: what a request of a connection journals was sent. -/
theorem Told.adds [ExactCodec C] {conn : Sink} {req : Req C} {stream : Sink → Bytes}
    (h : Told aware may (journaled svc s)) (hmay : may stream) (hreq : req ∈ connectionLoop conn (stream conn))
    (hadds : Adds aware req s s') : Told aware may (journaled svc s') := by
  rcases hadds with hsame | ⟨envelope, henvelope, hmore⟩
  · rw [hsame]
    exact h
  · intro session clientSeq cmd hmem
    rw [hmore, List.mem_append, List.mem_singleton] at hmem
    rcases hmem with hold | hnew
    · exact h session clientSeq cmd hold
    · obtain rfl := aware.input.symm.injective hnew
      cases req with
      | cmd session' clientSeq' cmd' =>
        cases henvelope
        exact ⟨stream, hmay, says_of_mem hreq⟩
      | attach => cases henvelope
      | watch => cases henvelope
      | close => cases henvelope

variable [LawfulCodec svc.Input]

/-- **Run lemma**: every command in the journal was sent on a connection that said hello for its session. -/
theorem Sockets.told [ExactCodec C] (h : Sockets aware may running s) :
    Told aware may (journaled svc s) ∧ ∀ gw, running = some gw → may gw.stream := by
  induction h with
  | fresh hnil =>
    rw [hnil]
    exact ⟨fun _ _ _ hmem => (by cases hmem), fun _ hnone => (by cases hnone)⟩
  | lost _ htape ih =>
    exact ⟨fun _ _ _ hmem => ih.1 _ _ _ ((htape.filterMap _).subset hmem), fun _ hnone => (by cases hnone)⟩
  | started node config up stream _ _ _ hmay ih =>
    refine ⟨ih.1, ?_⟩
    rintro _ ⟨⟩
    exact hmay
  | served fuel conn req _ hnext hserves ih =>
    obtain ⟨w, w', rfl, rfl, hrun⟩ := hserves
    have hmay := ih.2 _ rfl
    have hadds := wp_ok (wp_serve_adds (F := fun _ => True) fuel req) (fun _ _ => trivial) hrun
    refine ⟨ih.1.adds hmay (hnext.subset (List.mem_append_right _ (List.mem_singleton.mpr rfl))) hadds, ?_⟩
    rintro _ ⟨⟩
    exact hmay
  | stopped _ ih => exact ⟨ih.1, fun _ hnone => (by cases hnone)⟩
  | interrupted fuel conn req _ hnext hdown ih =>
    obtain ⟨w, w', rfl, rfl, hrun⟩ := hdown
    have hadds := wp_down (wp_serve_adds fuel req) hrun
    exact ⟨ih.1.adds (ih.2 _ rfl) (hnext.subset (List.mem_append_right _ (List.mem_singleton.mpr rfl))) hadds,
      fun _ hnone => (by cases hnone)⟩

/-- **A script runs once.** In every run of the gateway on sockets, with restarts, the commands that a session has in
the journal are the first ones of its client's script, each once and in order, provided the client sends no other
command under a number than the script's; and each of them was sent. -/
theorem script_runs_once [ExactCodec C] (h : Sockets aware may running s) {script : UInt64 → C}
    (hscript : ∀ stream, may stream → ∀ clientSeq cmd, Says stream session clientSeq cmd → cmd = script clientSeq) :
    ∃ n, commandsOf aware session (journaled svc s) =
        ((List.range' 1 n).map fun k => (UInt64.ofNat k, script (UInt64.ofNat k))) ∧
      ∀ p ∈ commandsOf aware session (journaled svc s), ∃ stream, may stream ∧ Says stream session p.1 p.2 := by
  have htold : ∀ p ∈ commandsOf aware session (journaled svc s), ∃ stream, may stream ∧ Says stream session p.1 p.2 :=
    fun p hp => h.told.1 session p.1 p.2 (mem_commandsOf.mp hp)
  refine ⟨_, commandsOf_eq h.run.aligned.1 fun p hp => ?_, htold⟩
  obtain ⟨stream, hmay, hsays⟩ := htold p hp
  exact hscript stream hmay p.1 p.2 hsays

end Sockets

theorem Sockets.oneCommand {g : Sequencer echo UInt64} {w : World JStore}
    {served : Option NodeError × Sequencer echo UInt64 × World JStore}
    (h : Gateway.oneCommand 1 = some ((g, w), served)) (hserved : served.1 = none) :
    ∃ running, Sockets echoAware (· = helloAndCommand) running served.2.2.st := by
  simp only [Gateway.oneCommand, bind, Option.bind_eq_some_iff] at h
  obtain ⟨⟨node, _, w₀⟩, -, g₀, hstart, ⟨attached, g₁, w₁⟩, hattach, ⟨r, g₂, w₂⟩, hcmd, h⟩ := h
  obtain ⟨⟨hempty, hattached⟩, heq⟩ := Option.ite_none_right_eq_some.mp h
  cases heq
  rw [Outcome.returned_eq_some] at hattach hcmd
  obtain rfl := Option.isNone_iff_eq_none.mp hattached
  have hnil : journaled echo w₀.st = [] := List.isEmpty_iff.mp hempty
  have hresumes : Resumes echoAware (journaled echo w₀.st) [] := by
    constructor
    · simp
    · simp [hnil, clientSeqs]
  have hasks : connectionLoop 1 (helloAndCommand 1) = [.attach 7 0 1, .cmd 7 1 (9 : UInt64), .close 7] :=
    connectionLoop_eq 1 carries_helloAndCommand
  have hstarted : Sockets echoAware (· = helloAndCommand) (some ⟨g₀, helloAndCommand, []⟩) w₀.st :=
    .started node {} (fun _ => true) helloAndCommand (.fresh hnil) hresumes hstart rfl
  obtain rfl : r = none := hserved
  have hfirst := hstarted.served 4 1 (.attach 7 0 1) (by rw [hasks]; exact ⟨_, rfl⟩) ⟨w₀, w₁, rfl, rfl, hattach⟩
  exact ⟨_, hfirst.served 4 1 (.cmd 7 1 9) (by rw [hasks]; exact ⟨_, rfl⟩) ⟨w₁, w₂, rfl, rfl, hcmd⟩⟩

/-- The client of `helloAndCommand` says nothing but `9`. -/
theorem says_helloAndCommand {session clientSeq cmd : UInt64} (h : Says helloAndCommand session clientSeq cmd) :
    cmd = 9 := by
  obtain ⟨conn, fromEventSeq, msgs, tail, hcarries, hmem⟩ := h
  by_cases hconn : conn = 1
  · subst hconn
    obtain heq := (Prod.mk.inj (hcarries.readMsgs.symm.trans carries_helloAndCommand.readMsgs)).1
    obtain ⟨-, rfl⟩ := List.cons.inj heq
    obtain heq := List.mem_singleton.mp hmem
    exact (ClientMsg.cmd.inj heq).2
  · have hbytes := hcarries.bytes
    rw [helloAndCommand, if_neg hconn, List.flatMap_cons] at hbytes
    have hlen := congrArg List.length hbytes
    simp only [writeMsg, List.length_append, leBytes_length, List.length_nil] at hlen
    omega

/-- One command of the script is in the journal, once. -/
theorem script_runs_once_of_hello : ∃ (running : Option (Running echo UInt64 UInt64)) (s : JStore),
    Sockets echoAware (· = helloAndCommand) running s ∧ commandsOf echoAware 7 (journaled echo s) = [(1, 9)] := by
  have hrun : (Gateway.oneCommand 1).any (fun p => decide (p.2.1 = none ∧
      (clientSeqs echoAware 7 (journaled echo p.2.2.2.st)).length = 1)) = true := by decide +kernel
  obtain ⟨⟨⟨g, w⟩, failed, g', w'⟩, hrun, hend⟩ := (Option.any_eq_true _ _).mp hrun
  obtain ⟨hserved, hone⟩ := of_decide_eq_true hend
  obtain ⟨running, hsockets⟩ := Sockets.oneCommand hrun hserved
  refine ⟨running, w'.st, hsockets, ?_⟩
  have hscript : ∀ stream, stream = helloAndCommand → ∀ clientSeq cmd, Says stream 7 clientSeq cmd →
      cmd = (fun _ : UInt64 => (9 : UInt64)) clientSeq := by
    rintro _ rfl clientSeq cmd hsays
    exact says_helloAndCommand hsays
  obtain ⟨n, hcommands, -⟩ := script_runs_once hsockets hscript
  have hn : n = 1 := by
    rw [← hone, ← commandsOf_seqs, List.length_map, hcommands, List.length_map, List.length_range']
  rw [hcommands, hn]
  rfl

end Ticktape.Gateway
