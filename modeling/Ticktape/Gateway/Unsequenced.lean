import Ticktape.Gateway.Attachment

/-!
# Commands that failed to be sequenced

Admission takes the number and a slot of the window before the node is asked, and neither is given back when the node
refuses; the sinks of the session are dropped with the numbering and the outbox. So no failed attempt is undone
(`failed_command_not_undone`): its retry is answered as a duplicate of a command that was never sequenced.
-/

namespace Ticktape.Gateway

open Std Ticktape.Lib Ticktape.Core Ticktape.Journal Ticktape.Runtime

variable {svc : Service} {C E : Type}

/-- All of a session's sinks but its command connection. -/
def SessionSinks.Same (entry entry' : SessionSinks E) : Prop :=
  entry'.nextEventSeq = entry.nextEventSeq ∧ entry'.outbox = entry.outbox ∧ entry'.watchers = entry.watchers

/-- The admission state and the sinks of every session are what they were; the session's own command connection may
have been dropped. -/
structure Undone (session : UInt64) (g g' : Sequencer svc E) : Prop where
  flows : ∀ session', g'.flowOf session' = g.flowOf session'
  sinks : (g.sinksOf session).Same (g'.sinksOf session)
  others : ∀ session', session' ≠ session → g'.sinksOf session' = g.sinksOf session'

/-- What a command leaves that was admitted and not sequenced. -/
structure Spent (session : UInt64) (g g' : Sequencer svc E) : Prop where
  /-- The number and a slot of the window are taken. -/
  flow : g'.flowOf session =
    ⟨(g.flowOf session).next + 1, (g.flowOf session).window, (g.flowOf session).outstanding + 1⟩
  /-- The session starts over with its events. -/
  sinks : g'.sinksOf session = .new
  flows : ∀ session', session' ≠ session → g'.flowOf session' = g.flowOf session'
  others : ∀ session', session' ≠ session → g'.sinksOf session' = g.sinksOf session'
  sent : g'.sent = g.sent

section Failure

variable {aware : SessionAware svc C E} {fuel : ℕ} {session clientSeq : UInt64} {cmd : C} {g : Sequencer svc E}
  {w : World JStore} {Err : Empty → Sequencer svc E → World JStore → Prop}

theorem flowOf_setFlow (flow : SessionFlow) (session' : UInt64) :
    (g.setFlow session flow).flowOf session' = if session = session' then flow else g.flowOf session' :=
  Sequencer.flowOf_setFlow g session session' flow

theorem wpAt_sequenceCmd_spent (flow : SessionFlow) :
    wpAt (Sequencer.sequenceCmd aware fuel session clientSeq cmd flow)
      (fun failed g' _ => failed ≠ none → g'.flows = g.flows ∧ g'.window = g.window ∧ g'.sent = g.sent ∧
        g'.sinks = g.sinks.erase session) Err g w := by
  apply wpAt_bind
  apply wpAt_onNode
  · rintro ⟨seq, outputs⟩ node w' _
    apply wpAt_bind
    apply wpAt_update
    apply wpAt_bind
    apply wpAt_mono wpAt_self
    · intro _ g₁ w₁ _
      apply wpAt_bind
      apply wpAt_mono wpAt_self
      · intro _ g₂ w₂ _
        exact wpAt_pure fun hne => absurd rfl hne
      · exact fun e => e.elim
    · exact fun e => e.elim
  · intro e node w' _
    apply wpAt_bind
    apply wpAt_update
    exact wpAt_pure fun _ => ⟨rfl, rfl, rfl, rfl⟩

/-- A command that was admitted and not sequenced. -/
theorem wpAt_command_spent {flow : SessionFlow}
    (hadmitted : (g.flowOf session).admitSeq clientSeq.toNat = some (.accept, flow)) :
    wpAt (Sequencer.command aware fuel session clientSeq cmd)
      (fun failed g' _ => failed ≠ none → Spent session g g') Err g w := by
  have hflow : flow =
      ⟨(g.flowOf session).next + 1, (g.flowOf session).window, (g.flowOf session).outstanding + 1⟩ := by
    rcases SessionFlow.admit_cases hadmitted with ⟨hv, -⟩ | ⟨hv, -⟩ | ⟨hv, -⟩ | ⟨-, -, -, hflow⟩
    · cases hv
    · cases hv
    · cases hv
    · exact hflow
  apply wpAt_bind
  apply wpAt_mem
  rw [hadmitted]
  apply wpAt_bind
  apply wpAt_update
  apply wpAt_mono (wpAt_sequenceCmd_spent flow)
  · intro failed g' w' hspent hfailed
    obtain ⟨hflows, hwindow, hsent, hsinks⟩ := hspent hfailed
    have hflowOf : ∀ session', g'.flowOf session' = (g.setFlow session flow).flowOf session' := by
      intro session'
      rw [Sequencer.flowOf, Sequencer.flowOf, hflows, hwindow]
    have hsinksOf : ∀ session', g'.sinksOf session' =
        ({ g with sinks := g.sinks.erase session } : Sequencer svc E).sinksOf session' := by
      intro session'
      rw [Sequencer.sinksOf, Sequencer.sinksOf, hsinks]
      rfl
    refine ⟨?_, ?_, fun session' hne => ?_, fun session' hne => ?_, hsent⟩
    · rw [hflowOf, flowOf_setFlow, if_pos rfl, hflow]
    · rw [hsinksOf, sinksOf_erase, if_pos rfl]
    · rw [hflowOf, flowOf_setFlow, if_neg (Ne.symm hne)]
    · rw [hsinksOf, sinksOf_erase, if_neg (Ne.symm hne)]
  · exact fun _ _ _ h => h

/-- **A command that failed to be sequenced is never undone.** Whatever the gateway's state, if an admitted command
cannot be submitted, then its number stays taken, and so does a slot of the window; its retry is answered as a
duplicate; and of the sinks of the session nothing is left, so that its events are numbered from 1 again. The other
sessions are not concerned. -/
theorem failed_command_not_undone {flow : SessionFlow} {e : NodeError} {g' : Sequencer svc E} {w' : World JStore}
    (hadmitted : (g.flowOf session).admitSeq clientSeq.toNat = some (.accept, flow))
    (hserve : Sequencer.serve aware fuel (.cmd session clientSeq cmd) g w = .ok (some e) g' w') :
    ¬Undone session g g' ∧ Spent session g g' ∧
      (g'.flowOf session).admitSeq clientSeq.toNat = some (.duplicate, g'.flowOf session) := by
  have hstep : wpAt (Sequencer.command aware fuel session clientSeq cmd) _ (fun _ _ _ => True) g w :=
    wpAt_command_spent hadmitted
  have hspent := wpAt_ok hstep hserve (by simp)
  have hnext : clientSeq.toNat = (g.flowOf session).next := by
    rcases SessionFlow.admit_cases hadmitted with ⟨hv, -⟩ | ⟨hv, -⟩ | ⟨hv, -⟩ | ⟨-, hnext, -⟩
    · cases hv
    · cases hv
    · cases hv
    · exact hnext
  refine ⟨fun hundone => ?_, hspent, ?_⟩
  · have hsame := hundone.flows session
    rw [hspent.flow] at hsame
    have hmoved := congrArg SessionFlow.next hsame
    simp only at hmoved
    omega
  · rw [hspent.flow, hnext, SessionFlow.admitSeq, if_pos (Nat.lt_succ_self _)]

end Failure

instance : DecidableEq echo.Input := inferInstanceAs (DecidableEq (GatewayInput UInt64))

/-- The second command of session 7. -/
def secondCommand : echo.Input := GatewayInput.client 7 2 9

/-- A gateway starts on an empty directory, and session 7 connects and sends its first command. The storage call of the
second one fails. Returned are the gateway and the world in front of the second command, and what it returns. -/
def failedAppend : Option ((Sequencer echo UInt64 × World JStore) ×
    (Option NodeError × Sequencer echo UInt64 × World JStore)) := do
  let (node, _, w₀) ← ((Node.openWith ⟨⟨1024, .everyFrame⟩, 1, none, 1, none⟩ () (fun _ => 5) :
    Prog Unit JStore NodeError (Node echo)) () (.healthy ⟨Disk.empty, History.fresh⟩)).returned
  let g₀ ← Sequencer.start node {} fun _ => true
  let (r₁, g₁, w₁) ← (Sequencer.serve echoAware 4 (.attach 7 0 1) g₀ w₀).returned
  let (r₂, g₂, w₂) ← (Sequencer.serve echoAware 4 (.cmd 7 1 9) g₁ w₁).returned
  let w₂ := { w₂ with fates := [.fault 0] }
  let failed ← (Sequencer.serve echoAware 4 (.cmd 7 2 9) g₂ w₂).returned
  if r₁.isNone ∧ r₂.isNone then some ((g₂, w₂), failed) else none

theorem Interleaved.failedAppend {g g' : Sequencer echo UInt64} {w w' : World JStore} {failed : Option NodeError}
    (h : Gateway.failedAppend = some ((g, w), (failed, g', w'))) :
    Interleaved echoAware {} (fun _ => true) g [⟨1, .attach 7 0 1, none⟩, ⟨1, .cmd 7 1 9, none⟩] ∧
      Sequencer.serve echoAware 4 (.cmd 7 2 9) g w = .ok failed g' w' := by
  simp only [Gateway.failedAppend, bind, Option.bind_eq_some_iff] at h
  obtain ⟨⟨node, _, w₀⟩, -, g₀, hstart, ⟨r₁, g₁, w₁⟩, h₁, ⟨r₂, g₂, w₂⟩, h₂, ⟨r₃, g₃, w₃⟩, h₃, h⟩ := h
  obtain ⟨⟨hr₁, hr₂⟩, heq⟩ := Option.ite_none_right_eq_some.mp h
  obtain rfl := Option.isNone_iff_eq_none.mp hr₁
  obtain rfl := Option.isNone_iff_eq_none.mp hr₂
  cases heq
  rw [Outcome.returned_eq_some] at h₁ h₂ h₃
  have hattached := (Interleaved.start hstart).served 4 1 (.attach 7 0 1) ⟨rfl, by simp⟩ h₁
  have hopen : Continues [⟨1, .attach 7 0 1, none⟩] 1 (.cmd 7 1 9 : Req UInt64) := by
    constructor <;> simp [Req.Claims, Req.Closes]
  exact ⟨hattached.served 4 1 (.cmd 7 1 9) hopen h₂, h₃⟩

/-- The second command is not in the journal, and it is lost: its number and the numbering of the events are not what
they were. -/
theorem failed_append_consumes : ∃ (g g' : Sequencer echo UInt64) (w w' : World JStore) (e : NodeError)
    (flow : SessionFlow),
    Interleaved echoAware {} (fun _ => true) g [⟨1, .attach 7 0 1, none⟩, ⟨1, .cmd 7 1 9, none⟩] ∧
    (g.flowOf 7).admitSeq 2 = some (.accept, flow) ∧
    Sequencer.serve echoAware 4 (.cmd 7 2 9) g w = .ok (some e) g' w' ∧
    secondCommand ∉ journaled echo w'.st ∧ ¬Undone 7 g g' := by
  have hrun : failedAppend.any (fun p => decide (p.2.1.isSome = true ∧
      (p.1.1.flowOf 7).admitSeq 2 = some (.accept, ⟨3, 64, 1⟩) ∧
      secondCommand ∉ journaled echo p.2.2.2.st ∧
      (p.1.1.sinksOf 7).nextEventSeq = 2 ∧ (p.2.2.1.sinksOf 7).nextEventSeq = 1)) = true := by decide +kernel
  obtain ⟨⟨⟨g, w⟩, ⟨failed, g', w'⟩⟩, hrun, hend⟩ := (Option.any_eq_true _ _).mp hrun
  obtain ⟨hfailed, hadmitted, hlost, hbefore, hafter⟩ := of_decide_eq_true hend
  obtain ⟨e, rfl⟩ := Option.isSome_iff_exists.mp hfailed
  obtain ⟨hreach, hserve⟩ := Interleaved.failedAppend hrun
  refine ⟨g, g', w, w', e, _, hreach, hadmitted, hserve, hlost, fun hundone => ?_⟩
  have hsame := hundone.sinks.1
  simp only at hbefore hafter
  omega

/-- The retry of the second command is a duplicate. -/
theorem failed_command_not_undone_of_append : ∃ g g' : Sequencer echo UInt64, Spent 7 g g' ∧
    (g'.flowOf 7).admitSeq 2 = some (.duplicate, g'.flowOf 7) := by
  have hrun : failedAppend.any (fun p => decide (p.2.1.isSome = true ∧
      (p.1.1.flowOf 7).admitSeq 2 = some (.accept, ⟨3, 64, 1⟩))) = true := by decide +kernel
  obtain ⟨⟨⟨g, w⟩, ⟨failed, g', w'⟩⟩, hrun, hend⟩ := (Option.any_eq_true _ _).mp hrun
  obtain ⟨hfailed, hadmitted⟩ := of_decide_eq_true hend
  obtain ⟨e, rfl⟩ := Option.isSome_iff_exists.mp hfailed
  have hlost := failed_command_not_undone hadmitted (Interleaved.failedAppend hrun).2
  exact ⟨g, g', hlost.2⟩

end Ticktape.Gateway
