import Ticktape.Cluster.Voting
import Ticktape.Server.Place

/-!
# Bids

`Server::promote` (`ticktape-server/src/lib.rs`) bids one more than the epoch the server knows. That epoch is 1
when the server is opened, and only a fence that `pump` journals or a won election raises it: neither the fences in
the recovered journal nor the promise that a lost election reports do. A bid is fresh exactly when everything of
that kind was followed by such a fence or election (`fresh_bid_iff`), and then it wins where all acceptors answer.
-/

set_option linter.dupNamespace false

namespace Ticktape.Server

open Ticktape.Lib Ticktape.Core Ticktape.Journal Ticktape.Transport Ticktape.Cluster Ticktape.Runtime

variable {svc : Service}

/-! ## Fences -/

/-- The epoch that a frame fences. -/
def fenceEpoch (frame : Frame) : Option UInt64 :=
  if frame.kind = .epochChange then
    match EpochChange.fromFrame frame with
    | .ok change => some change.epoch
    | .error _ => none
  else none

def fencesOf (frames : List Frame) : List UInt64 := frames.filterMap fenceEpoch

/-! ## The server -/

/-- Why an operation of the server failed. -/
inductive ServerError where
  | electionLost (highestPromised : UInt64)
  | wrongRole
  /-- A socket could not be bound, or a frame not sent. -/
  | net
  | node (e : NodeError)

/-- The roles of a server, with its epoch: a follower's is where its pump keeps it. -/
inductive Server (svc : Service) where
  | follower (m : Replicating svc)
  | leader (epoch : UInt64) (node : Node svc)
  | transitioning (epoch : UInt64)

namespace Server

def epoch : Server svc → UInt64
  | follower m => m.follower.epoch
  | leader epoch _ => epoch
  | transitioning epoch => epoch

/-- The epoch that a promotion bids, if there is one. -/
def bid (server : Server svc) : Option UInt64 :=
  if server.epoch.toNat + 1 < 2 ^ 64 then some (server.epoch + 1) else none

/-- Open a server; votes are served from the same directory. -/
def openFollower (config : svc.Config) (acceptor : Acceptor) : Prog Unit JStore JournalError (Server svc) := do
  let recovered ← Journal.openWith followerConfig
  pure (follower ⟨buildFollower config acceptor recovered, recovered.journal⟩)

/-- Poll the feed, and journal and apply what it brings; a leader does nothing. -/
def pump (fuel : ℕ) (rounds : List Round) : Prog (Server svc) JStore PumpError ℕ := do
  let server ← Prog.mem
  match server with
  | follower m => Prog.zoom (fun _ => m) (fun m _ => follower m) (Replicating.pump fuel rounds)
  | _ => pure 0

/-- Open a node on the journal, bind the sockets, fence the epoch and send the fence to the followers. -/
def becomeLeader (config : svc.Config) (clock : ℕ → UInt64) (epoch : UInt64) (bound sent : Bool) :
    Prog Unit JStore ServerError (Node svc) := do
  let node ← Prog.mapErr .node (Node.openWith leaderConfig config clock)
  if ¬bound then Prog.fail .net
  else do
    let node ← Prog.owning node (Prog.mapErr .node (do
      let _ ← Node.fence epoch
      pure ()))
    if ¬sent then Prog.fail .net else pure node

/-- Lead the epoch that was won, if nothing is missing. -/
def finishPromotion (config : svc.Config) (clock : ℕ → UInt64) (epoch : UInt64) (syncTo : ℕ)
    (bound sent : Bool) : Prog (Server svc) JStore ServerError Unit := do
  let server ← Prog.mem
  match server with
  | follower m =>
    if m.follower.applied < syncTo then Prog.fail (.electionLost epoch)
    else do
      Prog.update fun server => transitioning server.epoch
      let node ← Prog.zoom (fun _ => ()) (fun _ server => server) (becomeLeader config clock epoch bound sent)
      Prog.update fun _ => leader epoch node
  | _ => do
    -- whatever the role was, it has been replaced by now
    Prog.update fun server => transitioning server.epoch
    Prog.fail .wrongRole

/-- Run an election and, if it is won, become the leader. -/
def promote (config : svc.Config) (clock : ℕ → UInt64) (replies : List (Option VoteReply)) (bound sent : Bool) :
    Prog (Server svc) JStore ServerError Unit := do
  let server ← Prog.mem
  match server.bid with
  | none => Prog.panic
  | some target =>
    match runElection target replies with
    | .won epoch syncTo => finishPromotion config clock epoch syncTo bound sent
    | .lost highestPromised => Prog.fail (.electionLost highestPromised)
    | .pending => Prog.fail (.electionLost target)

/-- Stand for election if the leader is suspected; a lost election is no error. -/
def maybeFailover (config : svc.Config) (clock : ℕ → UInt64) (suspected : Bool)
    (replies : List (Option VoteReply)) (bound sent : Bool) : Prog (Server svc) JStore ServerError Unit :=
  if ¬suspected then pure ()
  else do
    let result ← Prog.attempt (promote config clock replies bound sent)
    match result with
    | .ok () => pure ()
    | .error (.electionLost _) => pure ()
    | .error e => Prog.fail e

/-- A failover is a promotion whose loss is not reported further. -/
theorem left_maybeFailover {config : svc.Config} {clock : ℕ → UInt64} {replies : List (Option VoteReply)}
    {bound sent : Bool} (server : Server svc) (w : World JStore) :
    left (maybeFailover config clock true replies bound sent server w) =
      left (promote config clock replies bound sent server w) := by
  show left (Prog.andThen (Prog.attempt (promote config clock replies bound sent)) _ server w) = _
  unfold Prog.andThen Prog.attempt
  cases promote config clock replies bound sent server w with
  | ok u server' w' => rfl
  | err e server' w' => cases e <;> rfl
  | down w' => rfl
  | spin => rfl

/-- The frames that a follower has journaled. -/
def journaled : Server svc → List Frame
  | follower m => m.follower.journal
  | _ => []

end Server

/-! ## Runs -/

/-- The frames that the journal of a directory holds. -/
def heldFrames (s : JStore) : List Frame :=
  match (Journal.openWith followerConfig () (World.healthy s)).returned with
  | some (recovered, _, _) => recovered.frames
  | none => []

/-- What a failed operation reports of promises. -/
def ServerError.reported : ServerError → List UInt64
  | electionLost highestPromised => [highestPromised]
  | _ => []

/-- A server, if it runs, and its directory. Since it was opened it has `adopted` the epochs of the fences that its
pump journaled and of the elections it won; `reported` are the promises that all its lost elections reported. -/
structure Candidacy (svc : Service) where
  server : Option (Server svc)
  store : JStore
  adopted : List UInt64
  reported : List UInt64

/-- One step. -/
inductive CandidacyStep (config : svc.Config) : Candidacy svc → Candidacy svc → Prop where
  | opened {w w' : World JStore} {server : Server svc} {adopted reported : List UInt64} (acceptor : Acceptor) :
      Server.openFollower config acceptor () w = .ok server () w' →
      CandidacyStep config ⟨none, w.st, adopted, reported⟩ ⟨some server, w'.st, [], reported⟩
  | pumped {w w' : World JStore} {server server' : Server svc} {adopted reported : List UInt64} (fuel : ℕ)
      (rounds : List Round) : left (Server.pump fuel rounds server w) = some (server', w') →
      CandidacyStep config ⟨some server, w.st, adopted, reported⟩
        ⟨some server', w'.st, adopted ++ fencesOf (server'.journaled.drop server.journaled.length), reported⟩
  /-- `promote`, or `maybe_failover`, which promotes. -/
  | elected {w w' : World JStore} {server server' : Server svc} {adopted reported : List UInt64}
      (clock : ℕ → UInt64) (replies : List (Option VoteReply)) (bound sent : Bool) :
      Server.promote config clock replies bound sent server w = .ok () server' w' →
      CandidacyStep config ⟨some server, w.st, adopted, reported⟩
        ⟨some server', w'.st, adopted ++ [server'.epoch], reported⟩
  | notElected {w w' : World JStore} {server server' : Server svc} {adopted reported : List UInt64}
      {e : ServerError} (clock : ℕ → UInt64) (replies : List (Option VoteReply)) (bound sent : Bool) :
      Server.promote config clock replies bound sent server w = .err e server' w' →
      CandidacyStep config ⟨some server, w.st, adopted, reported⟩
        ⟨some server', w'.st, adopted, reported ++ e.reported⟩
  /-- A leader sequences inputs. -/
  | submitted {w w' : World JStore} {epoch : UInt64} {node node' : Node svc} {adopted reported : List UInt64}
      (fuel : ℕ) (input : svc.Input) : left (Node.submit fuel input node w) = some (node', w') →
      CandidacyStep config ⟨some (.leader epoch node), w.st, adopted, reported⟩
        ⟨some (.leader epoch node'), w'.st, adopted, reported⟩
  /-- The acceptor thread answers a vote, and writes nothing but its own file. -/
  | voted {c : Candidacy svc} {s : JStore} : segs s = segs c.store → CandidacyStep config c { c with store := s }
  /-- The process ends at any point, and what is in its directory then may be anything. -/
  | stopped {c : Candidacy svc} (s : JStore) : CandidacyStep config c ⟨none, s, c.adopted, c.reported⟩

/-- The runs of a server, from its first start. -/
inductive Candidacy.Reachable (config : svc.Config) : Candidacy svc → Prop where
  | start (s : JStore) : Reachable config ⟨none, s, [], []⟩
  | step {c c' : Candidacy svc} : Reachable config c → CandidacyStep config c c' → Reachable config c'

/-- **The property**: a bid is above every fence in the own journal, and above every promise reported. -/
def Candidacy.Fresh (c : Candidacy svc) (bid : UInt64) : Prop :=
  (∀ e ∈ fencesOf (heldFrames c.store), e < bid) ∧ ∀ e ∈ c.reported, e < bid

/-- **The condition**: whatever the journal fences above epoch 1, and whatever was reported, a fence that the server
journaled since it was opened, or an election it won since, is at least as high. -/
def Candidacy.Covered (c : Candidacy svc) : Prop :=
  ∀ e ∈ fencesOf (heldFrames c.store) ++ c.reported, e ≤ 1 ∨ ∃ a ∈ c.adopted, e ≤ a

/-! ## The epoch of a server -/

/-- The epoch `now` is what the epoch `before` was raised to by `fences`. -/
structure Raised (fences : List UInt64) (before now : UInt64) : Prop where
  le : before ≤ now
  fence_le : ∀ e ∈ fences, e ≤ now
  mem : now = before ∨ now ∈ fences

theorem Raised.refl (e : UInt64) : Raised [] e e := ⟨UInt64.le_refl _, by simp, Or.inl rfl⟩

theorem Raised.trans {fences fences' : List UInt64} {before now later : UInt64} (h : Raised fences before now)
    (h' : Raised fences' now later) : Raised (fences ++ fences') before later := by
  refine ⟨UInt64.le_trans h.le h'.le, fun e he => ?_, ?_⟩
  · rcases List.mem_append.mp he with he | he
    · exact UInt64.le_trans (h.fence_le e he) h'.le
    · exact h'.fence_le e he
  · rcases h'.mem with rfl | hmem
    · exact h.mem.imp_right (List.mem_append_left _)
    · exact Or.inr (List.mem_append_right _ hmem)

/-- What a follower journaled is what raised its epoch. -/
def Grown (m m' : Replicating svc) : Prop :=
  ∃ new, m'.follower.journal = m.follower.journal ++ new ∧ Raised (fencesOf new) m.follower.epoch m'.follower.epoch

section Pump

variable {m m' : Replicating svc}

theorem Grown.same (hjournal : m'.follower.journal = m.follower.journal)
    (hepoch : m'.follower.epoch = m.follower.epoch) : Grown m m' :=
  ⟨[], by rw [hjournal, List.append_nil], by rw [hepoch]; exact .refl _⟩

theorem Grown.trans {m'' : Replicating svc} (h : Grown m m') (h' : Grown m' m'') : Grown m m'' := by
  obtain ⟨new, hjournal, hraised⟩ := h
  obtain ⟨new', hjournal', hraised'⟩ := h'
  refine ⟨new ++ new', by rw [hjournal', hjournal, List.append_assoc], ?_⟩
  rw [fencesOf, List.filterMap_append]
  exact hraised.trans hraised'

/-- **A frame is journaled**, and a fence adopted. -/
theorem grown_onFrame (frame : Frame) : Grown m { m with follower := m.follower.onFrame frame } := by
  unfold Follower.onFrame
  split
  · refine ⟨[frame], rfl, ?_⟩
    simp only [fencesOf, List.filterMap_cons, List.filterMap_nil, fenceEpoch]
    by_cases hkind : frame.kind = .epochChange
    · rw [if_pos hkind, if_pos hkind]
      cases EpochChange.fromFrame frame with
      | error e => exact .refl _
      | ok change =>
        obtain ⟨hold, hnew, hmem⟩ := max_bounds m.follower.epoch change.epoch
        refine ⟨hold, ?_, ?_⟩
        · simpa only [List.mem_singleton, forall_eq] using hnew
        · simpa only [List.mem_singleton] using hmem
    · rw [if_neg hkind, if_neg hkind]
      exact .refl _
  · exact .same rfl rfl

theorem mwp_onFrame_grown (frame : Frame) :
    mwp (Replicating.onFrame frame) (fun _ m' => Grown m m') (fun _ m' => Grown m m') m := by
  apply mwp_bind
  apply mwp_mem
  have hnext : mwp (nextSeq m.follower.applied : Prog (Replicating svc) JStore PumpError ℕ)
      (fun _ m' => m' = m) (fun _ m' => Grown m m') m := by
    intro s
    exact wp_nextSeq (fun _ => rfl) (fun _ => trivial)
  apply mwp_seq hnext
  intro next m₁ hm
  rw [hm]
  split
  · have happend : mwp (Replicating.onJournal (append frame)) (fun _ m' => m'.follower = m.follower)
        (fun _ m' => Grown m m') m := by
      apply mwp_zoom
      apply mwp_mono mwp_trivial
      · exact fun _ _ _ => rfl
      · exact fun _ _ _ => .same rfl rfl
    apply mwp_seq happend
    intro _ m₂ hfollower
    apply mwp_bind
    apply mwp_update
    apply mwp_pure
    have hgrown : Grown m₂ { m₂ with follower := m₂.follower.onFrame frame } := grown_onFrame frame
    exact Grown.trans (.same (by rw [hfollower]) (by rw [hfollower])) hgrown
  · exact mwp_pure (.same rfl rfl)

/-- **A pump** adopts the fences that it journals, and no others. -/
theorem mwp_pump_grown (fuel : ℕ) (rounds : List Round) :
    mwp (Replicating.pump fuel rounds) (fun _ m' => Grown m m') (fun _ m' => Grown m m') m := by
  induction fuel generalizing m rounds with
  | zero => exact mwp_pure (.same rfl rfl)
  | succ fuel ih =>
    apply mwp_bind
    apply mwp_mem
    apply mwp_bind
    apply mwp_update
    have hpolled : Grown m { m with follower := { m.follower with
        reassembler := (Receiver.poll m.follower.reassembler rounds).2.1 } } := .same rfl rfl
    match (Receiver.poll m.follower.reassembler rounds).1 with
    | .error e => exact mwp_fail hpolled
    | .ok (some frame) =>
      apply mwp_seq (mwp_mono (mwp_onFrame_grown frame) (fun _ _ h => hpolled.trans h) (fun _ _ h => hpolled.trans h))
      intro applied m₁ h₁
      apply mwp_seq (mwp_mono (ih _) (fun _ _ h => h₁.trans h) (fun _ _ h => h₁.trans h))
      exact fun more m₂ h₂ => mwp_pure h₂
    | .ok none =>
      simp only
      split
      · exact mwp_pure hpolled
      · exact mwp_mono (ih _) (fun _ _ h => hpolled.trans h) (fun _ _ h => hpolled.trans h)

end Pump

section Promotion

variable {config : svc.Config} {clock : ℕ → UInt64} {replies : List (Option VoteReply)} {bound sent : Bool}

/-- **A promotion** that succeeds raises the epoch to the bid; one that fails does not move it. -/
theorem mwp_promote (server : Server svc) :
    mwp (Server.promote config clock replies bound sent)
      (fun _ server' => server.bid = some server'.epoch) (fun _ server' => server'.epoch = server.epoch) server := by
  apply mwp_bind
  apply mwp_mem
  cases hbid : server.bid with
  | none => exact mwp_panic
  | some target =>
    simp only
    split
    · rename_i epoch syncTo hwon
      have htarget : epoch = target := contact_won hwon
      apply mwp_bind
      apply mwp_mem
      cases server with
      | follower m =>
        simp only
        split
        · exact mwp_fail rfl
        · apply mwp_bind
          apply mwp_update
          have hnode : mwp (Prog.zoom (fun _ => ()) (fun _ server => server)
              (Server.becomeLeader config clock epoch bound sent) : Prog (Server svc) JStore ServerError (Node svc))
              (fun _ _ => True) (fun _ server' => server'.epoch = m.follower.epoch)
              (.transitioning m.follower.epoch) := by
            apply mwp_zoom
            apply mwp_mono mwp_trivial
            · exact fun _ _ _ => trivial
            · exact fun _ _ _ => rfl
          apply mwp_seq hnode
          intro node _ _
          apply mwp_update
          rw [htarget]
          rfl
      | leader epoch node =>
        apply mwp_bind
        apply mwp_update
        exact mwp_fail rfl
      | transitioning epoch =>
        apply mwp_bind
        apply mwp_update
        exact mwp_fail rfl
    · exact mwp_fail rfl
    · exact mwp_fail rfl

/-- A lost election changes nothing. -/
theorem promote_lost {server : Server svc} {w : World JStore} {target highestPromised : UInt64}
    (hbid : server.bid = some target) (hlost : runElection target replies = .lost highestPromised) :
    Server.promote config clock replies bound sent server w = .err (.electionLost highestPromised) server w := by
  have hrest : (match server.bid with
      | none => Prog.panic
      | some target =>
        match runElection target replies with
        | .won epoch syncTo => Server.finishPromotion config clock epoch syncTo bound sent
        | .lost highestPromised => Prog.fail (.electionLost highestPromised)
        | .pending => Prog.fail (.electionLost target) : Prog (Server svc) JStore ServerError Unit) =
      Prog.fail (.electionLost highestPromised) := by
    simp only [hbid, hlost]
  exact congrFun (congrFun hrest server) w

end Promotion

/-! ## The theorem -/

section Runs

variable {config : svc.Config} {c c' : Candidacy svc}

/-- **The invariant**: the epoch of a server that runs is the highest it adopted, or 1. -/
def Candidacy.Inv (c : Candidacy svc) : Prop := ∀ server, c.server = some server → Raised c.adopted 1 server.epoch

/-- **A server's pump** raises its epoch to the fences that it journals. -/
theorem mwp_pump_raised (fuel : ℕ) (rounds : List Round) (server : Server svc) :
    mwp (Server.pump fuel rounds)
      (fun _ server' => Raised (fencesOf (server'.journaled.drop server.journaled.length)) server.epoch server'.epoch)
      (fun _ server' => Raised (fencesOf (server'.journaled.drop server.journaled.length)) server.epoch server'.epoch)
      server := by
  apply mwp_bind
  apply mwp_mem
  cases server with
  | follower m =>
    apply mwp_zoom
    apply mwp_mono (mwp_pump_grown fuel rounds)
    · rintro _ m' ⟨new, hjournal, hraised⟩
      simpa [Server.journaled, Server.epoch, hjournal] using hraised
    · rintro _ m' ⟨new, hjournal, hraised⟩
      simpa [Server.journaled, Server.epoch, hjournal] using hraised
  | leader epoch node => exact mwp_pure (.refl _)
  | transitioning epoch => exact mwp_pure (.refl _)

/-- The bid is the next epoch. -/
theorem bid_eq {server : Server svc} {bid : UInt64} (h : server.bid = some bid) :
    bid.toNat = server.epoch.toNat + 1 := by
  unfold Server.bid at h
  split at h
  · rename_i hlt
    cases h
    rw [UInt64.toNat_add]
    exact Nat.mod_eq_of_lt hlt
  · cases h

/-- **Step lemma.** -/
theorem CandidacyStep.inv (hstep : CandidacyStep config c c') (h : c.Inv) : c'.Inv := by
  cases hstep with
  | opened acceptor hrun =>
    intro _ hup
    cases hup
    have hone : mwp (Server.openFollower config acceptor) (fun server _ => server.epoch = 1) (fun _ _ => True) () := by
      apply mwp_seq mwp_trivial
      exact fun recovered _ _ => mwp_pure rfl
    rw [mwp_ok hone hrun]
    exact .refl 1
  | @pumped w w' server server' adopted reported fuel rounds hrun =>
    intro _ hup
    cases hup
    have hpumped := mwp_left (mwp_pump_raised fuel rounds server) hrun
    exact (h server rfl).trans hpumped
  | @elected w w' server server' adopted reported clock replies bound sent hrun =>
    intro _ hup
    cases hup
    have hbid := mwp_ok (mwp_promote server) hrun
    have hlt : server.epoch < server'.epoch := by
      rw [UInt64.lt_iff_toNat_lt, bid_eq hbid]
      omega
    apply (h server rfl).trans
    exact ⟨UInt64.le_of_lt hlt, by simp, Or.inr (by simp)⟩
  | notElected clock replies bound sent hrun =>
    intro _ hup
    cases hup
    have hsame := mwp_err (mwp_promote _) hrun
    rw [hsame]
    exact h _ rfl
  | @submitted _ _ epoch node _ _ _ fuel input hrun =>
    intro _ hup
    cases hup
    exact h (.leader epoch node) rfl
  | voted hsegs => exact h
  | stopped s =>
    intro _ hup
    cases hup

/-- **Run lemma.** -/
theorem Candidacy.Reachable.inv (h : c.Reachable config) : c.Inv := by
  induction h with
  | start s =>
    intro _ hup
    cases hup
  | step _ hstep ih => exact hstep.inv ih

/-- Below the next epoch is what the highest adopted one covers. -/
theorem Raised.lt_iff {adopted : List UInt64} {epoch bid e : UInt64} (h : Raised adopted 1 epoch)
    (hbid : bid.toNat = epoch.toNat + 1) : e < bid ↔ e ≤ 1 ∨ ∃ a ∈ adopted, e ≤ a := by
  have hlt : e < bid ↔ e ≤ epoch := by
    rw [UInt64.lt_iff_toNat_lt, UInt64.le_iff_toNat_le]
    omega
  rw [hlt]
  constructor
  · intro hle
    rcases h.mem with rfl | hmem
    · exact Or.inl hle
    · exact Or.inr ⟨epoch, hmem, hle⟩
  · rintro (hle | ⟨a, ha, hle⟩)
    · exact UInt64.le_trans hle h.le
    · exact UInt64.le_trans hle (h.fence_le a ha)

/-- **When a bid is fresh**, and that a fresh one wins where a lost round reached every acceptor, the next round does,
and nobody bid in between. -/
theorem fresh_bid_iff (h : c.Reachable config) {server : Server svc} (hup : c.server = some server) {bid : UInt64}
    (hbid : server.bid = some bid) :
    (c.Fresh bid ↔ c.Covered) ∧
    (c.Fresh bid → ∀ (acceptors acceptors' : List Acceptor) (epoch : UInt64), acceptors ≠ [] →
      acceptors.length ≤ 2 ^ 32 → (runElection epoch (answers epoch acceptors)).reports epoch ∈ c.reported →
      acceptors'.map (·.promised) = (canvass (.new epoch acceptors.length) 0 acceptors).map (·.promised) →
      ∃ syncTo, runElection bid (answers bid acceptors') = .won bid syncTo) := by
  have hraised := h.inv server hup
  have hiff : ∀ e, e < bid ↔ e ≤ 1 ∨ ∃ a ∈ c.adopted, e ≤ a := fun e => hraised.lt_iff (bid_eq hbid)
  constructor
  · unfold Candidacy.Fresh Candidacy.Covered
    simp only [hiff, List.forall_mem_append]
  · intro hfresh acceptors acceptors' epoch hne hlen hreported hsame
    exact won_of_reported hne hlen hsame (hfresh.2 _ hreported)

end Runs

/-! ## Two runs -/

/-- A server that was opened on an empty directory. -/
def firstServer : Server doubler := .follower ⟨buildFollower () .new ⟨emptyJournal, [], 1, false⟩, emptyJournal⟩

/-- Three acceptors that have promised epoch 7. -/
def promisedSeven : List Acceptor := [⟨7, 0⟩, ⟨7, 0⟩, ⟨7, 0⟩]

/-- The first bid is 2, and is rejected. -/
theorem reachable_rejected :
    Candidacy.Reachable () ⟨some firstServer, emptyWorld.st, [], [7]⟩ := by
  have hopen : Server.openFollower () .new () emptyWorld = .ok firstServer () emptyWorld := rfl
  have hlost : Server.promote () (fun _ => 5) (answers 2 promisedSeven) true true firstServer emptyWorld =
      .err (.electionLost 7) firstServer emptyWorld := by
    have hbid : firstServer.bid = some 2 := by decide
    have hround : runElection 2 (answers 2 promisedSeven) = .lost 7 := by decide +kernel
    exact promote_lost hbid hround
  exact .step (.step (.start emptyWorld.st) (.opened .new hopen)) (.notElected _ _ _ _ hlost)

/-- The fence of epoch 7 arrives after the lost election: the next bid is 8. -/
theorem fresh_bid_of_fence : ∃ (c : Candidacy doubler) (server : Server doubler) (bid : UInt64),
    c.server = some server ∧ server.bid = some bid ∧ c.reported = [7] ∧ c.Fresh bid ∧
    ∃ syncTo, runElection bid (answers bid promisedSeven) = .won bid syncTo := by
  have hrun : (Server.pump 2 [Deployment.datagram [Deployment.fenceFrame 7 1]] firstServer emptyWorld).returned.any
      (fun p => decide (p.2.1.bid = some 8 ∧ fencesOf (p.2.1.journaled.drop firstServer.journaled.length) = [7] ∧
        fencesOf (heldFrames p.2.2.st) = [7])) = true := by decide +kernel
  obtain ⟨⟨applied, server, w⟩, hrun, hvals⟩ := (Option.any_eq_true _ _).mp hrun
  obtain ⟨hbid, hadopted, hheld⟩ := of_decide_eq_true hvals
  rw [Outcome.returned_eq_some] at hrun
  have hpump := reachable_rejected.step (.pumped (w := emptyWorld) 2 _ (by rw [hrun]; rfl))
  obtain ⟨hfresh, hwins⟩ := fresh_bid_iff hpump rfl hbid
  have hcovered := hfresh.mpr fun e he => by
    rw [hheld] at he
    refine Or.inr ⟨7, ?_, ?_⟩
    · rw [hadopted]
      exact List.mem_singleton_self 7
    · rcases List.mem_append.mp he with he | he
      · exact UInt64.le_of_eq (List.mem_singleton.mp he)
      · exact UInt64.le_of_eq (List.mem_singleton.mp he)
  refine ⟨_, server, 8, rfl, hbid, rfl, hcovered, ?_⟩
  have hreports : (runElection 2 (answers 2 promisedSeven)).reports 2 = 7 := by decide +kernel
  apply hwins hcovered promisedSeven promisedSeven 2
  · decide
  · decide
  · rw [hreports]
    exact List.mem_singleton_self 7
  · decide +kernel

/-- **A bid that was rejected is bid again**: a caught-up server that lost once to epoch 7 loses the next attempt, too. -/
theorem rejected_bid_again : ∃ (c : Candidacy doubler) (server : Server doubler) (bid : UInt64),
    c.Reachable () ∧ c.server = some server ∧ server.bid = some bid ∧ c.reported = [7] ∧ ¬c.Fresh bid ∧
    promisedSeven.map (·.promised) = (canvass (.new bid promisedSeven.length) 0 promisedSeven).map (·.promised) ∧
    runElection bid (answers bid promisedSeven) = .lost 7 := by
  refine ⟨_, firstServer, 2, reachable_rejected, rfl, by decide, rfl, ?_, by decide +kernel, by decide +kernel⟩
  rintro ⟨-, hreported⟩
  have hlt := hreported 7 (by decide)
  revert hlt
  decide

end Ticktape.Server
