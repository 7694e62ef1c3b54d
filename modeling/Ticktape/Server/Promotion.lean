import Ticktape.Server.Bids

/-!
# Promotions that fail

`Server::promote` (`ticktape-server/src/lib.rs`) swaps the mode out before it looks at it, and gives the follower up
before it builds the leader. Only a shortfall puts the follower back. So a promotion that fails leaves the server as it
was exactly if the election was not won, or a follower that won it was behind (`failed_promotion_keeps_iff`); otherwise
the server is left without a role.
-/

set_option linter.dupNamespace false

namespace Ticktape.Server

open Ticktape.Lib Ticktape.Core Ticktape.Journal Ticktape.Transport Ticktape.Cluster Ticktape.Runtime

variable {svc : Service}

/-! ## What a server offers -/

/-- The role a server reports. -/
inductive Role where
  | leader
  | follower
  deriving DecidableEq

namespace Server

def role : Server svc → Role
  | leader _ _ => .leader
  | _ => .follower

/-- Highest applied or sequenced seq. -/
def seq : Server svc → ℕ
  | leader _ node => node.seq
  | follower m => m.follower.applied
  | transitioning _ => 0

/-- The service state, of the leader's node or of the follower's replica. -/
def service : Server svc → Option svc.State
  | leader _ node => some node.service
  | follower m => some m.follower.replica.service
  | transitioning _ => none

/-- Submit an input, and send its frames to the followers. -/
def submit (fuel : ℕ) (input : svc.Input) (sent : Bool) :
    Prog (Server svc) JStore ServerError (ℕ × List svc.Output) := do
  let server ← Prog.mem
  match server with
  | leader epoch node => do
    let result ← Prog.zoom (fun _ => node) (fun node _ => leader epoch node)
      (Prog.mapErr .node (Node.submit fuel input))
    if ¬sent then Prog.fail .net else pure result
  | _ => Prog.fail .wrongRole

end Server

/-- **A failed promotion changes nothing**: the server has its role, its state and its seq, and serves as before. -/
structure Kept (server server' : Server svc) : Prop where
  role : server'.role = server.role
  service : server'.service = server.service
  seq : server.seq ≤ server'.seq
  /-- A leader still accepts inputs. -/
  submits : server.role = .leader → ∀ fuel input sent w server'' w',
    Server.submit fuel input sent server' w ≠ .err .wrongRole server'' w'
  /-- A follower still pumps. -/
  pumps : server.role = .follower → ∀ fuel rounds w,
    Server.pump fuel rounds server' w = Server.pump fuel rounds server w

/-- **The promotion gives the role up**: the election is won, and the server is not a follower that is behind. -/
def Server.GivesUp (server : Server svc) (replies : List (Option VoteReply)) : Prop :=
  ∃ target epoch syncTo, server.bid = some target ∧ runElection target replies = .won epoch syncTo ∧
    ∀ m, server = .follower m → syncTo ≤ m.follower.applied

section Promote

variable {config : svc.Config} {clock : ℕ → UInt64} {replies : List (Option VoteReply)} {bound sent : Bool}
  {server server' : Server svc}

/-- A leader does not refuse an input for its role. -/
theorem submit_leader {epoch : UInt64} {node : Node svc} {fuel : ℕ} {input : svc.Input} {w w' : World JStore}
    {server'' : Server svc} :
    Server.submit fuel input sent (.leader epoch node) w ≠ .err .wrongRole server'' w' := by
  have hrole : mwp (Server.submit fuel input sent) (fun _ _ => True) (fun e (_ : Server svc) => e ≠ .wrongRole)
      (.leader epoch node) := by
    apply mwp_bind
    apply mwp_mem
    have hnode : mwp (Prog.zoom (fun _ => node) (fun node _ => Server.leader epoch node)
        (Prog.mapErr .node (Node.submit fuel input)) : Prog (Server svc) JStore ServerError _)
        (fun _ _ => True) (fun e _ => e ≠ .wrongRole) (.leader epoch node) := by
      apply mwp_zoom
      apply mwp_mapErr
      exact mwp_mono mwp_trivial (fun _ _ _ => trivial) fun _ _ _ => by simp
    apply mwp_seq hnode
    intro result server₁ _
    split
    · exact mwp_fail (by simp)
    · exact mwp_pure trivial
  exact fun hrun => mwp_err hrole hrun rfl

/-- A server that is what it was is kept. -/
theorem Kept.refl (server : Server svc) : Kept server server where
  role := rfl
  service := rfl
  seq := Nat.le_refl _
  submits := by
    intro hrole fuel input sent w server'' w'
    cases server with
    | leader epoch node => exact submit_leader
    | follower m => cases hrole
    | transitioning epoch => cases hrole
  pumps := fun _ _ _ _ => rfl

/-- **What a promotion that fails leaves**: the server itself, or none of it if it has given the role up. -/
theorem mwp_promote_failed (server : Server svc) :
    mwp (Server.promote config clock replies bound sent) (fun _ _ => True)
      (fun _ server' => server.GivesUp replies ∧ server' = .transitioning server.epoch ∨
        ¬server.GivesUp replies ∧ server' = server) server := by
  apply mwp_bind
  apply mwp_mem
  cases hbid : server.bid with
  | none => exact mwp_panic
  | some target =>
    simp only
    -- what is given up depends on this election alone
    have hgives : ∀ epoch syncTo, runElection target replies = .won epoch syncTo →
        (server.GivesUp replies ↔ ∀ m, server = .follower m → syncTo ≤ m.follower.applied) := by
      intro epoch syncTo hwon
      constructor
      · rintro ⟨target', epoch', syncTo', hbid', hwon', hahead⟩
        obtain rfl := Option.some.inj (hbid.symm.trans hbid')
        obtain ⟨-, rfl⟩ := ElectionOutcome.won.inj (hwon.symm.trans hwon')
        exact hahead
      · exact fun hahead => ⟨target, epoch, syncTo, hbid, hwon, hahead⟩
    have hlost : (∀ epoch syncTo, runElection target replies ≠ .won epoch syncTo) → ¬server.GivesUp replies := by
      rintro hne ⟨target', epoch', syncTo', hbid', hwon', -⟩
      obtain rfl := Option.some.inj (hbid.symm.trans hbid')
      exact hne epoch' syncTo' hwon'
    split
    · rename_i epoch syncTo hwon
      apply mwp_bind
      apply mwp_mem
      cases server with
      | follower m =>
        simp only
        split
        · rename_i hbehind
          refine mwp_fail (Or.inr ⟨fun hup => ?_, rfl⟩)
          exact absurd ((hgives epoch syncTo hwon).mp hup m rfl) (Nat.not_le.mpr hbehind)
        · rename_i hcaught
          have hup : (Server.follower m).GivesUp replies := by
            rw [hgives epoch syncTo hwon]
            rintro m' ⟨⟩
            exact Nat.not_lt.mp hcaught
          apply mwp_bind
          apply mwp_update
          have hnode : mwp (Prog.zoom (fun _ => ()) (fun _ server => server)
              (Server.becomeLeader config clock epoch bound sent) : Prog (Server svc) JStore ServerError (Node svc))
              (fun _ _ => True) (fun _ server' => server' = .transitioning m.follower.epoch)
              (.transitioning m.follower.epoch) := by
            apply mwp_zoom
            apply mwp_mono mwp_trivial
            · exact fun _ _ _ => trivial
            · exact fun _ _ _ => rfl
          apply mwp_seq (mwp_mono hnode (fun _ _ h => h) fun _ _ h => Or.inl ⟨hup, h⟩)
          intro node _ _
          apply mwp_update
          trivial
      | leader epoch node =>
        apply mwp_bind
        apply mwp_update
        refine mwp_fail (Or.inl ⟨?_, rfl⟩)
        rw [hgives _ _ hwon]
        rintro m ⟨⟩
      | transitioning epoch =>
        apply mwp_bind
        apply mwp_update
        refine mwp_fail (Or.inl ⟨?_, rfl⟩)
        rw [hgives _ _ hwon]
        rintro m ⟨⟩
    · rename_i highestPromised hout
      refine mwp_fail (Or.inr ⟨hlost ?_, rfl⟩)
      simp [hout]
    · rename_i hout
      refine mwp_fail (Or.inr ⟨hlost ?_, rfl⟩)
      simp [hout]

/-- **A failed promotion keeps a leader or a follower exactly if it did not give the role up.** -/
theorem failed_promotion_keeps_iff {e : ServerError} {w w' : World JStore}
    (hrole : ∀ epoch, server ≠ .transitioning epoch)
    (hrun : Server.promote config clock replies bound sent server w = .err e server' w') :
    Kept server server' ↔ ¬server.GivesUp replies := by
  rcases mwp_err (mwp_promote_failed server) hrun with ⟨hup, rfl⟩ | ⟨hkeeps, rfl⟩
  · refine ⟨fun hkept => ?_, fun hkeeps => absurd hup hkeeps⟩
    -- a server in transition has no service state
    have hservice := hkept.service
    cases server with
    | leader epoch node => cases hservice
    | follower m => cases hservice
    | transitioning epoch => exact absurd rfl (hrole epoch)
  · exact ⟨fun _ => hkeeps, fun _ => .refl _⟩

end Promote

/-! ## Two runs -/

/-- A follower that loses to epoch 7 is what it was. -/
theorem failed_promotion_keeps_of_lost : ∃ (w : World JStore) (server' : Server doubler),
    Server.promote () (fun _ => 5) (answers 2 promisedSeven) true true firstServer w =
      .err (.electionLost 7) server' w ∧ Kept firstServer server' := by
  have hbid : firstServer.bid = some 2 := by decide
  have hround : runElection 2 (answers 2 promisedSeven) = .lost 7 := by decide +kernel
  have hrun : Server.promote () (fun _ => 5) (answers 2 promisedSeven) true true firstServer emptyWorld =
      .err (.electionLost 7) firstServer emptyWorld := promote_lost hbid hround
  refine ⟨emptyWorld, firstServer, hrun, (failed_promotion_keeps_iff (fun epoch h => by cases h) hrun).mpr ?_⟩
  rintro ⟨target, epoch, syncTo, hbid', hwon, -⟩
  obtain rfl := Option.some.inj (hbid.symm.trans hbid')
  rw [hround] at hwon
  cases hwon

/-- Three acceptors that have promised nothing. -/
def unpromised : List Acceptor := [.new, .new, .new]

/-- The first server wins epoch 2, leads, and is promoted once more. -/
def promoteTwice : Option (Server doubler × World JStore × ServerError × Server doubler × World JStore) := do
  let (_, leader, w₁) ← (Server.promote () (fun _ => 5) (answers 2 unpromised) true true firstServer
    emptyWorld).returned
  let (e, server, w₂) ← (Server.promote () (fun _ => 5) (answers 3 unpromised) true true leader w₁).failed
  pure (leader, w₁, e, server, w₂)

/-- **A leader that is promoted loses its role**: it wins epoch 3, the promotion fails because it is no follower, and
it leads no longer. -/
theorem promotion_deposes_leader : ∃ (leader server : Server doubler) (w w' : World JStore) (e : ServerError),
    Candidacy.Reachable () ⟨some leader, w.st, [leader.epoch], []⟩ ∧ leader.role = .leader ∧
    Server.promote () (fun _ => 5) (answers 3 unpromised) true true leader w = .err e server w' ∧
    server = .transitioning 2 ∧ ¬Kept leader server := by
  have hplay : promoteTwice.any (fun p => decide (p.1.role = .leader ∧ p.1.epoch = 2 ∧ p.1.bid = some 3 ∧
      runElection 3 (answers 3 unpromised) = .won 3 0)) = true := by decide +kernel
  obtain ⟨⟨_, _, _, _, _⟩, hplay, hvals⟩ := (Option.any_eq_true _ _).mp hplay
  simp only [promoteTwice, bind, Option.bind_eq_some_iff, pure, Option.some.injEq, Prod.mk.injEq] at hplay
  obtain ⟨⟨_, leader, w₁⟩, hfirst, ⟨e, server, w₂⟩, hsecond, rfl, rfl, rfl, rfl, rfl⟩ := hplay
  obtain ⟨hrole, hepoch, hbid, hwon⟩ : leader.role = .leader ∧ leader.epoch = 2 ∧ leader.bid = some 3 ∧
      runElection 3 (answers 3 unpromised) = .won 3 0 := of_decide_eq_true hvals
  rw [Outcome.returned_eq_some] at hfirst
  rw [Outcome.failed_eq_some] at hsecond
  have hopen : Server.openFollower () .new () emptyWorld = .ok firstServer () emptyWorld := rfl
  have hreach := ((Candidacy.Reachable.start emptyWorld.st).step (.opened .new hopen)).step
    (.elected _ _ _ _ hfirst)
  have hnotTransitioning : ∀ epoch, leader ≠ .transitioning epoch := by
    rintro epoch rfl
    cases hrole
  have hgives : leader.GivesUp (answers 3 unpromised) := by
    refine ⟨3, 3, 0, hbid, hwon, ?_⟩
    rintro m rfl
    cases hrole
  refine ⟨leader, server, w₁, w₂, e, hreach, hrole, hsecond, ?_, fun hkept => ?_⟩
  · rcases mwp_err (mwp_promote_failed leader) hsecond with ⟨-, hserver⟩ | ⟨hkeeps, -⟩
    · rw [hserver, hepoch]
    · exact absurd hgives hkeeps
  · exact (failed_promotion_keeps_iff hnotTransitioning hsecond).mp hkept hgives

end Ticktape.Server
