import Mathlib.Data.Finset.Card
import Mathlib.Data.Finset.Insert

/-!
# Elections

One voter and one candidate (`ticktape-cluster/src/election.rs`). An acceptor grants only epochs above
everything it promised, and a candidate counts the distinct acceptors that granted its epoch and
remembers the highest high-water among their grants.
-/

namespace Ticktape.Cluster

/-- How many of `voters` make a majority. -/
def majority (voters : ℕ) : ℕ := voters / 2 + 1

theorem majority_pos (voters : ℕ) : 0 < majority voters := Nat.succ_pos _

/-- A candidate's request for the lease on `epoch`. -/
structure VoteRequest where
  epoch : UInt64

/-- An acceptor's answer. -/
inductive VoteReply where
  /-- The lease is granted; `highWater` is the last seq this acceptor's replica has journaled. -/
  | grant (epoch : UInt64) (highWater : ℕ)
  /-- The acceptor has already promised `promised`. -/
  | reject (promised : UInt64)
  deriving DecidableEq

/-! ## Acceptors -/

/-- One voter's election state. -/
structure Acceptor where
  promised : UInt64
  highWater : ℕ

namespace Acceptor

def new : Acceptor := ⟨0, 0⟩

/-- The co-located replica has journaled `seq`. -/
def observeSeq (a : Acceptor) (seq : ℕ) : Acceptor := { a with highWater := max a.highWater seq }

/-- A fence truncated the co-located journal to `seq`. -/
def resetHighWater (a : Acceptor) (seq : ℕ) : Acceptor := { a with highWater := seq }

/-- Answer a vote request. -/
def handle (a : Acceptor) (request : VoteRequest) : VoteReply × Acceptor :=
  if request.epoch > a.promised then
    (.grant request.epoch a.highWater, { a with promised := request.epoch })
  else (.reject a.promised, a)

/-- What handling a request can do. -/
theorem handle_cases (a : Acceptor) (request : VoteRequest) :
    (a.promised < request.epoch ∧ a.handle request =
      (.grant request.epoch a.highWater, { a with promised := request.epoch })) ∨
    (request.epoch ≤ a.promised ∧ a.handle request = (.reject a.promised, a)) := by
  unfold handle
  by_cases h : request.epoch > a.promised
  · exact Or.inl ⟨h, if_pos h⟩
  · exact Or.inr ⟨UInt64.not_lt.mp h, if_neg h⟩

end Acceptor

/-! ## Candidates -/

/-- What an election has concluded so far. -/
inductive ElectionOutcome where
  | pending
  /-- A majority granted; `syncTo` is the highest high-water among the grants. -/
  | won (epoch : UInt64) (syncTo : ℕ)
  | lost (highestPromised : UInt64)
  deriving DecidableEq

/-- A candidate's tally for one attempt. -/
structure Election where
  epoch : UInt64
  needed : ℕ
  granters : Finset UInt32
  syncTo : ℕ
  highestPromised : UInt64
  lost : Bool

namespace Election

/-- Start a bid for `epoch` among `voters` acceptors. -/
def new (epoch : UInt64) (voters : ℕ) : Election := ⟨epoch, majority voters, ∅, 0, 0, false⟩

def request (e : Election) : VoteRequest := ⟨e.epoch⟩

/-- Record the reply of acceptor `sender`. -/
def onReply (e : Election) (sender : UInt32) : VoteReply → Election
  | .grant epoch highWater =>
    -- a grant for another epoch is stale
    if epoch = e.epoch then
      { e with granters := insert sender e.granters, syncTo := max e.syncTo highWater }
    else e
  | .reject promised =>
    { e with
      highestPromised := max e.highestPromised promised
      lost := e.lost || decide (promised ≥ e.epoch) }

/-- The conclusion from the replies so far. -/
def outcome (e : Election) : ElectionOutcome :=
  if e.granters.card ≥ e.needed then .won e.epoch e.syncTo
  else if e.lost then .lost e.highestPromised
  else .pending

theorem outcome_eq_won {e : Election} {epoch : UInt64} {syncTo : ℕ} :
    e.outcome = .won epoch syncTo ↔
      e.needed ≤ e.granters.card ∧ e.epoch = epoch ∧ e.syncTo = syncTo := by
  unfold outcome
  split
  · simp_all
  · split <;> simp_all

@[simp] theorem onReply_epoch (e : Election) (sender : UInt32) (reply : VoteReply) :
    (e.onReply sender reply).epoch = e.epoch := by
  cases reply with
  | grant epoch highWater => simp only [onReply]; split <;> rfl
  | reject promised => rfl

@[simp] theorem onReply_needed (e : Election) (sender : UInt32) (reply : VoteReply) :
    (e.onReply sender reply).needed = e.needed := by
  cases reply with
  | grant epoch highWater => simp only [onReply]; split <;> rfl
  | reject promised => rfl

/-! ## The tally of a list of replies -/

/-- Record replies one after the other. -/
def tally (e : Election) (replies : List (UInt32 × VoteReply)) : Election :=
  replies.foldl (fun e p => e.onReply p.1 p.2) e

/-- The grants of `epoch` among some replies: who granted, with which high-water. -/
def grantsFor (epoch : UInt64) (replies : List (UInt32 × VoteReply)) : List (UInt32 × ℕ) :=
  replies.filterMap fun p =>
    match p.2 with
    | .grant epoch' highWater => if epoch' = epoch then some (p.1, highWater) else none
    | .reject _ => none

theorem tally_concat (e : Election) (replies : List (UInt32 × VoteReply)) (p : UInt32 × VoteReply) :
    e.tally (replies ++ [p]) = (e.tally replies).onReply p.1 p.2 := by
  simp [tally]

@[simp] theorem tally_epoch (e : Election) (replies : List (UInt32 × VoteReply)) :
    (e.tally replies).epoch = e.epoch := by
  induction replies generalizing e with
  | nil => rfl
  | cons p replies ih =>
    show ((e.onReply p.1 p.2).tally replies).epoch = e.epoch
    rw [ih, onReply_epoch]

@[simp] theorem tally_needed (e : Election) (replies : List (UInt32 × VoteReply)) :
    (e.tally replies).needed = e.needed := by
  induction replies generalizing e with
  | nil => rfl
  | cons p replies ih =>
    show ((e.onReply p.1 p.2).tally replies).needed = e.needed
    rw [ih, onReply_needed]

/-- **What a tally counts**: the acceptors that granted the epoch, and the highest high-water their
grants carried. -/
theorem tally_new (epoch : UInt64) (voters : ℕ) (replies : List (UInt32 × VoteReply)) :
    ((new epoch voters).tally replies).granters = ((grantsFor epoch replies).map Prod.fst).toFinset ∧
    ((new epoch voters).tally replies).syncTo =
      ((grantsFor epoch replies).map Prod.snd).foldl max 0 := by
  induction replies using List.reverseRecOn with
  | nil => exact ⟨rfl, rfl⟩
  | append_singleton replies p ih =>
    obtain ⟨sender, reply⟩ := p
    rw [tally_concat]
    cases reply with
    | reject promised =>
      have hsame : grantsFor epoch (replies ++ [(sender, .reject promised)]) =
          grantsFor epoch replies := by simp [grantsFor]
      rw [hsame]
      exact ih
    | grant epoch' highWater =>
      by_cases heq : epoch' = epoch
      · subst heq
        have hmore : grantsFor epoch' (replies ++ [(sender, .grant epoch' highWater)]) =
            grantsFor epoch' replies ++ [(sender, highWater)] := by simp [grantsFor]
        rw [hmore]
        simp only [onReply, tally_epoch, new, if_true]
        simp only [new] at ih
        rw [ih.1, ih.2]
        refine ⟨?_, by rw [List.map_append, List.foldl_append]; rfl⟩
        ext r
        simp
      · have hsame : grantsFor epoch (replies ++ [(sender, .grant epoch' highWater)]) =
            grantsFor epoch replies := by simp [grantsFor, heq]
        rw [hsame]
        simp only [onReply, tally_epoch, new, if_neg heq]
        exact ih

end Election

end Ticktape.Cluster
