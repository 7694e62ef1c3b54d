import Ticktape.Cluster.Election
import Ticktape.Lib.Quorum
import Mathlib.Logic.Function.Basic

/-!
# Bids and replies

The part of an election that is on the wire: the candidates' bids and every reply that was ever sent. A
reply may reach the bid it answers any number of times, in any order, or never. Every acceptor that a
bid has counted sent it a grant of its epoch, so every winner is backed by a majority of the voters
(`Ballots.Inv.backed_of_hasWon`).
-/

namespace Ticktape.Cluster

open Ticktape.Lib

/-- One candidate's attempt, with the replies delivered to it. -/
structure Bid where
  election : Election
  delivered : List (UInt32 × VoteReply)

/-- A reply on its way: the bid it answers, the acceptor that sent it, and what it says. -/
structure Reply where
  bid : ℕ
  sender : UInt32
  reply : VoteReply
  deriving DecidableEq

/-- A `won` that was reported: which bid, for which epoch, and how far it must sync. -/
structure Win where
  bid : ℕ
  epoch : UInt64
  syncTo : ℕ

/-- The bids, every reply ever sent, and every `won` ever reported. -/
structure Ballots where
  bids : ℕ → Option Bid
  replies : List Reply
  wins : List Win

namespace Ballots

def start : Ballots := ⟨fun _ => none, [], []⟩

/-- A candidate bids for an epoch. -/
def propose (b : Ballots) (i : ℕ) (epoch : UInt64) (voters : ℕ) : Ballots :=
  { b with bids := Function.update b.bids i (some ⟨Election.new epoch voters, []⟩) }

/-- An acceptor sends a reply. -/
def send (b : Ballots) (p : Reply) : Ballots := { b with replies := b.replies ++ [p] }

/-- The bid after a reply was delivered to it. -/
def received (bid : Bid) (p : Reply) : Bid :=
  ⟨bid.election.onReply p.sender p.reply, bid.delivered ++ [(p.sender, p.reply)]⟩

/-- A reply reaches its bid. -/
def deliver (b : Ballots) (p : Reply) (bid : Bid) : Ballots :=
  { b with
    bids := Function.update b.bids p.bid (some (received bid p))
    wins := match (received bid p).election.outcome with
      | .won epoch syncTo => b.wins ++ [⟨p.bid, epoch, syncTo⟩]
      | _ => b.wins }

theorem propose_self (b : Ballots) (i : ℕ) (epoch : UInt64) (voters : ℕ) :
    (b.propose i epoch voters).bids i = some ⟨Election.new epoch voters, []⟩ :=
  Function.update_self ..

theorem deliver_self (b : Ballots) (p : Reply) (bid : Bid) :
    (b.deliver p bid).bids p.bid = some (received bid p) := Function.update_self ..

/-- Bid `i` is a winner of this epoch, now or earlier, and was told to sync this far. -/
def HasWon (b : Ballots) (i : ℕ) (epoch : UInt64) (syncTo : ℕ) : Prop :=
  ⟨i, epoch, syncTo⟩ ∈ b.wins ∨
    ∃ bid, b.bids i = some bid ∧ bid.election.outcome = .won epoch syncTo

/-- What holds of a bid. -/
structure BidInv (voters : Finset UInt32) (b : Ballots) (i : ℕ) (bid : Bid) : Prop where
  tally : bid.election = (Election.new bid.election.epoch voters.card).tally bid.delivered
  sent : ∀ p ∈ bid.delivered, ⟨i, p.1, p.2⟩ ∈ b.replies

/-- A majority of the voters granted bid `i` the epoch, none with a high-water above `syncTo`. -/
def Backed (voters : Finset UInt32) (b : Ballots) (i : ℕ) (epoch : UInt64) (syncTo : ℕ) : Prop :=
  ∃ granters ⊆ voters, majority voters.card ≤ granters.card ∧
    ∀ r ∈ granters, ∃ highWater ≤ syncTo, ⟨i, r, .grant epoch highWater⟩ ∈ b.replies

/-- **The invariant of the ballots.** -/
structure Inv (voters : Finset UInt32) (b : Ballots) : Prop where
  senders : ∀ p ∈ b.replies, p.sender ∈ voters
  bids : ∀ i bid, b.bids i = some bid → BidInv voters b i bid
  wins : ∀ w ∈ b.wins, b.Backed voters w.bid w.epoch w.syncTo

section Inv

variable {voters : Finset UInt32} {b : Ballots}

theorem inv_start : Inv voters start where
  senders := fun p hp => by cases hp
  bids := fun i bid hb => by cases hb
  wins := fun w hw => by cases hw

theorem Inv.needed (h : Inv voters b) {i : ℕ} {bid : Bid} (hb : b.bids i = some bid) :
    bid.election.needed = majority voters.card := by
  rw [(h.bids i bid hb).tally, Election.tally_needed]
  rfl

theorem Inv.propose (h : Inv voters b) (i : ℕ) (epoch : UInt64) :
    Inv voters (b.propose i epoch voters.card) := by
  refine ⟨h.senders, fun j bid hb => ?_, h.wins⟩
  simp only [Ballots.propose] at hb
  by_cases heq : j = i
  · subst heq
    rw [Function.update_self] at hb
    cases hb
    exact ⟨rfl, fun p hp => by cases hp⟩
  · rw [Function.update_of_ne heq] at hb
    exact ⟨(h.bids j bid hb).tally, (h.bids j bid hb).sent⟩

/-- More replies back a bid no less. -/
theorem Backed.send {i : ℕ} {epoch : UInt64} {syncTo : ℕ} (h : b.Backed voters i epoch syncTo)
    (p : Reply) : (b.send p).Backed voters i epoch syncTo := by
  obtain ⟨granters, hsub, hmaj, hgrants⟩ := h
  refine ⟨granters, hsub, hmaj, fun r hr => ?_⟩
  obtain ⟨highWater, hle, hsent⟩ := hgrants r hr
  exact ⟨highWater, hle, List.mem_append_left _ hsent⟩

theorem Inv.send (h : Inv voters b) {p : Reply} (hsender : p.sender ∈ voters) :
    Inv voters (b.send p) := by
  refine ⟨fun p' hp' => ?_, fun j bid hb => ?_, fun w hw => (h.wins w hw).send p⟩
  · rcases List.mem_append.mp hp' with hold | hsing
    · exact h.senders p' hold
    · rw [List.mem_singleton.mp hsing]
      exact hsender
  · exact ⟨(h.bids j bid hb).tally,
      fun q hq => List.mem_append_left _ ((h.bids j bid hb).sent q hq)⟩

/-- A bid syncs to the highest high-water among the grants of its epoch that reached it. -/
theorem BidInv.syncTo {i : ℕ} {bid : Bid} (h : BidInv voters b i bid) :
    bid.election.syncTo =
      ((Election.grantsFor bid.election.epoch bid.delivered).map Prod.snd).foldl max 0 := by
  have heq := congrArg Election.syncTo h.tally
  rwa [(Election.tally_new ..).2] at heq

/-- **Who was counted**: every granter of a bid sent it a grant, and the bid syncs at least to the
high-water of that grant. -/
theorem BidInv.granter {i : ℕ} {bid : Bid} {r : UInt32} (h : BidInv voters b i bid)
    (hr : r ∈ bid.election.granters) : ∃ highWater ≤ bid.election.syncTo,
      ⟨i, r, .grant bid.election.epoch highWater⟩ ∈ b.replies := by
  rw [h.tally, (Election.tally_new ..).1, List.mem_toFinset, List.mem_map] at hr
  obtain ⟨⟨_, highWater⟩, hmem, rfl⟩ := hr
  have hle : highWater ≤ bid.election.syncTo := by
    rw [h.syncTo]
    exact le_foldl_max_of_mem (List.mem_map_of_mem (f := Prod.snd) hmem)
  -- only a delivered grant of the bid's own epoch is counted
  obtain ⟨⟨sender, reply⟩, hdelivered, heq⟩ := List.mem_filterMap.mp hmem
  cases reply with
  | reject promised => cases heq
  | grant epoch hw =>
    simp only at heq
    split at heq
    · rename_i hepoch
      cases heq
      have hsent := h.sent _ hdelivered
      simp only [hepoch] at hsent
      exact ⟨highWater, hle, hsent⟩
    · cases heq

/-- A bid whose outcome is `won` is backed. -/
theorem Inv.backed (h : Inv voters b) {i : ℕ} {bid : Bid} {epoch : UInt64} {syncTo : ℕ}
    (hbid : BidInv voters b i bid) (hout : bid.election.outcome = .won epoch syncTo) :
    b.Backed voters i epoch syncTo := by
  obtain ⟨hmaj, rfl, rfl⟩ := Election.outcome_eq_won.mp hout
  rw [hbid.tally, Election.tally_needed, ← hbid.tally] at hmaj
  refine ⟨bid.election.granters, fun r hr => ?_, hmaj, fun r hr => hbid.granter hr⟩
  obtain ⟨_, -, hsent⟩ := hbid.granter hr
  exact h.senders _ hsent

theorem Inv.deliver (h : Inv voters b) {p : Reply} {bid : Bid} (hp : p ∈ b.replies)
    (hb : b.bids p.bid = some bid) : Inv voters (b.deliver p bid) := by
  have hreceived : BidInv voters b p.bid (received bid p) := by
    refine ⟨?_, fun q hq => ?_⟩
    · simp only [received, Election.tally_concat, Election.onReply_epoch]
      rw [← (h.bids p.bid bid hb).tally]
    · rcases List.mem_append.mp hq with hold | hsing
      · exact (h.bids p.bid bid hb).sent q hold
      · rw [List.mem_singleton.mp hsing]
        exact hp
  refine ⟨h.senders, fun j bid' hb' => ?_, fun w hw => ?_⟩
  · simp only [Ballots.deliver] at hb'
    by_cases heq : j = p.bid
    · subst heq
      rw [Function.update_self] at hb'
      cases hb'
      exact ⟨hreceived.tally, hreceived.sent⟩
    · rw [Function.update_of_ne heq] at hb'
      exact ⟨(h.bids j bid' hb').tally, (h.bids j bid' hb').sent⟩
  · simp only [Ballots.deliver] at hw
    split at hw
    · rename_i epoch syncTo hout
      rcases List.mem_append.mp hw with hold | hsing
      · exact h.wins w hold
      · -- the bid has just reached a majority
        rw [List.mem_singleton.mp hsing]
        exact h.backed hreceived hout
    · exact h.wins w hw

/-- **Every winner is backed by a majority.** -/
theorem Inv.backed_of_hasWon (h : Inv voters b) {i : ℕ} {epoch : UInt64} {syncTo : ℕ}
    (hwon : b.HasWon i epoch syncTo) : b.Backed voters i epoch syncTo := by
  rcases hwon with hwin | ⟨bid, hb, hout⟩
  · exact h.wins _ hwin
  · exact h.backed (h.bids i bid hb) hout

end Inv

end Ballots

end Ticktape.Cluster
