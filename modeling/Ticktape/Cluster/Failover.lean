import Ticktape.Cluster.Ballots
import Ticktape.Cluster.Commit

/-!
# Committed inputs and failover

A leader of epoch `e` whose replicas journal its frames and acknowledge them, and candidates that bid
for later epochs (the quorum argument of `ticktape-cluster/src/lib.rs`). The commit quorum and the
election quorum share a replica, and the grant of that replica vouches for what it had journaled by
then.

Nothing in `Acceptor` stops a replica from journaling, and acknowledging, frames of epoch `e` after it
granted a later one. A commit that such an acknowledgement completes is one the election did not see
(`committed_not_synced`). Without such steps every winner syncs to every commit
(`committed_le_syncTo`).
-/

namespace Ticktape.Cluster

open Ticktape.Lib Std

/-! ## Runs -/

/-- The epoch-`e` leader, its replicas and the elections for other epochs. -/
structure Failover where
  /-- How many frames the leader has sequenced. -/
  sequenced : ℕ
  acceptors : UInt32 → Acceptor
  /-- How many frames of the leader each replica has journaled. -/
  journaled : UInt32 → ℕ
  tracker : CommitTracker
  /-- The highest commit watermark the leader has ever reached. -/
  committed : ℕ
  ballots : Ballots

namespace Failover

/-- The leader takes over with `tip` frames; every replica's acceptor vouches for what it holds. -/
def start (voters : Finset UInt32) (tip : ℕ) (acceptors : UInt32 → Acceptor) : Failover where
  sequenced := tip
  acceptors := acceptors
  journaled r := (acceptors r).highWater
  tracker := CommitTracker.new voters.card
  committed := 0
  ballots := .start

/-- One step. `may a` says when a replica whose acceptor is `a` may journal a frame of the leader. -/
inductive Step (voters : Finset UInt32) (may : Acceptor → Prop) : Failover → Failover → Prop where
  | sequence {c : Failover} : Step voters may c { c with sequenced := c.sequenced + 1 }
  /-- A replica journals the leader's next frame. -/
  | journal {c : Failover} (r : UInt32) : r ∈ voters → c.journaled r < c.sequenced →
      may (c.acceptors r) → Step voters may c { c with
        journaled := Function.update c.journaled r (c.journaled r + 1)
        acceptors := Function.update c.acceptors r
          ((c.acceptors r).observeSeq (c.journaled r + 1)) }
  /-- The leader hears of what a replica has journaled. -/
  | ack {c : Failover} (r : UInt32) (seq : ℕ) : r ∈ voters → seq ≤ c.journaled r →
      Step voters may c { c with
        tracker := c.tracker.recordAck r seq
        committed := max c.committed (c.tracker.recordAck r seq).committed }
  | bid {c : Failover} (i : ℕ) (epoch : UInt64) : c.ballots.bids i = none →
      Step voters may c { c with ballots := c.ballots.propose i epoch voters.card }
  | answered {c : Failover} {bid : Bid} (i : ℕ) (r : UInt32) : r ∈ voters →
      c.ballots.bids i = some bid → Step voters may c { c with
        acceptors := Function.update c.acceptors r
          ((c.acceptors r).handle bid.election.request).2
        ballots := c.ballots.send ⟨i, r, ((c.acceptors r).handle bid.election.request).1⟩ }
  | delivered {c : Failover} {bid : Bid} (p : Reply) : p ∈ c.ballots.replies →
      c.ballots.bids p.bid = some bid →
      Step voters may c { c with ballots := c.ballots.deliver p bid }

/-- What runs lead to, where every journaling step meets `may`. -/
inductive Reachable (voters : Finset UInt32) (may : Acceptor → Prop) : Failover → Prop where
  | start (tip : ℕ) (acceptors : UInt32 → Acceptor) :
      (∀ r ∈ voters, (acceptors r).highWater ≤ tip) →
      Reachable voters may (Failover.start voters tip acceptors)
  | step {c c' : Failover} : Reachable voters may c → Step voters may c c' →
      Reachable voters may c'

/-- The condition: a replica whose acceptor has promised an epoch above `e` journals nothing more of
the leader of `e`. -/
def Loyal (e : UInt64) (a : Acceptor) : Prop := a.promised ≤ e

/-! ## The invariant -/

/-- A majority of the voters have journaled everything up to `seq`. -/
def Held (voters : Finset UInt32) (c : Failover) (seq : ℕ) : Prop :=
  ∃ holders ⊆ voters, majority voters.card ≤ holders.card ∧ ∀ r ∈ holders, seq ≤ c.journaled r

/-- **The invariant**: acceptors vouch for what was journaled, a grant above `e` closes the journal of
its sender, and what is committed is held by a majority. -/
structure Inv (e : UInt64) (voters : Finset UInt32) (c : Failover) : Prop where
  vouched : ∀ r, c.journaled r ≤ (c.acceptors r).highWater
  closed : ∀ i r epoch highWater, ⟨i, r, .grant epoch highWater⟩ ∈ c.ballots.replies → e < epoch →
    epoch ≤ (c.acceptors r).promised ∧ c.journaled r ≤ highWater
  electors : c.tracker.voters = voters.card
  acked : ∀ r seq, c.tracker.highWaters[r]? = some seq → r ∈ voters ∧ seq ≤ c.journaled r
  committed : 0 < c.committed → c.Held voters c.committed
  ballots : c.ballots.Inv voters

section Inv

variable {e : UInt64} {voters : Finset UInt32} {c c' : Failover}

/-- What the tracker reports is held by a majority. -/
theorem held_of_acked (hvoters : c.tracker.voters = voters.card)
    (hacked : ∀ r seq, c.tracker.highWaters[r]? = some seq → r ∈ voters ∧ seq ≤ c.journaled r)
    (hpos : 0 < c.tracker.committed) : c.Held voters c.tracker.committed := by
  have hmaj := (le_kthHighest_iff (Nat.succ_pos (c.tracker.voters / 2)) hpos).mp (Nat.le_refl _)
  rw [hvoters] at hmaj
  refine ⟨_, fun r hr => ?_, hmaj, fun r hr => ?_⟩
  · obtain ⟨v, hget, -⟩ := mem_holders.mp hr
    exact (hacked r v hget).1
  · obtain ⟨v, hget, hle⟩ := mem_holders.mp hr
    exact Nat.le_trans hle (hacked r v hget).2

theorem Held.mono {seq : ℕ} (h : c.Held voters seq) (hle : ∀ r, c.journaled r ≤ c'.journaled r) :
    c'.Held voters seq := by
  obtain ⟨holders, hsub, hmaj, hheld⟩ := h
  exact ⟨holders, hsub, hmaj, fun r hr => Nat.le_trans (hheld r hr) (hle r)⟩

theorem inv_start (tip : ℕ) (acceptors : UInt32 → Acceptor) :
    Inv e voters (start voters tip acceptors) where
  vouched := fun r => Nat.le_refl _
  closed := fun i r epoch highWater hsent _ => by cases hsent
  electors := rfl
  acked := fun r seq hget => by simp [start, CommitTracker.new] at hget
  committed := fun hpos => absurd hpos (Nat.lt_irrefl 0)
  ballots := Ballots.inv_start

/-- A replica that has promised nothing above `e` has sent no grant above `e`. -/
theorem Inv.open_of_loyal (h : Inv e voters c) {r : UInt32} (hloyal : Loyal e (c.acceptors r))
    {i : ℕ} {epoch : UInt64} {highWater : ℕ}
    (hsent : ⟨i, r, .grant epoch highWater⟩ ∈ c.ballots.replies) : epoch ≤ e := by
  by_contra hlt
  have hpromised := (h.closed i r epoch highWater hsent (UInt64.not_le.mp hlt)).1
  exact hlt (UInt64.le_trans hpromised hloyal)

theorem Inv.journal (h : Inv e voters c) {r : UInt32} (hloyal : Loyal e (c.acceptors r)) :
    Inv e voters { c with
      journaled := Function.update c.journaled r (c.journaled r + 1)
      acceptors := Function.update c.acceptors r
        ((c.acceptors r).observeSeq (c.journaled r + 1)) } := by
  have hgrows : ∀ r', c.journaled r' ≤ Function.update c.journaled r (c.journaled r + 1) r' := by
    intro r'
    by_cases heq : r' = r
    · subst heq
      rw [Function.update_self]
      exact Nat.le_succ _
    · rw [Function.update_of_ne heq]
  refine ⟨fun r' => ?_, fun i r' epoch highWater hsent hlt => ?_, h.electors, fun r' seq hget => ?_,
    fun hpos => (h.committed hpos).mono hgrows, h.ballots⟩
  · simp only
    by_cases heq : r' = r
    · subst heq
      rw [Function.update_self, Function.update_self]
      exact Nat.le_max_right ..
    · rw [Function.update_of_ne heq, Function.update_of_ne heq]
      exact h.vouched r'
  · simp only
    by_cases heq : r' = r
    · -- this replica has granted nothing above `e`
      subst heq
      exact absurd hlt (UInt64.not_lt.mpr (h.open_of_loyal hloyal hsent))
    · rw [Function.update_of_ne heq, Function.update_of_ne heq]
      exact h.closed i r' epoch highWater hsent hlt
  · obtain ⟨hr, hle⟩ := h.acked r' seq hget
    exact ⟨hr, Nat.le_trans hle (hgrows r')⟩

theorem Inv.ack (h : Inv e voters c) {r : UInt32} {seq : ℕ} (hr : r ∈ voters)
    (hseq : seq ≤ c.journaled r) : Inv e voters { c with
      tracker := c.tracker.recordAck r seq
      committed := max c.committed (c.tracker.recordAck r seq).committed } := by
  have hacked : ∀ r' seq', (c.tracker.recordAck r seq).highWaters[r']? = some seq' →
      r' ∈ voters ∧ seq' ≤ c.journaled r' := by
    intro r' seq' hget
    simp only [CommitTracker.recordAck, ExtTreeMap.getElem?_insert, Std.compare_eq_iff_eq] at hget
    split at hget
    · rename_i heq
      subst heq
      cases hget
      refine ⟨hr, Nat.max_le.mpr ⟨?_, hseq⟩⟩
      cases hold : c.tracker.highWaters[r]? with
      | none => exact Nat.zero_le _
      | some old => exact (h.acked r old hold).2
    · exact h.acked r' seq' hget
  refine ⟨h.vouched, h.closed, h.electors, hacked, fun hpos => ?_, h.ballots⟩
  -- the higher of the old and the new watermark is held
  rcases Nat.le_total c.committed (c.tracker.recordAck r seq).committed with hle | hle
  · simp only [Nat.max_eq_right hle] at hpos ⊢
    exact held_of_acked (c := { c with tracker := c.tracker.recordAck r seq }) h.electors hacked hpos
  · simp only [Nat.max_eq_left hle] at hpos ⊢
    exact h.committed hpos

theorem Inv.answered (h : Inv e voters c) {i : ℕ} {r : UInt32} (request : VoteRequest)
    (hr : r ∈ voters) : Inv e voters { c with
      acceptors := Function.update c.acceptors r ((c.acceptors r).handle request).2
      ballots := c.ballots.send ⟨i, r, ((c.acceptors r).handle request).1⟩ } := by
  have hhandle : (c.acceptors r).promised ≤ ((c.acceptors r).handle request).2.promised ∧
      ((c.acceptors r).handle request).2.highWater = (c.acceptors r).highWater ∧
      ∀ epoch highWater, ((c.acceptors r).handle request).1 = .grant epoch highWater →
        epoch = ((c.acceptors r).handle request).2.promised ∧
          highWater = (c.acceptors r).highWater := by
    rcases (c.acceptors r).handle_cases request with ⟨hlt, heq⟩ | ⟨-, heq⟩
    · rw [heq]
      refine ⟨UInt64.le_of_lt hlt, rfl, fun epoch highWater hgrant => ?_⟩
      cases hgrant
      exact ⟨rfl, rfl⟩
    · rw [heq]
      exact ⟨UInt64.le_refl _, rfl, fun epoch highWater hgrant => by cases hgrant⟩
  obtain ⟨hpromised, hwater, hgrant⟩ := hhandle
  refine ⟨fun r' => ?_, fun j r' epoch highWater hsent hlt => ?_, h.electors, h.acked, h.committed,
    h.ballots.send hr⟩
  · simp only
    by_cases heq : r' = r
    · subst heq
      rw [Function.update_self, hwater]
      exact h.vouched r'
    · rw [Function.update_of_ne heq]
      exact h.vouched r'
  · simp only at hsent ⊢
    rcases List.mem_append.mp hsent with hold | hsing
    · -- promises only grow
      obtain ⟨hle, hjournaled⟩ := h.closed j r' epoch highWater hold hlt
      refine ⟨?_, hjournaled⟩
      by_cases heq : r' = r
      · subst heq
        rw [Function.update_self]
        exact UInt64.le_trans hle hpromised
      · rwa [Function.update_of_ne heq]
    · -- the new grant carries the acceptor's own high-water
      obtain ⟨-, rfl, hreply⟩ := Reply.mk.inj (List.mem_singleton.mp hsing)
      obtain ⟨hepoch, hhigh⟩ := hgrant epoch highWater hreply.symm
      rw [Function.update_self, hepoch, hhigh]
      exact ⟨UInt64.le_refl _, h.vouched r'⟩

/-- **Step lemma.** -/
theorem Step.inv (hstep : Step voters (Loyal e) c c') (h : Inv e voters c) : Inv e voters c' := by
  cases hstep with
  | sequence => exact ⟨h.vouched, h.closed, h.electors, h.acked, h.committed, h.ballots⟩
  | journal r _ _ hloyal => exact h.journal hloyal
  | ack r seq hr hseq => exact h.ack hr hseq
  | bid i epoch _ =>
    exact ⟨h.vouched, h.closed, h.electors, h.acked, h.committed, h.ballots.propose i epoch⟩
  | answered i r hr _ => exact h.answered _ hr
  | delivered p hp hb =>
    exact ⟨h.vouched, h.closed, h.electors, h.acked, h.committed, h.ballots.deliver hp hb⟩

/-- **Run lemma.** -/
theorem Reachable.inv (h : Reachable voters (Loyal e) c) : Inv e voters c := by
  induction h with
  | start tip acceptors _ => exact inv_start tip acceptors
  | step _ hstep ih => exact hstep.inv ih

/-! ## Safety -/

/-- **No committed input is lost.** In every run in which no replica journals a frame of the epoch-`e`
leader after its acceptor promised a later epoch: however far the leader's commit watermark ever got,
every election won for a later epoch, before or after, syncs at least that far. -/
theorem committed_le_syncTo (h : Reachable voters (Loyal e) c) {i : ℕ} {epoch : UInt64}
    {syncTo : ℕ} (hwon : c.ballots.HasWon i epoch syncTo) (hlt : e < epoch) :
    c.committed ≤ syncTo := by
  have hinv := h.inv
  rcases Nat.eq_zero_or_pos c.committed with hzero | hpos
  · rw [hzero]
    exact Nat.zero_le _
  · obtain ⟨holders, hsub, hmaj, hheld⟩ := hinv.committed hpos
    obtain ⟨granters, hsub', hmaj', hgrants⟩ := hinv.ballots.backed_of_hasWon hwon
    -- a replica that is in both quorums granted with everything it will ever have acknowledged
    obtain ⟨r, hr, hr'⟩ := majority_inter (Nat.le_refl voters.card) hsub hsub' hmaj hmaj'
    obtain ⟨highWater, hle, hsent⟩ := hgrants r hr'
    calc c.committed ≤ c.journaled r := hheld r hr
      _ ≤ highWater := (hinv.closed i r epoch highWater hsent hlt).2
      _ ≤ syncTo := hle

end Inv

/-- The leader sequences one frame; replicas 0 and 1 journal and acknowledge it. -/
theorem Reachable.commitOne {may : Acceptor → Prop} {c : Failover} (h : Reachable {0, 1, 2} may c)
    (hnone : c.journaled 0 = 0 ∧ c.journaled 1 = 0 ∧ c.sequenced = 0)
    (hmay : may (c.acceptors 0) ∧ may (c.acceptors 1)) (htracker : c.tracker = CommitTracker.new 3) :
    ∃ c', Reachable {0, 1, 2} may c' ∧ 1 ≤ c'.committed ∧ c'.ballots = c.ballots ∧
      c'.acceptors 1 = (c.acceptors 1).observeSeq 1 ∧ c'.acceptors 2 = c.acceptors 2 := by
  obtain ⟨hzero, hone, hsequenced⟩ := hnone
  have h₁ := h.step .sequence
  have h₂ := h₁.step (.journal 0 (by decide) (by simp [hzero]) hmay.1)
  have h₃ := h₂.step (.journal 1 (by decide) (by simp [hone]) hmay.2)
  have h₄ := h₃.step (.ack 0 1 (by decide) (by simp [Function.update, hzero]))
  have h₅ := h₄.step (.ack 1 1 (by decide) (by simp [Function.update, hone]))
  refine ⟨_, h₅, ?_, rfl, by simp [Function.update, hone], by simp [Function.update]⟩
  have hack : 1 ≤ (((CommitTracker.new 3).recordAck 0 1).recordAck 1 1).committed := by
    decide +kernel
  simp only [htracker]
  exact Nat.le_trans hack (Nat.le_max_right ..)

/-- An acceptor that has promised less grants a bid its epoch. -/
theorem Reachable.grant {voters : Finset UInt32} {may : Acceptor → Prop} {c : Failover}
    (h : Reachable voters may c) (i : ℕ) (r : UInt32) (bid : Bid) {highWater : ℕ} (hr : r ∈ voters)
    (hb : c.ballots.bids i = some bid) (ha : c.acceptors r = ⟨1, highWater⟩)
    (hlt : 1 < bid.election.epoch) : ∃ acceptors, Reachable voters may { c with
      acceptors := acceptors
      ballots := c.ballots.send ⟨i, r, .grant bid.election.epoch highWater⟩ } ∧
      ∀ r', r' ≠ r → acceptors r' = c.acceptors r' := by
  have hdone := h.step (.answered i r hr hb)
  have hhandle : (c.acceptors r).handle bid.election.request =
      (.grant bid.election.epoch highWater, ⟨bid.election.epoch, highWater⟩) := by
    rw [ha]
    exact if_pos hlt
  rw [hhandle] at hdone
  exact ⟨_, hdone, fun r' hne => Function.update_of_ne hne ..⟩

/-- Acceptors 1 and 2 grant bid 0 epoch 2, and it wins. -/
theorem Reachable.elect {may : Acceptor → Prop} {c : Failover} (h : Reachable {0, 1, 2} may c)
    {highWater : ℕ} (hballots : c.ballots = .start) (hone : c.acceptors 1 = ⟨1, highWater⟩)
    (htwo : c.acceptors 2 = ⟨1, 0⟩) : ∃ acceptors ballots,
      Reachable {0, 1, 2} may { c with acceptors := acceptors, ballots := ballots } ∧
      ballots.HasWon 0 2 highWater := by
  have h₁ := h.step (.bid 0 2 (by rw [hballots]; rfl))
  obtain ⟨_, h₂, hsame⟩ := h₁.grant 0 1 ⟨Election.new 2 3, []⟩ (by decide)
    (Ballots.propose_self c.ballots 0 2 3) hone (by decide)
  obtain ⟨acceptors, h₃, -⟩ := h₂.grant 0 2 ⟨Election.new 2 3, []⟩ (by decide)
    (Ballots.propose_self c.ballots 0 2 3) ((hsame 2 (by decide)).trans htwo) (by decide)
  have h₄ := h₃.step (.delivered ⟨0, 1, .grant 2 highWater⟩ (by simp [Ballots.send, Election.new])
    (Ballots.propose_self c.ballots 0 2 3))
  have h₅ := h₄.step (.delivered ⟨0, 2, .grant 2 0⟩
    (by simp [Ballots.deliver, Ballots.send, Election.new])
    (Ballots.deliver_self _ ⟨0, 1, .grant 2 highWater⟩ _))
  refine ⟨acceptors, _, h₅, Or.inr ⟨_, Ballots.deliver_self _ ⟨0, 2, .grant 2 0⟩ _, ?_⟩⟩
  rw [Election.outcome_eq_won]
  refine ⟨Nat.le_refl 2, rfl, ?_⟩
  simp [Ballots.received, Election.onReply, Election.new]

/-- Replica 1 grants epoch 2, and only then journals and acknowledges the first frame of epoch 1: that
frame is committed, and the winner of epoch 2 syncs to nothing. -/
theorem committed_not_synced : ¬ ∀ (e : UInt64) (voters : Finset UInt32) (c : Failover),
    Reachable voters (fun _ => True) c → ∀ i epoch syncTo, c.ballots.HasWon i epoch syncTo →
      e < epoch → c.committed ≤ syncTo := by
  intro hclaim
  have h₀ : Reachable {0, 1, 2} (fun _ => True) (start {0, 1, 2} 0 fun _ => ⟨1, 0⟩) :=
    .start 0 _ fun _ _ => Nat.le_refl 0
  obtain ⟨acceptors, ballots, h₁, hwon⟩ := h₀.elect rfl rfl rfl
  obtain ⟨c₂, h₂, hcommitted, hballots, -⟩ :=
    h₁.commitOne ⟨rfl, rfl, rfl⟩ ⟨trivial, trivial⟩ rfl
  have hle := hclaim 1 _ c₂ h₂ 0 2 0 (hballots ▸ hwon) (by decide)
  omega

/-- The same steps with the commit before the election. -/
theorem committed_le_syncTo_of_run : ∃ c : Failover, Reachable {0, 1, 2} (Loyal 1) c ∧
    1 ≤ c.committed ∧ c.ballots.HasWon 0 2 1 ∧ c.committed ≤ 1 := by
  have h₀ : Reachable {0, 1, 2} (Loyal 1) (start {0, 1, 2} 0 fun _ => ⟨1, 0⟩) :=
    .start 0 _ fun _ _ => Nat.le_refl 0
  have hloyal : Loyal 1 ⟨1, 0⟩ := UInt64.le_refl 1
  obtain ⟨c₁, h₁, hcommitted, hballots, hone, htwo⟩ :=
    h₀.commitOne ⟨rfl, rfl, rfl⟩ ⟨hloyal, hloyal⟩ rfl
  obtain ⟨acceptors, ballots, h₂, hwon⟩ := h₁.elect hballots hone htwo
  exact ⟨_, h₂, hcommitted, hwon, committed_le_syncTo h₂ hwon (by decide)⟩

end Failover

end Ticktape.Cluster
