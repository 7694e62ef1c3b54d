import Mathlib.Order.Bounds.Basic
import Ticktape.Cluster.Election
import Ticktape.Runtime.Commit

/-!
# Commit tracking

The cluster's view of quorum commit (`ticktape-cluster/src/commit.rs`): one high-water per replica,
and the highest seq that a majority of the voters has journaled. `CommitState` in the runtime computes
the same number from its own table; the two agree because both tables have the same holders of every
seq.
-/

namespace Ticktape.Cluster

open Ticktape.Lib Ticktape.Runtime Std

/-- The last seq acknowledged by each replica. -/
structure CommitTracker where
  highWaters : ExtTreeMap UInt32 ℕ
  voters : ℕ

namespace CommitTracker

def new (voters : ℕ) : CommitTracker := ⟨∅, voters⟩

/-- The highest seq journaled by at least a majority of voters. -/
def committed (t : CommitTracker) : ℕ := kthHighest t.highWaters (majority t.voters)

/-- `replica` has durably journaled everything up to `seq`; a stale report changes nothing. The call
returns `committed` of the tracker it leaves. -/
def recordAck (t : CommitTracker) (replica : UInt32) (seq : ℕ) : CommitTracker :=
  { t with highWaters := t.highWaters.insert replica (max (t.highWaters[replica]?.getD 0) seq) }

/-- Record acknowledgements one after the other. -/
def recordAcks (tracker : CommitTracker) (acks : List (UInt32 × ℕ)) : CommitTracker :=
  acks.foldl (fun tracker ack => tracker.recordAck ack.1 ack.2) tracker

/-- What the calls of `recordAcks` return, in order. -/
def returned (tracker : CommitTracker) : List (UInt32 × ℕ) → List ℕ
  | [] => []
  | ack :: acks =>
    let tracker := tracker.recordAck ack.1 ack.2
    tracker.committed :: tracker.returned acks

/-! ## The table -/

/-- The replicas that acknowledged `seq` or more. -/
def ackers (acks : List (UInt32 × ℕ)) (seq : ℕ) : Finset UInt32 :=
  ((acks.filter (seq ≤ ·.2)).map Prod.fst).toFinset

theorem mem_ackers {acks : List (UInt32 × ℕ)} {seq : ℕ} {r : UInt32} :
    r ∈ ackers acks seq ↔ ∃ a, (r, a) ∈ acks ∧ seq ≤ a := by
  simp [ackers]

variable {tracker : CommitTracker} {acks : List (UInt32 × ℕ)}

theorem voters_recordAcks : (tracker.recordAcks acks).voters = tracker.voters := by
  induction acks generalizing tracker with
  | nil => rfl
  | cons ack acks ih => exact ih

/-- The holders of a seq are those of before and the replicas that acknowledged it since. -/
theorem mem_holders_recordAcks {r : UInt32} {s : ℕ} :
    r ∈ holders (tracker.recordAcks acks).highWaters s ↔
      r ∈ holders tracker.highWaters s ∨ r ∈ ackers acks s := by
  induction acks generalizing tracker with
  | nil => simp [recordAcks, ackers]
  | cons ack acks ih =>
    obtain ⟨replica, seq⟩ := ack
    have hstep : r ∈ holders (tracker.recordAck replica seq).highWaters s ↔
        r ∈ holders tracker.highWaters s ∨ r = replica ∧ s ≤ seq := mem_holders_raise
    have htail : r ∈ ackers ((replica, seq) :: acks) s ↔
        (r = replica ∧ s ≤ seq) ∨ r ∈ ackers acks s := by
      simp only [mem_ackers, List.mem_cons, Prod.mk.injEq]
      constructor
      · rintro ⟨a, ⟨rfl, rfl⟩ | hmem, hle⟩
        · exact Or.inl ⟨rfl, hle⟩
        · exact Or.inr ⟨a, hmem, hle⟩
      · rintro (⟨rfl, hle⟩ | ⟨a, hmem, hle⟩)
        · exact ⟨seq, Or.inl ⟨rfl, rfl⟩, hle⟩
        · exact ⟨a, Or.inr hmem, hle⟩
    rw [htail]
    exact ih.trans (by rw [hstep, or_assoc])

/-- From an empty table on, the holders are exactly those that acknowledged. -/
theorem holders_new (voters s : ℕ) :
    holders ((new voters).recordAcks acks).highWaters s = ackers acks s := by
  ext r
  rw [mem_holders_recordAcks]
  have hnone : r ∉ holders (new voters).highWaters s := by
    simp [mem_holders, new]
  simp [hnone]

/-- The runtime's table, seeded with the leader's own entry, has the holders of that entry and of the
acknowledgements. -/
theorem holders_commitState {ο : Type} {config : CommitConfig} {selfSeq s : ℕ} :
    holders (acks.foldl (fun state ack => state.record ack.1 ack.2)
      (CommitState.new config selfSeq : CommitState ο)).highWaters s =
      ackers ((config.selfReplica, selfSeq) :: acks) s := by
  -- one step of either table raises one entry, so the two are one fold
  have hfold : ∀ (state : CommitState ο) (tracker : CommitTracker),
      state.highWaters = tracker.highWaters →
      (acks.foldl (fun state ack => state.record ack.1 ack.2) state).highWaters =
        (tracker.recordAcks acks).highWaters := by
    induction acks with
    | nil => exact fun _ _ h => h
    | cons ack acks ih =>
      intro state tracker h
      refine ih _ _ ?_
      show state.highWaters.insert _ _ = tracker.highWaters.insert _ _
      rw [h]
  have hseed : (CommitState.new config selfSeq : CommitState ο).highWaters =
      ((new 0).recordAck config.selfReplica selfSeq).highWaters := by
    simp [CommitState.new, recordAck, new]
  rw [hfold _ _ hseed]
  exact @holders_new ((config.selfReplica, selfSeq) :: acks) 0 s

/-! ## The watermark -/

theorem le_committed_iff {voters s : ℕ} (hs : 0 < s) :
    s ≤ ((new voters).recordAcks acks).committed ↔ majority voters ≤ (ackers acks s).card := by
  rw [committed, voters_recordAcks, le_kthHighest_iff (majority_pos _) hs, holders_new]
  rfl

/-- A step never lowers the watermark. -/
theorem committed_le_recordAck (tracker : CommitTracker) (replica : UInt32) (seq : ℕ) :
    tracker.committed ≤ (tracker.recordAck replica seq).committed :=
  kthHighest_mono (majority_pos _) fun _ _ hr => mem_holders_raise.mpr (Or.inl hr)

/-- **Run lemma**: what the calls return starts at or above the watermark before them, and never
decreases. -/
theorem returned_ordered (tracker : CommitTracker) (acks : List (UInt32 × ℕ)) :
    (tracker.committed :: tracker.returned acks).Pairwise (· ≤ ·) := by
  induction acks generalizing tracker with
  | nil => exact List.pairwise_singleton _ _
  | cons ack acks ih =>
    have hstep := committed_le_recordAck tracker ack.1 ack.2
    have htail := ih (tracker.recordAck ack.1 ack.2)
    refine List.pairwise_cons.mpr ⟨?_, htail⟩
    intro watermark hmem
    rcases List.mem_cons.mp hmem with rfl | hlater
    · exact hstep
    · exact Nat.le_trans hstep ((List.pairwise_cons.mp htail).1 watermark hlater)

/-- What the watermark of `voters` voters must be after the acknowledgements `acks`. -/
structure ExactWatermark (voters : ℕ) (acks : List (UInt32 × ℕ)) : Prop where
  /-- The greatest seq that a majority has reached. -/
  greatest : majority voters ≤ (ackers acks 0).card →
    IsGreatest {s | majority voters ≤ (ackers acks s).card} ((new voters).recordAcks acks).committed
  genesis : (ackers acks 0).card < majority voters → ((new voters).recordAcks acks).committed = 0
  /-- Successive calls never return less. -/
  ordered : ((new voters).returned acks).Pairwise (· ≤ ·)
  /-- The order of the acknowledgements does not matter. -/
  order : ∀ acks', acks'.Perm acks →
    ((new voters).recordAcks acks').committed = ((new voters).recordAcks acks).committed
  /-- The runtime of a leader, whose own entry is one of the acknowledgements, agrees. -/
  runtime : ∀ (ο : Type) (config : CommitConfig) (selfSeq : ℕ) (acks' : List (UInt32 × ℕ)),
    config.voters = voters → acks.Perm ((config.selfReplica, selfSeq) :: acks') →
    (acks'.foldl (fun state ack => state.record ack.1 ack.2)
      (CommitState.new config selfSeq : CommitState ο)).watermark =
      ((new voters).recordAcks acks).committed

theorem ackers_perm {acks' : List (UInt32 × ℕ)} (h : acks'.Perm acks) (s : ℕ) :
    ackers acks' s = ackers acks s := by
  ext r
  simp only [mem_ackers]
  exact exists_congr fun a => and_congr_left fun _ => h.mem_iff

/-- **The commit watermark is the exact quorum bound**. -/
theorem commit_watermark_exact (voters : ℕ) (acks : List (UInt32 × ℕ)) :
    ExactWatermark voters acks where
  greatest hall := by
    constructor
    · show majority voters ≤ (ackers acks _).card
      rcases Nat.eq_zero_or_pos ((new voters).recordAcks acks).committed with hzero | hpos
      · rw [hzero]
        exact hall
      · exact (le_committed_iff hpos).mp (Nat.le_refl _)
    · intro s hs
      rcases Nat.eq_zero_or_pos s with rfl | hpos
      · exact Nat.zero_le _
      · exact (le_committed_iff hpos).mpr hs
  genesis hfew := by
    by_contra hne
    have hpos := Nat.pos_of_ne_zero hne
    have hmaj := (le_committed_iff hpos).mp (Nat.le_refl _)
    have hsub : ackers acks ((new voters).recordAcks acks).committed ⊆ ackers acks 0 := by
      intro r hr
      obtain ⟨a, hmem, -⟩ := mem_ackers.mp hr
      exact mem_ackers.mpr ⟨a, hmem, Nat.zero_le a⟩
    have := Finset.card_le_card hsub
    omega
  ordered := (List.pairwise_cons.mp (returned_ordered (new voters) acks)).2
  order acks' hperm := by
    rw [committed, committed, voters_recordAcks, voters_recordAcks]
    refine kthHighest_congr (majority_pos _) fun s => ?_
    rw [holders_new, holders_new, ackers_perm hperm]
  runtime ο config selfSeq acks' hvoters hperm := by
    have hkept : ∀ state : CommitState ο,
        (acks'.foldl (fun state ack => state.record ack.1 ack.2) state).voters = state.voters := by
      clear hperm
      induction acks' with
      | nil => exact fun _ => rfl
      | cons ack acks' ih => exact fun state => ih (state.record ack.1 ack.2)
    rw [CommitState.watermark, committed, hkept, voters_recordAcks]
    show kthHighest _ (config.voters / 2 + 1) = kthHighest _ (voters / 2 + 1)
    rw [hvoters]
    refine kthHighest_congr (Nat.succ_pos _) fun s => ?_
    rw [holders_commitState, holders_new, ackers_perm hperm]

end CommitTracker

end Ticktape.Cluster
