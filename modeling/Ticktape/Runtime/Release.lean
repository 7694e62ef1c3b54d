import Ticktape.Runtime.Failure

/-!
# Quorum release

What a Tier-2 leader releases, and when. `Withheld` is the invariant of the quorum-commit state: the
outputs that were released are exactly those of the data frames up to `committed`, the pending ones
those above it, and a data frame is at or below `committed` exactly when a majority holds it. Each
step of the leader keeps it: a new frame lies above everything a follower can have acknowledged, so
only `recordAck` releases anything.
-/

namespace Ticktape.Runtime

open Ticktape.Lib Ticktape.Core Ticktape.Journal Std

/-! ## Who holds what -/

/-- The replicas recorded to hold `seq`: the leader, and every follower that acknowledged it. -/
def heldBy (self : UInt32) (acks : List (UInt32 × ℕ)) (seq : ℕ) : Finset UInt32 :=
  insert self ((acks.filter (seq ≤ ·.2)).map Prod.fst).toFinset

/-- A majority of the voters holds `seq`. -/
def MajorityHolds (config : CommitConfig) (acks : List (UInt32 × ℕ)) (seq : ℕ) : Prop :=
  config.voters / 2 + 1 ≤ (heldBy config.selfReplica acks seq).card

instance (config : CommitConfig) (acks : List (UInt32 × ℕ)) (seq : ℕ) :
    Decidable (MajorityHolds config acks seq) := inferInstanceAs (Decidable (_ ≤ _))

theorem mem_heldBy {self r : UInt32} {acks : List (UInt32 × ℕ)} {seq : ℕ} :
    r ∈ heldBy self acks seq ↔ r = self ∨ ∃ a, (r, a) ∈ acks ∧ seq ≤ a := by
  simp [heldBy]

section Majority

variable {config : CommitConfig} {acks acks' : List (UInt32 × ℕ)} {seq seq' : ℕ}

theorem MajorityHolds.mono (h : MajorityHolds config acks seq) (hle : seq' ≤ seq)
    (hsub : acks ⊆ acks') : MajorityHolds config acks' seq' := by
  refine Nat.le_trans h (Finset.card_le_card fun r hr => ?_)
  rw [mem_heldBy] at hr ⊢
  refine hr.imp_right ?_
  rintro ⟨a, hmem, ha⟩
  exact ⟨a, hsub hmem, Nat.le_trans hle ha⟩

/-- With two voters or more the leader alone is no majority. -/
theorem MajorityHolds.exists_ack (h : MajorityHolds config acks seq) (hvoters : 2 ≤ config.voters) :
    ∃ p ∈ acks, seq ≤ p.2 := by
  by_contra hnone
  have hself : heldBy config.selfReplica acks seq ⊆ {config.selfReplica} := by
    intro r hr
    rcases mem_heldBy.mp hr with rfl | ⟨a, hmem, ha⟩
    · exact Finset.mem_singleton_self _
    · exact absurd ⟨(r, a), hmem, ha⟩ hnone
  have hcard := Finset.card_le_card hself
  rw [Finset.card_singleton] at hcard
  have : config.voters / 2 + 1 ≤ 1 := Nat.le_trans h hcard
  omega

end Majority

/-! ## The commit state -/

variable {svc : Service}

/-- Input and timer frames carry outputs. -/
def LedgerEntry.isData (e : LedgerEntry svc) : Bool :=
  e.frame.kind = .input || e.frame.kind = .timerFired

/-- The data frames of a ledger. -/
def dataOf (ledger : List (LedgerEntry svc)) : List (LedgerEntry svc) := ledger.filter (·.isData)

/-- What a run has seen: the acknowledgements recorded, the pairs `recordAck` returned, the outputs
`submit` and `submitBatch` returned, and whether a call failed. -/
structure Book (svc : Service) where
  acks : List (UInt32 × ℕ)
  released : List (ℕ × List svc.Output)
  immediate : List svc.Output
  failed : Bool

/-- What the commit state records of the data frames `data` applied since the node was opened at
`tip`. No acknowledgement goes beyond `bound`. -/
structure Recorded (config : CommitConfig) (tip bound : ℕ) (book : Book svc)
    (data : List (LedgerEntry svc)) (state : CommitState svc.Output) : Prop where
  voters : state.voters = config.voters
  selfReplica : state.selfReplica = config.selfReplica
  self : ∃ h, state.highWaters[config.selfReplica]? = some h ∧ ∀ e ∈ data, e.frame.seq ≤ h
  followers : ∀ r, r ≠ config.selfReplica → ∀ s,
    (∃ v, state.highWaters[r]? = some v ∧ s ≤ v) ↔ ∃ a, (r, a) ∈ book.acks ∧ s ≤ a
  acks : ∀ p ∈ book.acks, p.1 ≠ config.selfReplica ∧ p.2 ≤ bound
  floor : tip ≤ bound
  above : ∀ e ∈ data, tip < e.frame.seq
  distinct : data.Pairwise (·.frame.seq ≠ ·.frame.seq)
  pending : ∀ s outputs, state.pending[s]? = some outputs ↔
    state.committed < s ∧ ∃ e ∈ data, e.frame.seq = s ∧ e.outputs = outputs
  released : ∀ s outputs, (s, outputs) ∈ book.released ↔
    s ≤ state.committed ∧ ∃ e ∈ data, e.frame.seq = s ∧ e.outputs = outputs
  ordered : book.released.Pairwise (·.1 < ·.1)
  sound : tip < state.committed → MajorityHolds config book.acks state.committed

/-- **The invariant of the commit state**: moreover, what a majority holds has been released. -/
structure Withheld (config : CommitConfig) (tip bound : ℕ) (book : Book svc)
    (data : List (LedgerEntry svc)) (state : CommitState svc.Output) : Prop
    extends Recorded config tip bound book data state where
  complete : ∀ e ∈ data, MajorityHolds config book.acks e.frame.seq → e.frame.seq ≤ state.committed

section Steps

variable {config : CommitConfig} {tip bound : ℕ} {book : Book svc} {data : List (LedgerEntry svc)}
  {state : CommitState svc.Output}

namespace Recorded

theorem holders_subset (h : Recorded config tip bound book data state) (s : ℕ) :
    holders state.highWaters s ⊆ heldBy config.selfReplica book.acks s := by
  intro r hr
  rw [mem_heldBy]
  by_cases hself : r = config.selfReplica
  · exact Or.inl hself
  · exact Or.inr ((h.followers r hself s).mp (mem_holders.mp hr))

/-- The watermark is held by a majority. -/
theorem majority_watermark (h : Recorded config tip bound book data state) {s : ℕ} (hpos : 0 < s)
    (hs : s ≤ state.watermark) : MajorityHolds config book.acks s := by
  have hcard := (le_kthHighest_iff (Nat.succ_pos _) hpos).mp hs
  rw [h.voters] at hcard
  exact Nat.le_trans hcard (Finset.card_le_card (h.holders_subset s))

/-- A data frame that a majority holds is at or below the watermark. -/
theorem le_watermark (h : Recorded config tip bound book data state) {e : LedgerEntry svc}
    (he : e ∈ data) (hmaj : MajorityHolds config book.acks e.frame.seq) :
    e.frame.seq ≤ state.watermark := by
  have hpos : 0 < e.frame.seq := Nat.lt_of_le_of_lt (Nat.zero_le _) (h.above e he)
  refine (le_kthHighest_iff (Nat.succ_pos _) hpos).mpr ?_
  rw [h.voters]
  refine Nat.le_trans hmaj (Finset.card_le_card fun r hr => ?_)
  rw [mem_holders]
  -- the leader's own high-water covers every data frame
  rcases mem_heldBy.mp hr with rfl | hack
  · obtain ⟨hw, hget, hle⟩ := h.self
    exact ⟨hw, hget, hle e he⟩
  · by_cases hself : r = config.selfReplica
    · obtain ⟨hw, hget, hle⟩ := h.self
      exact ⟨hw, hself ▸ hget, hle e he⟩
    · exact (h.followers r hself _).mpr hack

/-- Nothing beyond `bound` is committed. -/
theorem committed_le (h : Recorded config tip bound book data state) (hvoters : 2 ≤ config.voters) :
    state.committed ≤ bound := by
  by_cases hlt : tip < state.committed
  · obtain ⟨p, hp, hle⟩ := (h.sound hlt).exists_ack hvoters
    exact Nat.le_trans hle (h.acks p hp).2
  · have := h.floor
    omega

/-- A later bound will do. -/
theorem raise (h : Recorded config tip bound book data state) {bound' : ℕ} (hle : bound ≤ bound') :
    Recorded config tip bound' book data state :=
  { h with
    acks := fun p hp => ⟨(h.acks p hp).1, Nat.le_trans (h.acks p hp).2 hle⟩
    floor := Nat.le_trans h.floor hle }

/-- The leader notes its own progress. -/
theorem recordSelf (h : Recorded config tip bound book data state) (seq : ℕ) :
    Recorded config tip bound book data (state.record config.selfReplica seq) :=
  { h with
    self := by
      obtain ⟨hw, hget, hle⟩ := h.self
      refine ⟨max hw seq, ?_, fun e he => Nat.le_trans (hle e he) (Nat.le_max_left ..)⟩
      simp [CommitState.record, hget]
    followers := by
      intro r hr s
      rw [← h.followers r hr s]
      simp [CommitState.record, ExtTreeMap.getElem?_insert, Ne.symm hr] }

/-- A follower acknowledges `seq`. -/
theorem recordAck (h : Recorded config tip bound book data state) {r : UInt32} {seq : ℕ}
    (hr : r ≠ config.selfReplica) (hseq : seq ≤ bound) :
    Recorded config tip bound { book with acks := book.acks ++ [(r, seq)] } data
      (state.record r seq) := by
  have hsub : book.acks ⊆ book.acks ++ [(r, seq)] := List.subset_append_left ..
  refine { h with self := ?_, followers := ?_, acks := ?_, sound := ?_ }
  · obtain ⟨hw, hget, hle⟩ := h.self
    refine ⟨hw, ?_, hle⟩
    simp [CommitState.record, ExtTreeMap.getElem?_insert, hr, hget]
  · intro r' hr' s
    by_cases heq : r = r'
    · -- the entry of `r` is now the larger of its old value and `seq`
      subst heq
      have hold := h.followers r hr s
      simp only [CommitState.record, ExtTreeMap.getElem?_insert_self, Option.some.injEq,
        exists_eq_left', List.mem_append, List.mem_singleton, Prod.mk.injEq, true_and]
      cases hget : state.highWaters[r]? with
      | none =>
        have hnone : ∀ s a, (r, a) ∈ book.acks → ¬s ≤ a := fun s a ha hs => by
          obtain ⟨v, hv, -⟩ := (h.followers r hr s).mpr ⟨a, ha, hs⟩
          rw [hget] at hv
          cases hv
        simp only [Option.getD_none, Nat.zero_le, sup_of_le_right]
        constructor
        · intro hs
          exact ⟨seq, Or.inr rfl, hs⟩
        · rintro ⟨a, ha | rfl, hs⟩
          · exact absurd hs (hnone s a ha)
          · exact hs
      | some v =>
        simp only [hget, Option.some.injEq, exists_eq_left'] at hold
        simp only [Option.getD_some, le_max_iff]
        rw [hold]
        constructor
        · rintro (⟨a, ha, hs⟩ | hs)
          · exact ⟨a, Or.inl ha, hs⟩
          · exact ⟨seq, Or.inr rfl, hs⟩
        · rintro ⟨a, ha | rfl, hs⟩
          · exact Or.inl ⟨a, ha, hs⟩
          · exact Or.inr hs
    · have hne : r' ≠ r := Ne.symm heq
      simp [CommitState.record, ExtTreeMap.getElem?_insert, heq, hne, h.followers r' hr' s]
  · intro p hp
    rcases List.mem_append.mp hp with hold | hsing
    · exact h.acks p hold
    · rw [List.mem_singleton.mp hsing]
      exact ⟨hr, hseq⟩
  · intro hlt
    exact (h.sound hlt).mono (Nat.le_refl _) hsub

/-- **Draining** releases what a majority holds, in seq order. -/
theorem mwp_drain {σ ε : Type} {E : ε → CommitState svc.Output → Prop}
    (h : Recorded config tip bound book data state) :
    mwp (CommitState.drainCommitted : Prog _ σ ε _) (fun released state' =>
      Withheld config tip bound { book with released := book.released ++ released } data state')
      E state := by
  refine mwp_bind (mwp_mem ?_)
  split
  · rename_i hle
    refine mwp_pure ?_
    simp only [List.append_nil]
    exact { h with complete := fun e he hmaj => Nat.le_trans (h.le_watermark he hmaj) hle }
  · rename_i hgt
    refine mwp_seq (Q := fun next s => next = state.watermark + 1 ∧ s = state) ?_ ?_
    · unfold nextSeq seqNext
      split <;> rename_i heq
      · split at heq <;> cases heq
        exact mwp_pure ⟨rfl, rfl⟩
      · exact mwp_panic
    rintro next s ⟨rfl, hs⟩
    rw [hs]
    refine mwp_bind (mwp_update (mwp_pure ?_))
    have hrel : ∀ s outputs,
        (s, outputs) ∈ state.pending.toList.filter (·.1 < state.watermark + 1) ↔
          (state.committed < s ∧ s ≤ state.watermark) ∧
            ∃ e ∈ data, e.frame.seq = s ∧ e.outputs = outputs := by
      intro s outputs
      rw [List.mem_filter, ExtTreeMap.mem_toList_iff_getElem?_eq_some, h.pending]
      simp only [decide_eq_true_eq, Nat.lt_succ_iff]
      tauto
    refine { h with pending := ?_, released := ?_, ordered := ?_, complete := ?_, sound := ?_ }
    · intro s outputs
      rw [ExtTreeMap.getElem?_filter', Option.filter_eq_some_iff, h.pending]
      simp only [decide_eq_true_eq, Nat.succ_le_iff]
      constructor
      · rintro ⟨⟨-, he⟩, hlt⟩
        exact ⟨hlt, he⟩
      · rintro ⟨hlt, he⟩
        exact ⟨⟨by omega, he⟩, hlt⟩
    · intro s outputs
      rw [List.mem_append, h.released, hrel]
      constructor
      · rintro (⟨hle, he⟩ | ⟨⟨-, hle⟩, he⟩)
        · exact ⟨by simp only; omega, he⟩
        · exact ⟨hle, he⟩
      · rintro ⟨hle, he⟩
        by_cases hs : s ≤ state.committed
        · exact Or.inl ⟨hs, he⟩
        · exact Or.inr ⟨⟨by omega, hle⟩, he⟩
    · have hsorted : state.pending.toList.Pairwise (·.1 < ·.1) :=
        (ExtTreeMap.ordered_keys_toList (t := state.pending)).imp fun hlt =>
          Nat.compare_eq_lt.mp hlt
      refine List.pairwise_append.mpr ⟨h.ordered, hsorted.filter _, ?_⟩
      rintro ⟨s, o⟩ hs ⟨s', o'⟩ hs'
      have h₁ := ((h.released s o).mp hs).1
      have h₂ := ((hrel s' o').mp hs').1.1
      simp only
      omega
    · intro hlt
      exact h.majority_watermark (Nat.lt_of_le_of_lt (Nat.zero_le _) hlt) (Nat.le_refl _)
    · intro e he hmaj
      exact h.le_watermark he hmaj

end Recorded

namespace Withheld

theorem raise (h : Withheld config tip bound book data state) {bound' : ℕ} (hle : bound ≤ bound') :
    Withheld config tip bound' book data state :=
  { h.toRecorded.raise hle with complete := h.complete }

theorem recordSelf (h : Withheld config tip bound book data state) (seq : ℕ) :
    Withheld config tip bound book data (state.record config.selfReplica seq) :=
  { h.toRecorded.recordSelf seq with complete := h.complete }

/-- As long as everything a majority holds has been released, draining releases nothing. -/
theorem mwp_drain {σ ε : Type} {E : ε → CommitState svc.Output → Prop}
    (h : Withheld config tip bound book data state) :
    mwp (CommitState.drainCommitted : Prog _ σ ε _) (fun released state' =>
      released = [] ∧ Withheld config tip bound book data state') E state := by
  refine mwp_mono h.toRecorded.mwp_drain ?_ (fun _ _ h => h)
  intro released state' h'
  have hnil : released = [] := by
    rw [List.eq_nil_iff_forall_not_mem]
    rintro ⟨s, outputs⟩ hmem
    -- such a frame is held by a majority, so it was released before
    obtain ⟨hle, e, he, rfl, rfl⟩ := (h'.released s outputs).mp (List.mem_append_right _ hmem)
    have htip : tip < state'.committed := Nat.lt_of_lt_of_le (h.above e he) hle
    have hmaj := (h'.sound htip).mono hle (List.Subset.refl _)
    have hbefore := (h.released _ _).mpr ⟨h.complete e he hmaj, e, he, rfl, rfl⟩
    have hlt := (List.pairwise_append.mp h'.ordered).2.2 _ hbefore _ hmem
    exact Nat.lt_irrefl _ hlt
  subst hnil
  simpa using h'

/-- A frame that no follower can have acknowledged is withheld. -/
theorem insert (h : Withheld config tip bound book data state) (hvoters : 2 ≤ config.voters)
    {e : LedgerEntry svc} (hnew : ∀ e' ∈ data, e'.frame.seq ≠ e.frame.seq)
    (hbound : bound < e.frame.seq) :
    Withheld config tip bound book (data ++ [e])
      ({ state with pending := state.pending.insert e.frame.seq e.outputs }.record
        config.selfReplica e.frame.seq) := by
  have hrec := h.recordSelf e.frame.seq
  have hcommitted : state.committed < e.frame.seq :=
    Nat.lt_of_le_of_lt (h.committed_le hvoters) hbound
  refine { hrec with
    self := ?_, above := ?_, distinct := ?_, pending := ?_, released := ?_, complete := ?_ }
  · obtain ⟨hw, hget, hle⟩ := h.self
    refine ⟨max hw e.frame.seq, by simp [CommitState.record, hget], fun e' he' => ?_⟩
    rcases List.mem_append.mp he' with hold | hsing
    · exact Nat.le_trans (hle e' hold) (Nat.le_max_left ..)
    · rw [List.mem_singleton.mp hsing]
      exact Nat.le_max_right ..
  · intro e' he'
    rcases List.mem_append.mp he' with hold | hsing
    · exact h.above e' hold
    · rw [List.mem_singleton.mp hsing]
      exact Nat.lt_of_le_of_lt h.floor hbound
  · refine List.pairwise_append.mpr ⟨h.distinct, List.pairwise_singleton .., ?_⟩
    intro a ha b hb
    rw [List.mem_singleton.mp hb]
    exact hnew a ha
  · intro s outputs
    show (state.pending.insert e.frame.seq e.outputs)[s]? = some outputs ↔ state.committed < s ∧ _
    rw [ExtTreeMap.getElem?_insert]
    by_cases hs : e.frame.seq = s
    · -- the new entry is the only data frame with its seq
      subst hs
      rw [if_pos ReflCmp.compare_self]
      constructor
      · intro heq
        exact ⟨hcommitted, e, by simp, rfl, Option.some.inj heq⟩
      · rintro ⟨-, e', he', hseq, rfl⟩
        rcases List.mem_append.mp he' with hold | hsing
        · exact absurd hseq (hnew e' hold)
        · rw [List.mem_singleton.mp hsing]
    · have hne : compare e.frame.seq s ≠ .eq := fun heq => hs (LawfulEqOrd.eq_of_compare heq)
      rw [if_neg hne, h.pending]
      constructor
      · rintro ⟨hlt, e', he', hseq, hout⟩
        exact ⟨hlt, e', List.mem_append_left _ he', hseq, hout⟩
      · rintro ⟨hlt, e', he', hseq, hout⟩
        rcases List.mem_append.mp he' with hold | hsing
        · exact ⟨hlt, e', hold, hseq, hout⟩
        · exact absurd (List.mem_singleton.mp hsing ▸ hseq) hs
  · intro s outputs
    show _ ↔ s ≤ state.committed ∧ _
    rw [h.released]
    constructor
    · rintro ⟨hle, e', he', hseq, hout⟩
      exact ⟨hle, e', List.mem_append_left _ he', hseq, hout⟩
    · rintro ⟨hle, e', he', hseq, hout⟩
      rcases List.mem_append.mp he' with hold | hsing
      · exact ⟨hle, e', hold, hseq, hout⟩
      · rw [List.mem_singleton.mp hsing] at hseq
        omega
  · intro e' he' hmaj
    rcases List.mem_append.mp he' with hold | hsing
    · exact h.complete e' hold hmaj
    · -- nobody but the leader holds the new frame
      rw [List.mem_singleton.mp hsing] at hmaj
      obtain ⟨p, hp, hle⟩ := hmaj.exists_ack hvoters
      have := (h.acks p hp).2
      omega

end Withheld

end Steps

/-! ## Steps of the node -/

namespace Node

variable {config : CommitConfig} {tip bound : ℕ} {book : Book svc} {data : List (LedgerEntry svc)}
  {reserved : List ℕ} {n : Node svc}

/-- A node whose commit state covers the data frames `data`. Inside a batch, `reserved` are the seqs
that are assigned but not yet applied. -/
structure Releasing (config : CommitConfig) (tip bound : ℕ) (book : Book svc) (reserved : List ℕ)
    (data : List (LedgerEntry svc)) (n : Node svc) : Prop where
  state : ∃ state, n.commit = some state ∧ Withheld config tip bound book data state
  bound_le : bound ≤ n.seq
  seqs : ∀ e ∈ data, e.frame.seq ≤ n.seq ∧ e.frame.seq ∉ reserved
  reserved : ∀ s ∈ reserved, bound < s ∧ s ≤ n.seq

/-- What is left of the node when only its seq moves on. -/
theorem Releasing.advance {n' : Node svc} (h : Releasing config tip bound book reserved data n)
    (hcommit : n'.commit = n.commit) (hseq : n.seq ≤ n'.seq) :
    Releasing config tip bound book reserved data n' where
  state := hcommit ▸ h.state
  bound_le := Nat.le_trans h.bound_le hseq
  seqs := fun e he => ⟨Nat.le_trans (h.seqs e he).1 hseq, (h.seqs e he).2⟩
  reserved := fun s hs => ⟨(h.reserved s hs).1, Nat.le_trans (h.reserved s hs).2 hseq⟩

/-- The data frames of a ledger with one more control frame. -/
theorem dataOf_control {ledger : List (LedgerEntry svc)} {e : LedgerEntry svc}
    (h : e.frame.kind ≠ .input ∧ e.frame.kind ≠ .timerFired) :
    dataOf (ledger ++ [e]) = dataOf ledger := by
  simp [dataOf, LedgerEntry.isData, h.1, h.2]

theorem dataOf_data {ledger : List (LedgerEntry svc)} {e : LedgerEntry svc}
    (h : e.frame.kind = .input ∨ e.frame.kind = .timerFired) :
    dataOf (ledger ++ [e]) = dataOf ledger ++ [e] := by
  simp [dataOf, LedgerEntry.isData, h]

theorem mwp_maybeSnapshot_releasing {seq : ℕ} {ledgerData : List (LedgerEntry svc)}
    (h : Releasing config tip bound book reserved data n) (hledger : dataOf n.ledger = ledgerData) :
    mwp (maybeSnapshot seq) (fun _ n' => Releasing config tip bound book reserved data n' ∧
      dataOf n'.ledger = ledgerData) (fun _ _ => True) n := by
  refine mwp_maybeSnapshot ⟨h, hledger⟩ ?_
  rintro payload mark n' ⟨hseq, hkind, -, clock, journal, rfl⟩ j
  refine ⟨h.advance rfl (hseq ▸ Nat.le_succ _), ?_⟩
  rw [← hledger]
  exact dataOf_control (by simp [hkind])

/-- **Finishing a data frame releases nothing**: the frame is published and then withheld. `n₀` is the
node before the frame was sequenced and applied. -/
theorem mwp_finishFrame_releasing (hvoters : 2 ≤ config.voters) {frame : Frame}
    {outputs : List svc.Output} {n₀ : Node svc}
    (h : Releasing config tip bound book reserved (dataOf n₀.ledger) n₀)
    (hcommit : n.commit = n₀.commit) (hledger₀ : n.ledger = n₀.ledger) (hseq₀ : n₀.seq ≤ n.seq)
    (hkind : frame.kind = .input ∨ frame.kind = .timerFired) (hbound : bound < frame.seq)
    (hle : frame.seq ≤ n.seq) (hfresh : frame.seq ∉ reserved)
    (hnew : ∀ e ∈ dataOf n₀.ledger, e.frame.seq ≠ frame.seq) :
    mwp (finishFrame frame outputs) (fun released n' => released = [] ∧ n.seq ≤ n'.seq ∧
      Releasing config tip bound book reserved (dataOf n'.ledger) n') (fun _ _ => True) n := by
  -- the entry that `publish` puts into the ledger
  let e : LedgerEntry svc := ⟨frame, n.service, outputs⟩
  refine mwp_bind (mwp_update ?_)
  rw [← hledger₀] at h hnew
  have hpub : Releasing config tip bound book reserved (dataOf n.ledger) (published n frame outputs) :=
    h.advance hcommit hseq₀
  have hsnap := mwp_and (mwp_maybeSnapshot_releasing hpub (dataOf_data (e := e) hkind))
    (keepsSeq_maybeSnapshot frame.seq (published n frame outputs) (Nat.le_refl n.seq))
  refine mwp_seq (mwp_mono hsnap (fun _ _ h => h) (fun _ _ _ => trivial)) ?_
  rintro - n₁ ⟨⟨h₁, hledger⟩, hseq⟩
  obtain ⟨state, hcommit, hw⟩ := h₁.state
  refine mwp_onCommit (fun hnone => by rw [hcommit] at hnone; cases hnone) fun state' hstate' => ?_
  obtain rfl : state = state' := Option.some.inj (hcommit.symm.trans hstate')
  have hins := hw.insert (e := e) hvoters hnew hbound
  rw [← hw.selfReplica] at hins
  refine mwp_bind (mwp_update ?_)
  refine mwp_seq hins.mwp_drain fun released state' hdrain => mwp_pure ?_
  obtain ⟨rfl, hw'⟩ := hdrain
  refine ⟨rfl, hseq, ⟨state', rfl, by rw [hledger]; exact hw'⟩, h₁.bound_le, ?_, h₁.reserved⟩
  intro e' he'
  rw [hledger, List.mem_append, List.mem_singleton] at he'
  rcases he' with hold | rfl
  · exact h₁.seqs e' hold
  · exact ⟨Nat.le_trans hle hseq, hfresh⟩

theorem mwp_fireDueTimers_releasing (hvoters : 2 ≤ config.voters) (fuel : ℕ)
    (h : Releasing config tip bound book reserved (dataOf n.ledger) n) :
    mwp (fireDueTimers fuel) (fun released n' => released = [] ∧ n.seq ≤ n'.seq ∧
      Releasing config tip bound book reserved (dataOf n'.ledger) n') (fun _ _ => True) n := by
  induction fuel generalizing n with
  | zero => exact mwp_spin
  | succ fuel ih =>
    refine mwp_bind (mwp_popDue (fun _ => mwp_pure ⟨rfl, Nat.le_refl _, h⟩) fun id timers _ => ?_)
    refine mwp_bind (mwp_mem (mwp_seq (mwp_mono mwp_sequenceAt (fun _ _ h => h)
      (fun _ _ _ => trivial)) ?_))
    rintro frame n₁ ⟨hseq, hkind, -, clock, journal, rfl⟩
    have hseq : frame.seq = n.seq + 1 := hseq
    refine mwp_bind (mwp_runStep ?_)
    -- the next seq lies above every seq assigned so far, reserved ones included
    refine mwp_seq (mwp_finishFrame_releasing hvoters h rfl rfl (hseq ▸ Nat.le_succ n.seq)
      (Or.inr hkind) ?_ (Nat.le_refl _) ?_ ?_) ?_
    · have := h.bound_le
      omega
    · intro hmem
      have := (h.reserved _ hmem).2
      omega
    · intro e he heq
      have := (h.seqs e he).1
      omega
    rintro released n₂ ⟨rfl, hle₂, h₂⟩
    refine mwp_seq (ih h₂) ?_
    rintro more n₃ ⟨rfl, hle₃, h₃⟩
    refine mwp_pure ⟨rfl, ?_, h₃⟩
    simp only [hseq] at hle₂
    omega

/-- A step between calls starts with every acknowledgement at or below the node's seq. -/
theorem Releasing.start (h : Releasing config tip bound book [] data n) :
    Releasing config tip n.seq book [] data n := by
  obtain ⟨state, hcommit, hw⟩ := h.state
  exact ⟨⟨state, hcommit, hw.raise h.bound_le⟩, Nat.le_refl _, h.seqs, fun s hs => by cases hs⟩

theorem mwp_submit_releasing (hvoters : 2 ≤ config.voters) (fuel : ℕ) (input : svc.Input)
    (h : Releasing config tip n.seq book [] (dataOf n.ledger) n) :
    mwp (submit fuel input) (fun result n' => result.2 = [] ∧
      Releasing config tip n.seq book [] (dataOf n'.ledger) n') (fun _ _ => True) n := by
  refine mwp_seq (mwp_mono mwp_sequence (fun _ _ h => h) (fun _ _ _ => trivial)) ?_
  rintro frame n₁ ⟨hseq, hkind, -, clock, journal, rfl⟩
  refine mwp_bind (mwp_runStep ?_)
  refine mwp_seq (mwp_finishFrame_releasing hvoters h rfl rfl (hseq ▸ Nat.le_succ n.seq)
    (Or.inl hkind) ?_ (Nat.le_refl _) ?_ ?_) ?_
  · omega
  · exact List.not_mem_nil
  · intro e he heq
    have := (h.seqs e he).1
    omega
  rintro released n₂ ⟨rfl, -, h₂⟩
  refine mwp_seq (mwp_fireDueTimers_releasing hvoters fuel h₂) ?_
  rintro more n₃ ⟨rfl, -, h₃⟩
  exact mwp_pure ⟨rfl, h₃⟩

/-- Applying staged inputs, each of which has a reserved seq. -/
theorem mwp_applyAll_releasing (hvoters : 2 ≤ config.voters) (fuel : ℕ)
    (l : List (svc.Input × Frame)) (hkind : ∀ p ∈ l, p.2.kind = .input)
    (hnodup : (l.map (·.2.seq)).Nodup)
    (h : Releasing config tip bound book (l.map (·.2.seq)) (dataOf n.ledger) n) :
    mwp (applyAll fuel l) (fun results n' => (∀ r ∈ results, r.2 = []) ∧
      Releasing config tip bound book [] (dataOf n'.ledger) n') (fun _ _ => True) n := by
  induction l generalizing n with
  | nil => exact mwp_pure ⟨by simp, h⟩
  | cons p l ih =>
    obtain ⟨input, frame⟩ := p
    rw [List.map_cons, List.nodup_cons] at hnodup
    have hmine : bound < frame.seq ∧ frame.seq ≤ n.seq := h.reserved _ (List.mem_cons_self ..)
    have hnew : ∀ e ∈ dataOf n.ledger, e.frame.seq ≠ frame.seq := fun e he heq =>
      (h.seqs e he).2 (heq ▸ List.mem_cons_self ..)
    -- the seq of this frame is no longer reserved
    have hrest : Releasing config tip bound book (l.map (·.2.seq)) (dataOf n.ledger) n :=
      ⟨h.state, h.bound_le,
        fun e he => ⟨(h.seqs e he).1, fun hmem => (h.seqs e he).2 (List.mem_cons_of_mem _ hmem)⟩,
        fun s hs => h.reserved s (List.mem_cons_of_mem _ hs)⟩
    refine mwp_bind (mwp_runStep ?_)
    refine mwp_seq (mwp_finishFrame_releasing hvoters hrest rfl rfl (Nat.le_refl n.seq)
      (Or.inl (hkind _ (List.mem_cons_self ..))) hmine.1 hmine.2 hnodup.1 hnew) ?_
    rintro released n₁ ⟨rfl, -, h₁⟩
    refine mwp_seq (mwp_fireDueTimers_releasing hvoters fuel h₁) ?_
    rintro more n₂ ⟨rfl, -, h₂⟩
    refine mwp_seq (ih (fun p hp => hkind p (List.mem_cons_of_mem _ hp)) hnodup.2 h₂) ?_
    rintro results n₃ ⟨hres, h₃⟩
    refine mwp_pure ⟨fun r hr => ?_, h₃⟩
    rcases List.mem_cons.mp hr with rfl | hr
    · rfl
    · exact hres r hr

theorem mwp_submitBatch_releasing (hvoters : 2 ≤ config.voters) (fuel : ℕ) (inputs : List svc.Input)
    (h : Releasing config tip n.seq book [] (dataOf n.ledger) n) :
    mwp (submitBatch fuel inputs) (fun results n' => (∀ r ∈ results, r.2 = []) ∧
      Releasing config tip n.seq book [] (dataOf n'.ledger) n') (fun _ _ => True) n := by
  unfold submitBatch
  split
  · exact mwp_pure ⟨by simp, h⟩
  refine mwp_bind (mwp_now (mwp_seq (mwp_stageAll _ inputs) ?_))
  intro frames n₁ hall
  have hzip : (inputs.zip frames).map (·.2.seq) = List.range' (n.seq + 1) inputs.length := hall.zip_seqs
  obtain ⟨hstaged, -, -, rfl⟩ := hall
  refine mwp_bind (mwp_onJournal (fun _ j => ?_) fun _ _ => trivial)
  refine mwp_applyAll_releasing hvoters fuel _ ?_ ?_ ⟨h.state, ?_, ?_, ?_⟩
  · rintro ⟨input, frame⟩ hmem
    exact (List.forall₂_zip hstaged hmem).1
  · rw [hzip]
    exact List.nodup_range'
  · exact Nat.le_add_right ..
  · intro e he
    have := (h.seqs e he).1
    refine ⟨Nat.le_trans this (Nat.le_add_right ..), fun hmem => ?_⟩
    rw [hzip, List.mem_range'_1] at hmem
    omega
  · intro s hs
    rw [hzip, List.mem_range'_1] at hs
    simp only
    omega

end Node

end Ticktape.Runtime
