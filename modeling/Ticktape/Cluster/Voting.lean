import Ticktape.Cluster.Election
import Mathlib.Algebra.Order.Ring.Nat
import Mathlib.Data.List.Count

/-!
# One round of votes

`run_election` (`ticktape-cluster/src/net.rs`): a candidate asks one acceptor after the other and stops as soon as
it has a majority. A round that is lost tells how high the next bid has to be: when every acceptor answered, a bid
above what was reported finds a majority free to grant it (`won_of_reported`).
-/

namespace Ticktape.Cluster

/-- Ask the acceptors in turn, from the `i`th on; `none` is one that does not answer. -/
def contact (e : Election) (i : ℕ) : List (Option VoteReply) → ElectionOutcome
  | [] => e.outcome
  | none :: rest => contact e (i + 1) rest
  | some reply :: rest =>
    match (e.onReply (UInt32.ofNat i) reply).outcome with
    | .won epoch syncTo => .won epoch syncTo
    | _ => contact (e.onReply (UInt32.ofNat i) reply) (i + 1) rest

/-- One round for `epoch`. -/
def runElection (epoch : UInt64) (replies : List (Option VoteReply)) : ElectionOutcome :=
  contact (.new epoch replies.length) 0 replies

/-- What every acceptor would answer to a bid. -/
def answers (epoch : UInt64) (acceptors : List Acceptor) : List (Option VoteReply) :=
  acceptors.map fun a => some (a.handle ⟨epoch⟩).1

/-- The acceptors behind a round in which all of them can be reached. -/
def canvass (e : Election) (i : ℕ) : List Acceptor → List Acceptor
  | [] => []
  | a :: rest =>
    match (e.onReply (UInt32.ofNat i) (a.handle e.request).1).outcome with
    | .won _ _ => (a.handle e.request).2 :: rest
    | _ => (a.handle e.request).2 :: canvass (e.onReply (UInt32.ofNat i) (a.handle e.request).1) (i + 1) rest

/-- What a candidate that was not made leader reports: the highest promise, or its own bid. -/
def ElectionOutcome.reports (bid : UInt64) : ElectionOutcome → UInt64
  | .lost highestPromised => highestPromised
  | _ => bid

/-- The larger of two epochs. -/
theorem max_bounds (x y : UInt64) : x ≤ max x y ∧ y ≤ max x y ∧ (max x y = x ∨ max x y = y) := by
  show x ≤ (if x ≤ y then y else x) ∧ y ≤ (if x ≤ y then y else x) ∧
    ((if x ≤ y then y else x) = x ∨ (if x ≤ y then y else x) = y)
  split
  · exact ⟨‹_›, UInt64.le_refl _, Or.inr rfl⟩
  · exact ⟨UInt64.le_refl _, UInt64.le_of_lt (UInt64.not_le.mp ‹_›), Or.inl rfl⟩

section Round

variable {e : Election} {i : ℕ} {replies : List (Option VoteReply)} {acceptors : List Acceptor}

/-- A round is won for the epoch that was bid. -/
theorem contact_won {epoch : UInt64} {syncTo : ℕ} (h : contact e i replies = .won epoch syncTo) :
    epoch = e.epoch := by
  induction replies generalizing e i with
  | nil => exact (Election.outcome_eq_won.mp h).2.1.symm
  | cons reply rest ih =>
    cases reply with
    | none => exact ih h
    | some reply =>
      simp only [contact] at h
      split at h
      · rename_i heq
        cases h
        rw [← (Election.outcome_eq_won.mp heq).2.1, Election.onReply_epoch]
      · rw [ih h, Election.onReply_epoch]

/-- Acceptors that promised less grant, whatever the others do. -/
theorem contact_wins {epoch : UInt64} (he : e.epoch = epoch) (hlen : i + acceptors.length ≤ 2 ^ 32)
    (hids : ∀ id ∈ e.granters, ∃ k < i, id = UInt32.ofNat k)
    (hcount : e.needed ≤ e.granters.card + acceptors.countP (·.promised < epoch)) :
    ∃ syncTo, contact e i (answers epoch acceptors) = .won epoch syncTo := by
  induction acceptors generalizing e i with
  | nil =>
    refine ⟨e.syncTo, Election.outcome_eq_won.mpr ⟨?_, he, rfl⟩⟩
    simpa using hcount
  | cons a rest ih =>
    rw [List.length_cons] at hlen
    simp only [answers, List.map_cons, contact]
    split
    · rename_i heq
      have hepoch := (Election.outcome_eq_won.mp heq).2.1
      rw [Election.onReply_epoch, he] at hepoch
      exact ⟨_, by rw [hepoch]⟩
    · apply ih
      · rw [Election.onReply_epoch, he]
      · omega
      · intro id hid
        rcases a.handle_cases ⟨epoch⟩ with ⟨hlt, heq⟩ | ⟨hle, heq⟩
        · rw [heq] at hid
          simp only [Election.onReply, he, if_true, Finset.mem_insert] at hid
          rcases hid with rfl | hid
          · exact ⟨i, by omega, rfl⟩
          · obtain ⟨k, hk, rfl⟩ := hids id hid
            exact ⟨k, by omega, rfl⟩
        · rw [heq] at hid
          obtain ⟨k, hk, rfl⟩ := hids id hid
          exact ⟨k, by omega, rfl⟩
      · rw [Election.onReply_needed]
        rcases a.handle_cases ⟨epoch⟩ with ⟨hlt, heq⟩ | ⟨hle, heq⟩
        · -- the grant comes from an acceptor that has not granted yet
          have hfresh : UInt32.ofNat i ∉ e.granters := by
            intro hmem
            obtain ⟨k, hk, heq⟩ := hids _ hmem
            have hsize : UInt32.size = 2 ^ 32 := rfl
            have hnat := congrArg UInt32.toNat heq
            rw [UInt32.toNat_ofNat_of_lt' (by omega), UInt32.toNat_ofNat_of_lt' (by omega)] at hnat
            omega
          rw [heq]
          simp only [Election.onReply, he, if_true, Finset.card_insert_of_notMem hfresh]
          rw [List.countP_cons_of_pos (by simpa using hlt)] at hcount
          omega
        · rw [heq]
          rw [List.countP_cons_of_neg (by simpa using hle)] at hcount
          exact hcount

@[simp] theorem canvass_length : (canvass e i acceptors).length = acceptors.length := by
  induction acceptors generalizing e i with
  | nil => rfl
  | cons a rest ih =>
    simp only [canvass]
    split
    · simp
    · simp [ih]

/-- Behind a round that was not won no acceptor has promised more than was reported. -/
theorem promised_canvass {epoch : UInt64} (he : e.epoch = epoch)
    (hlost : e.lost = true → epoch ≤ e.highestPromised)
    (hnot : ∀ bid syncTo, contact e i (answers epoch acceptors) ≠ .won bid syncTo) :
    epoch ≤ (contact e i (answers epoch acceptors)).reports epoch ∧
      (e.lost = true → e.highestPromised ≤ (contact e i (answers epoch acceptors)).reports epoch) ∧
      ∀ a ∈ canvass e i acceptors, a.promised ≤ (contact e i (answers epoch acceptors)).reports epoch := by
  induction acceptors generalizing e i with
  | nil =>
    simp only [answers, List.map_nil, contact, canvass, List.not_mem_nil, false_implies, implies_true, and_true]
      at hnot ⊢
    unfold Election.outcome at hnot ⊢
    split
    · rename_i hmajority
      exact absurd (if_pos hmajority) (hnot _ _)
    · split
      · rename_i hlost'
        exact ⟨hlost hlost', fun _ => UInt64.le_refl _⟩
      · rename_i hnone
        exact ⟨UInt64.le_refl _, fun h => absurd h hnone⟩
  | cons a rest ih =>
    subst he
    have hrequest : e.request = ⟨e.epoch⟩ := rfl
    simp only [answers, List.map_cons, contact, canvass, hrequest] at hnot ⊢
    split
    · rename_i heq
      rw [heq] at hnot
      exact absurd rfl (hnot _ _)
    · rename_i hgoes
      simp only [List.mem_cons, forall_eq_or_imp]
      have hnot' : ∀ bid syncTo, contact (e.onReply (UInt32.ofNat i) (a.handle ⟨e.epoch⟩).1) (i + 1)
          (answers e.epoch rest) ≠ .won bid syncTo := by
        intro bid syncTo heq
        apply hnot bid syncTo
        split
        · rename_i hwon
          exact absurd hwon (hgoes _ _)
        · exact heq
      rcases a.handle_cases ⟨e.epoch⟩ with ⟨hlt, heq⟩ | ⟨hle, heq⟩
      · rw [heq] at hnot' ⊢
        have hkeeps : (e.onReply (UInt32.ofNat i) (.grant e.epoch a.highWater)).lost = e.lost ∧
            (e.onReply (UInt32.ofNat i) (.grant e.epoch a.highWater)).highestPromised = e.highestPromised := by
          simp [Election.onReply]
        obtain ⟨hbid, hhighest, hrest⟩ := ih (by simp) (by rwa [hkeeps.1, hkeeps.2]) hnot'
        rw [hkeeps.1, hkeeps.2] at hhighest
        exact ⟨hbid, hhighest, hbid, hrest⟩
      · rw [heq] at hnot' ⊢
        have hlost' : (e.onReply (UInt32.ofNat i) (.reject a.promised)).lost = true := by
          simp only [Election.onReply, Bool.or_eq_true, decide_eq_true_eq]
          exact Or.inr hle
        obtain ⟨hold, hnew, -⟩ := max_bounds e.highestPromised a.promised
        obtain ⟨hbid, hhighest, hrest⟩ := ih (by simp) (fun _ => UInt64.le_trans hle hnew) hnot'
        have hall := hhighest hlost'
        exact ⟨hbid, fun _ => UInt64.le_trans hold hall, UInt64.le_trans hnew hall, hrest⟩

/-- Behind a round that was won a majority has promised no more than the bid. -/
theorem countP_canvass {epoch bid : UInt64} {syncTo : ℕ} (he : e.epoch = epoch)
    (hwon : contact e i (answers epoch acceptors) = .won bid syncTo) :
    e.needed ≤ e.granters.card + (canvass e i acceptors).countP (·.promised ≤ epoch) := by
  induction acceptors generalizing e i with
  | nil => exact (Election.outcome_eq_won.mp hwon).1
  | cons a rest ih =>
    subst he
    have hrequest : e.request = ⟨e.epoch⟩ := rfl
    have hstep : (e.onReply (UInt32.ofNat i) (a.handle ⟨e.epoch⟩).1).granters.card ≤
        e.granters.card + [(a.handle ⟨e.epoch⟩).2].countP (·.promised ≤ e.epoch) := by
      rcases a.handle_cases ⟨e.epoch⟩ with ⟨hlt, heq⟩ | ⟨hle, heq⟩
      · rw [heq]
        simpa [Election.onReply] using Finset.card_insert_le _ _
      · rw [heq]
        simp [Election.onReply]
    simp only [answers, List.map_cons, contact, canvass, hrequest] at hwon ⊢
    split
    · rename_i heq
      have hneeded := (Election.outcome_eq_won.mp heq).1
      rw [Election.onReply_needed] at hneeded
      rw [← List.singleton_append, List.countP_append]
      omega
    · rename_i hgoes
      have hwon' : contact (e.onReply (UInt32.ofNat i) (a.handle ⟨e.epoch⟩).1) (i + 1) (answers e.epoch rest) =
          .won bid syncTo := by
        split at hwon
        · rename_i hnow
          exact absurd hnow (hgoes _ _)
        · exact hwon
      have hrest := ih (by simp) hwon'
      rw [Election.onReply_needed] at hrest
      rw [← List.singleton_append, List.countP_append]
      omega

end Round

/-- **The next bid**: once every acceptor answered a round that reported `h`, and nobody else bids, a bid above `h` is
granted by a majority. -/
theorem won_of_reported {acceptors acceptors' : List Acceptor} {epoch bid : UInt64} (hne : acceptors ≠ [])
    (hlen : acceptors.length ≤ 2 ^ 32)
    (hsame : acceptors'.map (·.promised) = (canvass (.new epoch acceptors.length) 0 acceptors).map (·.promised))
    (hbid : (runElection epoch (answers epoch acceptors)).reports epoch < bid) :
    ∃ syncTo, runElection bid (answers bid acceptors') = .won bid syncTo := by
  have hlength : acceptors'.length = acceptors.length := by
    simpa using congrArg List.length hsame
  have hpos := List.length_pos_iff.mpr hne
  have hnew : ∀ e : UInt64, (Election.new e acceptors.length).epoch = e := fun _ => rfl
  have hfree : majority acceptors.length ≤
      (canvass (.new epoch acceptors.length) 0 acceptors).countP (·.promised < bid) := by
    have hrun : runElection epoch (answers epoch acceptors) =
        contact (.new epoch acceptors.length) 0 (answers epoch acceptors) := by
      rw [runElection, answers, List.length_map]
    rw [hrun] at hbid
    by_cases hnot : ∀ e syncTo, contact (.new epoch acceptors.length) 0 (answers epoch acceptors) ≠ .won e syncTo
    · obtain ⟨-, -, hall⟩ := promised_canvass (hnew epoch) (by simp [Election.new]) hnot
      rw [List.countP_eq_length.mpr fun a ha => by
        simpa using UInt64.lt_of_le_of_lt (hall a ha) hbid, canvass_length]
      unfold majority
      omega
    · push Not at hnot
      obtain ⟨e, syncTo, hwon⟩ := hnot
      have hcount := countP_canvass (hnew epoch) hwon
      have hneeded : (Election.new epoch acceptors.length).needed = majority acceptors.length := rfl
      have hnone : (Election.new epoch acceptors.length).granters.card = 0 := rfl
      rw [hneeded, hnone] at hcount
      rw [hwon] at hbid
      have hle : (canvass (.new epoch acceptors.length) 0 acceptors).countP (·.promised ≤ epoch) ≤
          (canvass (.new epoch acceptors.length) 0 acceptors).countP (·.promised < bid) := by
        apply List.countP_mono_left
        intro a _ ha
        simp only [decide_eq_true_eq] at ha ⊢
        exact UInt64.lt_of_le_of_lt ha hbid
      omega
  have hcount : acceptors'.countP (·.promised < bid) =
      (canvass (.new epoch acceptors.length) 0 acceptors).countP (·.promised < bid) := by
    have hmap := congrArg (List.countP fun p => decide (p < bid)) hsame
    rw [List.countP_map, List.countP_map] at hmap
    exact hmap
  rw [runElection, answers, List.length_map, hlength]
  apply contact_wins (hnew bid)
  · omega
  · simp [Election.new]
  · rw [hcount]
    simpa [Election.new] using hfree

end Ticktape.Cluster
