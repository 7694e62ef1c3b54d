import Mathlib.Order.Basic
import Mathlib.Data.List.Sort

/-!
# Stable sorting by a key

A list that is sorted by a key is determined by its buckets, the members with one key in their order. So what comes
first in a stably sorted list are the members with the least key, in the order they came in.
-/

namespace Ticktape.Lib

variable {α κ : Type}

section Bucket

variable [DecidableEq κ] (key : α → κ)

/-- The members with a key, in order. -/
def bucket (k : κ) (l : List α) : List α := l.filter (key · = k)

variable {key}

theorem mem_bucket {k : κ} {l : List α} {a : α} : a ∈ bucket key k l ↔ a ∈ l ∧ key a = k := by
  simp [bucket]

theorem bucket_append (k : κ) (l r : List α) : bucket key k (l ++ r) = bucket key k l ++ bucket key k r :=
  List.filter_append ..

/-- **Buckets are all there is**: those of every key, one after the other, are the list. -/
theorem flatMap_bucket_perm {ks : List κ} (hdistinct : ks.Nodup) {l : List α} (h : ∀ a ∈ l, key a ∈ ks) :
    (ks.flatMap fun k => bucket key k l).Perm l := by
  induction ks generalizing l with
  | nil =>
    have hnil : l = [] := List.eq_nil_iff_forall_not_mem.mpr fun a ha => by cases h a ha
    rw [hnil]
    exact .refl _
  | cons k ks ih =>
    obtain ⟨hnot, hnodup⟩ := List.nodup_cons.mp hdistinct
    have hrest : (ks.flatMap fun k' => bucket key k' l) =
        ks.flatMap fun k' => bucket key k' (l.filter fun a => !decide (key a = k)) := by
      rw [List.flatMap_def, List.flatMap_def]
      congr 1
      apply List.map_congr_left
      intro k' hk'
      rw [bucket, bucket, List.filter_filter]
      apply List.filter_congr
      intro a _
      by_cases ha : key a = k'
      · have hne : k' ≠ k := fun heq => hnot (heq ▸ hk')
        simp [ha, hne]
      · simp [ha]
    rw [List.flatMap_cons, hrest]
    have htail := ih hnodup (l := l.filter fun a => !decide (key a = k)) fun a ha => by
      obtain ⟨hmem, hne⟩ := List.mem_filter.mp ha
      refine (List.mem_cons.mp (h a hmem)).resolve_left ?_
      simpa using hne
    exact (htail.append_left _).trans (List.filter_append_perm _ l)

end Bucket

/-! ## Sorting -/

variable [LinearOrder κ] (key : α → κ)

/-- The list sorted by the key; members with the same key keep their order. -/
def sortBy (l : List α) : List α := l.mergeSort fun a b => key a ≤ key b

variable {key}

theorem sortBy_perm (l : List α) : (sortBy key l).Perm l := List.mergeSort_perm _ _

theorem sortBy_pairwise (l : List α) : (sortBy key l).Pairwise (key · ≤ key ·) := by
  have hsorted : (l.mergeSort fun a b => decide (key a ≤ key b)).Pairwise fun a b => decide (key a ≤ key b) := by
    apply List.pairwise_mergeSort
    · intro a b c hab hbc
      exact decide_eq_true (le_trans (of_decide_eq_true hab) (of_decide_eq_true hbc))
    · intro a b
      rcases le_total (key a) (key b) with h | h <;> simp [h]
  exact hsorted.imp fun h => of_decide_eq_true h

/-- **Sorting keeps the buckets.** -/
theorem bucket_sortBy (k : κ) (l : List α) : bucket key k (sortBy key l) = bucket key k l := by
  have hbucket : (bucket key k l).Pairwise fun a b => decide (key a ≤ key b) := by
    rw [List.pairwise_iff_forall_sublist]
    intro a b hab
    have ha := (mem_bucket.mp (hab.subset (List.mem_cons_self ..))).2
    have hb := (mem_bucket.mp (hab.subset (List.mem_cons_of_mem _ (List.mem_singleton_self b)))).2
    exact decide_eq_true (by rw [ha, hb])
  have hsub : (bucket key k l).Sublist (sortBy key l) := by
    apply List.sublist_mergeSort
    · intro a b c hab hbc
      exact decide_eq_true (le_trans (of_decide_eq_true hab) (of_decide_eq_true hbc))
    · intro a b
      rcases le_total (key a) (key b) with h | h <;> simp [h]
    · exact hbucket
    · exact List.filter_sublist
  have hfilter : (bucket key k l).Sublist (bucket key k (sortBy key l)) := by
    have h := hsub.filter fun a => key a = k
    rwa [bucket, List.filter_filter, show (fun a : α => (decide (key a = k) && decide (key a = k))) =
      fun a => decide (key a = k) from funext fun a => Bool.and_self _] at h
  exact (hfilter.eq_of_length ((sortBy_perm l).filter _).length_eq.symm).symm

/-- **A sorted list is determined by its buckets.** -/
theorem eq_of_buckets {l r : List α} (hl : l.Pairwise (key · ≤ key ·)) (hr : r.Pairwise (key · ≤ key ·))
    (h : ∀ k, bucket key k l = bucket key k r) : l = r := by
  induction l generalizing r with
  | nil =>
    cases r with
    | nil => rfl
    | cons b r =>
      have hb := h (key b)
      simp [bucket] at hb
  | cons a l ih =>
    cases r with
    | nil =>
      have ha := h (key a)
      simp [bucket] at ha
    | cons b r =>
      obtain ⟨hla, hltail⟩ := List.pairwise_cons.mp hl
      obtain ⟨hrb, hrtail⟩ := List.pairwise_cons.mp hr
      -- each head is somewhere in the other list
      have hab : key a ≤ key b := by
        have hmem : b ∈ bucket key (key b) (a :: l) := by
          rw [h]
          exact mem_bucket.mpr ⟨List.mem_cons_self .., rfl⟩
        rcases List.mem_cons.mp (mem_bucket.mp hmem).1 with heq | hmem
        · rw [heq]
        · exact hla b hmem
      have hba : key b ≤ key a := by
        have hmem : a ∈ bucket key (key a) (b :: r) := by
          rw [← h]
          exact mem_bucket.mpr ⟨List.mem_cons_self .., rfl⟩
        rcases List.mem_cons.mp (mem_bucket.mp hmem).1 with heq | hmem
        · rw [heq]
        · exact hrb a hmem
      have hkey : key b = key a := le_antisymm hba hab
      have hheads := h (key a)
      rw [bucket, bucket, List.filter_cons_of_pos (by simp), List.filter_cons_of_pos (by simp [hkey])] at hheads
      obtain ⟨rfl, -⟩ := List.cons.inj hheads
      congr 1
      refine ih hltail hrtail fun k => ?_
      have hk := h k
      rw [bucket, bucket, List.filter_cons, List.filter_cons] at hk
      split at hk
      · exact (List.cons.inj hk).2
      · exact hk

/-- A smaller key comes before a larger one. -/
theorem before_of_lt {l : List α} {a b : α} (ha : a ∈ l) (hb : b ∈ l) (h : key a < key b) :
    [a, b].Sublist (sortBy key l) := by
  have hall : ∀ c ∈ l, c ∈ sortBy key l := fun _ => (sortBy_perm l).mem_iff.mpr
  obtain ⟨before, rest, hsplit⟩ := List.append_of_mem (hall a ha)
  have hsorted : (sortBy key l).Pairwise (key · ≤ key ·) := sortBy_pairwise l
  have hmem := hall b hb
  rw [hsplit] at hsorted hmem ⊢
  rcases List.mem_append.mp hmem with hmem | hmem
  · -- it cannot come first
    have hle := (List.pairwise_append.mp hsorted).2.2 b hmem a (List.mem_cons_self ..)
    exact absurd h (not_lt_of_ge hle)
  · rcases List.mem_cons.mp hmem with rfl | hmem
    · exact absurd h (lt_irrefl _)
    · exact ((List.singleton_sublist.mpr hmem).cons_cons a).trans (List.sublist_append_right ..)

/-- Members with one key keep their order. -/
theorem before_of_eq {l : List α} {a b : α} (horder : [a, b].Sublist l) (h : key a = key b) :
    [a, b].Sublist (sortBy key l) := by
  have hbucket := horder.filter (key · = key b)
  rw [List.filter_cons_of_pos (by simp [h]), List.filter_cons_of_pos (by simp), List.filter_nil] at hbucket
  have hsame : bucket key (key b) (sortBy key l) = bucket key (key b) l := bucket_sortBy _ l
  rw [bucket, bucket] at hsame
  rw [← hsame] at hbucket
  exact hbucket.trans List.filter_sublist

/-- **The least key comes first.** -/
theorem sortBy_least {k : κ} {l : List α} (h : ∀ a ∈ l, k ≤ key a) :
    sortBy key l = bucket key k l ++ sortBy key (l.filter (key · ≠ k)) := by
  apply eq_of_buckets (sortBy_pairwise l)
  · rw [List.pairwise_append]
    refine ⟨?_, sortBy_pairwise _, fun a ha b hb => ?_⟩
    · rw [List.pairwise_iff_forall_sublist]
      intro a b hab
      rw [(mem_bucket.mp (hab.subset (List.mem_cons_self ..))).2]
      exact h b (mem_bucket.mp (hab.subset (List.mem_cons_of_mem _ (List.mem_singleton_self b)))).1
    · rw [(mem_bucket.mp ha).2]
      exact h b (List.mem_of_mem_filter ((sortBy_perm _).mem_iff.mp hb))
  · intro k'
    rw [bucket_sortBy, bucket_append, bucket_sortBy]
    by_cases hk : k' = k
    · subst hk
      have hrest : bucket key k' (l.filter (key · ≠ k')) = [] := by
        rw [bucket, List.filter_filter, List.filter_eq_nil_iff]
        simp
      have hself : bucket key k' (bucket key k' l) = bucket key k' l := by
        rw [bucket, bucket, List.filter_filter]
        simp
      rw [hrest, hself, List.append_nil]
    · have hother : bucket key k' (bucket key k l) = [] := by
        rw [bucket, bucket, List.filter_filter, List.filter_eq_nil_iff]
        rintro a - hboth
        simp only [Bool.and_eq_true, decide_eq_true_eq] at hboth
        exact hk (hboth.1.symm.trans hboth.2)
      have hrest : bucket key k' (l.filter (key · ≠ k)) = bucket key k' l := by
        rw [bucket, bucket, List.filter_filter]
        apply List.filter_congr
        intro a _
        by_cases ha : key a = k'
        · simp [ha, hk]
        · simp [ha]
      rw [hother, hrest, List.nil_append]

end Ticktape.Lib
