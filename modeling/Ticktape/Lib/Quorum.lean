import Mathlib.Data.Finset.Card
import Mathlib.Data.List.Sort
import Std.Data.ExtTreeMap.Lemmas

/-!
# Majorities and what they hold

Counting replicas: the `k`-th highest entry of a map from replicas to numbers is the largest number
that `k` replicas reach (`le_kthHighest_iff`), and two majorities of the same voters share a voter
(`majority_inter`).
-/

namespace Ticktape.Lib

open Std

/-! ## Order statistics of a list -/

/-- In a descending list, the entry at `k` reaches `s` exactly if more than `k` entries do. -/
theorem le_getD_of_descending {l : List ℕ} (h : l.Pairwise (· ≥ ·)) {k s : ℕ} (hk : k < l.length) :
    s ≤ l.getD k 0 ↔ k + 1 ≤ l.countP (s ≤ ·) := by
  induction l generalizing k with
  | nil => simp at hk
  | cons a l ih =>
    rw [List.pairwise_cons] at h
    by_cases ha : s ≤ a
    · -- the head reaches `s`: it counts for itself
      rw [List.countP_cons_of_pos (by simpa using ha)]
      cases k with
      | zero => simp [ha]
      | succ k =>
        have hk' : k < l.length := by simpa using hk
        rw [List.getD_cons_succ, ih h.2 hk']
        omega
    · -- the head does not, so nothing behind it does
      have hnone : l.countP (s ≤ ·) = 0 := by
        rw [List.countP_eq_zero]
        intro b hb
        have := h.1 b hb
        simp only [decide_eq_true_eq]
        omega
      rw [List.countP_cons_of_neg (by simpa using ha), hnone]
      constructor
      · intro hle
        cases k with
        | zero => exact absurd (by simpa using hle) ha
        | succ k =>
          have hk' : k < l.length := by simpa using hk
          have := (ih h.2 hk').mp (by simpa using hle)
          omega
      · intro hle
        omega

/-- A running maximum is at least where it started. -/
theorem le_foldl_max (l : List ℕ) (a : ℕ) : a ≤ l.foldl max a := by
  induction l generalizing a with
  | nil => exact Nat.le_refl a
  | cons b l ih => exact Nat.le_trans (Nat.le_max_left a b) (ih _)

/-- A running maximum is at least everything it has seen. -/
theorem le_foldl_max_of_mem {l : List ℕ} {a b : ℕ} (h : b ∈ l) : b ≤ l.foldl max a := by
  induction l generalizing a with
  | nil => cases h
  | cons c l ih =>
    rcases List.mem_cons.mp h with rfl | htail
    · exact Nat.le_trans (Nat.le_max_right a b) (le_foldl_max l _)
    · exact ih htail

/-- A running maximum stays below a common bound. -/
theorem foldl_max_le {l : List ℕ} {a top : ℕ} (ha : a ≤ top) (hl : ∀ b ∈ l, b ≤ top) : l.foldl max a ≤ top := by
  induction l generalizing a with
  | nil => exact ha
  | cons b l ih =>
    exact ih (Nat.max_le.mpr ⟨ha, hl b (List.mem_cons_self ..)⟩) fun c hc => hl c (List.mem_cons_of_mem _ hc)

/-- A running maximum is where it started, or something it has seen. -/
theorem foldl_max_mem (l : List ℕ) (a : ℕ) : l.foldl max a = a ∨ l.foldl max a ∈ l := by
  induction l generalizing a with
  | nil => exact Or.inl rfl
  | cons b l ih =>
    rw [List.foldl_cons, List.mem_cons]
    rcases ih (max a b) with heq | hmem
    · rcases Nat.le_total a b with hle | hle
      · rw [heq, Nat.max_eq_right hle]
        exact Or.inr (Or.inl rfl)
      · rw [heq, Nat.max_eq_left hle]
        exact Or.inl rfl
    · exact Or.inr (Or.inr hmem)

/-- A running maximum that starts below a bound reaches it exactly by seeing it. -/
theorem foldl_max_eq_top {l : List ℕ} {a top : ℕ} (ha : a < top) (hl : ∀ b ∈ l, b ≤ top) :
    l.foldl max a = top ↔ top ∈ l := by
  constructor
  · intro heq
    rcases foldl_max_mem l a with hstart | hmem
    · exact absurd (hstart.symm.trans heq) ha.ne
    · exact heq ▸ hmem
  · exact fun hmem => Nat.le_antisymm (foldl_max_le ha.le hl) (le_foldl_max_of_mem hmem)

/-! ## Order statistics of a map -/

section Map

variable {κ : Type} [Ord κ] [TransOrd κ] [LawfulEqOrd κ] [DecidableEq κ]

/-- The keys whose entry reaches `s`. -/
def holders (m : ExtTreeMap κ ℕ) (s : ℕ) : Finset κ :=
  ((m.toList.filter (s ≤ ·.2)).map Prod.fst).toFinset

theorem mem_holders {m : ExtTreeMap κ ℕ} {s : ℕ} {r : κ} :
    r ∈ holders m s ↔ ∃ v, m[r]? = some v ∧ s ≤ v := by
  simp only [holders, List.mem_toFinset, List.mem_map, List.mem_filter, Prod.exists,
    ExtTreeMap.mem_toList_iff_getElem?_eq_some, decide_eq_true_eq]
  constructor
  · rintro ⟨k, v, ⟨hget, hle⟩, rfl⟩
    exact ⟨v, hget, hle⟩
  · rintro ⟨v, hget, hle⟩
    exact ⟨r, v, ⟨hget, hle⟩, rfl⟩

/-- Counting entries that reach `s` counts the keys that hold it. -/
theorem card_holders (m : ExtTreeMap κ ℕ) (s : ℕ) :
    (holders m s).card = (m.toList.map Prod.snd).countP (s ≤ ·) := by
  have hnodup : ((m.toList.filter (s ≤ ·.2)).map Prod.fst).Nodup := by
    rw [List.Nodup, List.pairwise_map]
    refine (ExtTreeMap.distinct_keys_toList (t := m)).filter _ |>.imp fun hne heq => hne ?_
    rw [heq]
    exact ReflCmp.compare_self
  rw [holders, List.toFinset_card_of_nodup hnodup, List.length_map, ← List.countP_eq_length_filter,
    List.countP_map]
  rfl

/-- The `needed`-th highest entry; 0 as long as there are fewer. -/
def kthHighest (m : ExtTreeMap κ ℕ) (needed : ℕ) : ℕ :=
  if m.size < needed then 0
  else ((m.toList.map Prod.snd).insertionSort (· ≥ ·)).getD (needed - 1) 0

/-- **What the `needed`-th highest entry means**: the largest number that `needed` keys hold. -/
theorem le_kthHighest_iff {m : ExtTreeMap κ ℕ} {needed s : ℕ} (hneeded : 0 < needed) (hs : 0 < s) :
    s ≤ kthHighest m needed ↔ needed ≤ (holders m s).card := by
  have hsize : (m.toList.map Prod.snd).length = m.size := by
    rw [List.length_map, ExtTreeMap.length_toList]
  rw [card_holders, kthHighest]
  generalize m.toList.map Prod.snd = waters at *
  have hperm : (waters.insertionSort (· ≥ ·)).Perm waters := List.perm_insertionSort _ _
  split
  · -- too few entries for `needed` of them to reach anything
    have hcount : waters.countP (s ≤ ·) ≤ waters.length := List.countP_le_length
    omega
  · have hk : needed - 1 < (waters.insertionSort (· ≥ ·)).length := by
      rw [List.length_insertionSort]
      omega
    rw [le_getD_of_descending (List.pairwise_insertionSort _ _) hk, hperm.countP_eq]
    omega

/-- Raising an entry to at least `seq` makes its key a holder of everything up to `seq`. -/
theorem mem_holders_raise {m : ExtTreeMap κ ℕ} {r key : κ} {s seq : ℕ} :
    key ∈ holders (m.insert r (max (m[r]?.getD 0) seq)) s ↔
      key ∈ holders m s ∨ key = r ∧ s ≤ seq := by
  simp only [mem_holders]
  by_cases hkey : key = r
  · subst hkey
    rw [ExtTreeMap.getElem?_insert_self]
    cases hget : m[key]? with
    | none => simp
    | some v => simp
  · have hne : compare r key ≠ .eq := fun heq => hkey (LawfulEqOrd.eq_of_compare heq).symm
    rw [ExtTreeMap.getElem?_insert, if_neg hne]
    simp [hkey]

/-- What `needed` keys hold decides the `needed`-th highest entry. -/
theorem kthHighest_congr {m m' : ExtTreeMap κ ℕ} {needed : ℕ} (hneeded : 0 < needed)
    (h : ∀ s, holders m s = holders m' s) : kthHighest m needed = kthHighest m' needed := by
  refine eq_of_forall_le_iff fun s => ?_
  rcases Nat.eq_zero_or_pos s with rfl | hs
  · simp
  · rw [le_kthHighest_iff hneeded hs, le_kthHighest_iff hneeded hs, h]

/-- The `needed`-th highest entry only grows with the holders. -/
theorem kthHighest_mono {m m' : ExtTreeMap κ ℕ} {needed : ℕ} (hneeded : 0 < needed)
    (h : ∀ s, holders m s ⊆ holders m' s) : kthHighest m needed ≤ kthHighest m' needed := by
  rcases Nat.eq_zero_or_pos (kthHighest m needed) with hzero | hpos
  · rw [hzero]
    exact Nat.zero_le _
  · refine (le_kthHighest_iff hneeded hpos).mpr ?_
    exact Nat.le_trans ((le_kthHighest_iff hneeded hpos).mp (Nat.le_refl _))
      (Finset.card_le_card (h _))

end Map

/-! ## Majorities -/

/-- Two majorities of the same `n` voters share one. -/
theorem majority_inter {κ : Type} [DecidableEq κ] {n : ℕ} {voters a b : Finset κ}
    (hvoters : voters.card ≤ n) (ha : a ⊆ voters) (hb : b ⊆ voters) (hma : n / 2 + 1 ≤ a.card)
    (hmb : n / 2 + 1 ≤ b.card) : ∃ v, v ∈ a ∧ v ∈ b := by
  obtain ⟨v, hv⟩ := Finset.inter_nonempty_of_card_lt_card_add_card ha hb (by omega)
  exact ⟨v, Finset.mem_inter.mp hv⟩

end Ticktape.Lib
