import Std.Data.ExtTreeMap.Lemmas
import Std.Data.ExtTreeSet.Lemmas
import Mathlib.Data.List.Nodup

/-!
# Maps built by folding

A map that entries are put into or taken out of one after the other, when no key comes twice.
-/

namespace Ticktape.Lib

open Std

variable {κ υ : Type} [Ord κ] [TransOrd κ]

/-- The keys of a map, once each. -/
theorem nodup_toList (m : ExtTreeMap κ υ) : (m.toList.map Prod.fst).Nodup := by
  rw [ExtTreeMap.map_fst_toList_eq_keys]
  exact ExtTreeMap.nodup_keys

/-- Putting the entries of a list in, in order. -/
def insertAll (m : ExtTreeMap κ υ) (entries : List (κ × υ)) : ExtTreeMap κ υ :=
  entries.foldl (fun m e => m.insert e.1 e.2) m

/-- Taking the keys of a list out, in order. -/
def eraseAll (m : ExtTreeMap κ υ) (keys : List κ) : ExtTreeMap κ υ := keys.foldl (fun m k => m.erase k) m

variable [LawfulEqOrd κ]

/-- The members of a set, once each. -/
theorem nodup_setToList (s : ExtTreeSet κ) : s.toList.Nodup := by
  have hdistinct : s.toList.Pairwise fun a b => ¬compare a b = .eq := ExtTreeSet.distinct_toList
  exact hdistinct.imp fun hne heq => hne (LawfulEqCmp.compare_eq_iff_eq.mpr heq)

theorem getElem?_eraseAll [DecidableEq κ] (m : ExtTreeMap κ υ) (keys : List κ) (k : κ) :
    (eraseAll m keys)[k]? = if k ∈ keys then none else m[k]? := by
  induction keys generalizing m with
  | nil => simp [eraseAll]
  | cons i keys ih =>
    show (eraseAll (m.erase i) keys)[k]? = _
    rw [ih, ExtTreeMap.getElem?_erase]
    by_cases hi : i = k
    · subst hi
      simp
    · have hne : compare i k ≠ .eq := fun heq => hi (LawfulEqOrd.eq_of_compare heq)
      by_cases hmem : k ∈ keys
      · simp [hmem]
      · simp [hmem, hne, Ne.symm hi]

/-- **What was put in** is there, and what was there before where nothing was put. -/
theorem getElem?_insertAll (m : ExtTreeMap κ υ) {entries : List (κ × υ)} (hdistinct : (entries.map Prod.fst).Nodup)
    {k : κ} {v : υ} :
    (insertAll m entries)[k]? = some v ↔ (k, v) ∈ entries ∨ k ∉ entries.map Prod.fst ∧ m[k]? = some v := by
  induction entries generalizing m with
  | nil => simp [insertAll]
  | cons e entries ih =>
    obtain ⟨hnot, hnodup⟩ := List.nodup_cons.mp hdistinct
    show (insertAll (m.insert e.1 e.2) entries)[k]? = some v ↔ _
    have hcompare : compare e.1 k = .eq ↔ e.1 = k := LawfulEqCmp.compare_eq_iff_eq
    rw [ih _ hnodup, ExtTreeMap.getElem?_insert, List.mem_cons, List.map_cons, List.mem_cons, not_or]
    by_cases hk : e.1 = k
    · subst hk
      have habsent : (e.1, v) ∉ entries := fun hmem => hnot (List.mem_map.mpr ⟨_, hmem, rfl⟩)
      have hself : (e.1, v) = e ↔ e.2 = v := ⟨fun h => congrArg Prod.snd h.symm, fun h => by rw [← h]⟩
      rw [if_pos (hcompare.mpr rfl)]
      simp [habsent, hnot, hself]
    · rw [if_neg fun heq => hk (hcompare.mp heq)]
      have hne : (k, v) ≠ e := fun heq => hk (congrArg Prod.fst heq).symm
      simp [hne, Ne.symm hk]

/-- **A map is its entries.** -/
theorem insertAll_toList (m : ExtTreeMap κ υ) : insertAll ∅ m.toList = m := by
  apply ExtTreeMap.ext_getElem?
  intro k
  apply Option.ext
  intro v
  rw [getElem?_insertAll ∅ (nodup_toList m), ExtTreeMap.mem_toList_iff_getElem?_eq_some]
  simp

end Ticktape.Lib
