import Ticktape.Journal.Replay
import Ticktape.Journal.Retry

/-!
# Another reader of a live journal

The writer of a journal keeps its files open, and another one opens the same directory behind its back. As long as
the first segment is there it is given every frame, synced or not, and it leaves the directory alone
(`wp_openWith_live`).
-/

namespace Ticktape.Journal

open Ticktape.Lib Ticktape.Core

/-- The files hold the same bytes, synced or not. -/
def SameBytes (s s' : JStore) : Prop :=
  ∀ k, (s'.disk.get k).map FileData.combined = (s.disk.get k).map FileData.combined

theorem SyncedAs.sameBytes {j j' : Journal} {s s' : JStore} (h : SyncedAs j s j' s') : SameBytes s s' := by
  intro k
  cases h with
  | skipped _ hdisk => rw [hdisk]
  | @synced c f _ hget hdisk =>
    rw [hdisk]
    by_cases heq : segName c.file = k
    · subst heq
      rw [Disk.get_put_self, hget]
      simp [FileData.combined, FileData.sync]
    · rw [Disk.get_put_of_ne _ _ heq]

/-- The first segment, the one that starts at seq 1, is still there; or no segment was ever written. -/
def FromGenesis (s : JStore) : Prop := segs s = [] ∨ (s.disk.get (segName 1)).isSome

/-- The numbers of the segments ascend from the first one on. -/
theorem FromGenesis.startOf {s : JStore} {t : List Frame} {pre : List (ℕ × FileData)} {a : ℕ} {f : FileData} {q : Bytes}
    (h : FromGenesis s) (hreads : ReadsAs s t pre a f q) : startOf pre a = 1 := by
  have hlisting := hreads.listing
  rcases h with hnil | hone
  · rw [hnil] at hlisting
    simp at hlisting
  obtain ⟨g, hget⟩ := Option.isSome_iff_exists.mp hone
  have hmem : (1, g) ∈ segs s := mem_filesOf.mpr hget
  have hsorted : (segs s).Pairwise (·.1 < ·.1) := filesOf_sorted
  have hpos := hreads.sealed.startOf_pos hreads.pos
  cases pre with
  | nil =>
    rw [hlisting, List.nil_append, List.mem_singleton] at hmem
    exact (Prod.mk.inj hmem).1.symm
  | cons p pre =>
    rw [hlisting, List.cons_append] at hmem hsorted
    have hle : p.1 ≤ 1 := by
      rcases List.mem_cons.mp hmem with rfl | hmem
      · exact Nat.le_refl 1
      · exact Nat.le_of_lt (List.rel_of_pairwise_cons hsorted hmem)
    exact Nat.le_antisymm hle hpos

/-- What another reader of a live journal finds, and how it leaves the directory. -/
structure Reread (s : JStore) (r : Recovered) (s' : JStore) : Prop where
  frames : r.frames = s.ghost.tape.drop (r.firstSeq - 1)
  first_pos : 1 ≤ r.firstSeq
  first_le : r.firstSeq ≤ s.ghost.tape.length + 1
  genesis : FromGenesis s → r.firstSeq = 1
  store : s' = { s with ghost := { s.ghost with window := .none } }

/-- **Another reader of a live journal** is given every frame from the first segment on, and leaves the directory
alone. -/
theorem wp_openWith_live {μ : Type} {m : μ} {E : JournalError → μ → JStore → Prop} {j : Journal} {s : JStore}
    (config : JournalConfig) (h : JInv s.ghost.tape j s) :
    wp Fate.calm (openWith config) (fun r m' s' => m' = m ∧ Reread s r s') E
      (fun _ => 2 ^ 64 ≤ s.ghost.tape.length + 1) m s := by
  cases hcur : j.current with
  | none =>
    have hholds := h.holds
    unfold Holds at hholds
    rw [hcur] at hholds
    obtain ⟨hsegs, hnil, -⟩ := hholds
    apply wp_mono (wp_openWith_empty calm_no_fault (fun hcut => absurd hcut calm_no_cut) hsegs config)
    · rintro r m' s' ⟨rfl, ⟨now, rfl⟩, rfl⟩
      refine ⟨rfl, ?_, Nat.le_refl 1, Nat.le_add_left .., fun _ => rfl, rfl⟩
      rw [hnil]
      rfl
    · exact fun _ _ _ h => h
    · exact fun _ h => h
  | some c =>
    obtain ⟨pre, f, hreads, -⟩ := h.readsAs hcur
    apply wp_mono (wp_openWith_reads (C := fun _ => 2 ^ 64 ≤ s.ghost.tape.length + 1) calm_no_fault hreads
      (fun hcut => absurd hcut calm_no_cut) (fun hcut => absurd hcut calm_no_cut) h.run id (Or.inl rfl) config)
    · rintro r m' ⟨disk, ghost⟩ ⟨rfl, hopened⟩
      have hfirst := hopened.first
      refine ⟨rfl, hopened.frames, ?_, ?_, fun hgenesis => hfirst.trans (hgenesis.startOf hreads), ?_⟩
      · rw [hfirst]
        exact hreads.sealed.startOf_pos hreads.pos
      · rw [hfirst]
        exact Nat.le_trans hreads.sealed.startOf_le hreads.le
      · have hdisk : disk = s.disk := hopened.same rfl
        have hghost : ghost = { s.ghost with window := .none } := hopened.ghost
        rw [hdisk, hghost]
    · exact fun _ _ _ h => h
    · exact fun _ h => h

/-- Every frame, if the first segment is there and the seqs do not run out. -/
theorem openWith_live {j : Journal} {w : World JStore} (config : JournalConfig) (h : JInv w.st.ghost.tape j w.st)
    (hcalm : w.Calm) (hfirst : FromGenesis w.st) (hbound : w.st.ghost.tape.length + 1 < 2 ^ 64) :
    ∃ r w', (openWith config : Prog Unit JStore JournalError Recovered) () w = .ok r () w' ∧
      r.frames = w.st.ghost.tape ∧ w'.st = { w.st with ghost := { w.st.ghost with window := .none } } := by
  have hspec : wp Fate.calm (openWith config) (fun r (_ : Unit) s' => Reread w.st r s') (fun _ _ _ => False)
      (fun _ => False) () w.st :=
    wp_mono (wp_openWith_live config h) (fun _ _ _ h => h.2) (fun _ _ _ h => h)
      fun _ hover => Nat.not_lt_of_le hover hbound
  obtain ⟨r, _, w', hrun, -, hr⟩ := wp_total hspec hcalm (ends_openWith config)
  refine ⟨r, w', hrun, ?_, hr.store⟩
  rw [hr.frames, hr.genesis hfirst]
  rfl

/-- Streaming returns where collecting does, with the callback called on the collected frames. -/
theorem replayOpen_of_openWith {δ : Type} {w w' : World JStore} {config : JournalConfig} {r : Recovered}
    (onFrame : Frame → δ → δ) (d : δ)
    (h : (openWith config : Prog Unit JStore JournalError Recovered) () w = .ok r () w') :
    ∃ p, replayOpen config onFrame d w =
      .ok p (r.frames.foldl (fun d frame => onFrame frame d) d) w' := by
  have halike := replayOpen_alike config onFrame d () w
  rw [h] at halike
  revert halike
  cases replayOpen config onFrame d w with
  | ok p d' w₁ =>
    rintro ⟨rfl, -, -, rfl⟩
    exact ⟨p, rfl⟩
  | err e d' w₁ => exact False.elim
  | down w₁ => exact False.elim
  | spin => exact False.elim

theorem FromGenesis.sameBytes {s s' : JStore} (h : FromGenesis s) (hsame : SameBytes s s') : FromGenesis s' := by
  have hsome : ∀ k, (s'.disk.get k).isSome = (s.disk.get k).isSome := by
    intro k
    rw [← Option.isSome_map, hsame k, Option.isSome_map]
  rcases h with hnil | hone
  · left
    apply List.eq_nil_iff_forall_not_mem.mpr
    rintro ⟨a, f⟩ hmem
    have hget := hsome (segName a)
    rw [mem_filesOf.mp hmem] at hget
    obtain ⟨g, hg⟩ := Option.isSome_iff_exists.mp hget.symm
    have hin : (a, g) ∈ segs s := mem_filesOf.mpr hg
    rw [hnil] at hin
    cases hin
  · right
    rw [hsome]
    exact hone

end Ticktape.Journal
