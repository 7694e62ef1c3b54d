import Ticktape.Journal.Kill
import Ticktape.Journal.Replay
import Ticktape.Journal.Frames

/-!
# The journal round trip

A journal that meets no fault returns what was appended to it, however the frames were cut into single
appends and batches, and whatever was synced, compacted and reopened in between (`round_trip`). The one
thing that stops it is the arithmetic on sequence numbers: `compact_below` adds one to its cutoff
(`compactBelow_overflows`), and the scan adds one to the last seq.
-/

namespace Ticktape.Journal

open Ticktape.Lib Ticktape.Core

/-! ## Calls that remove nothing -/

/-- The file is there. -/
def Present (k : FileName) (s : JStore) : Prop := ∃ f, s.disk.get k = some f

section Present

variable {k : FileName} {s₀ : JStore}

theorem Present.put {s : JStore} (h : Present k s) (k' : FileName) (f : FileData) :
    Present k (s.withDisk (s.disk.put k' f)) := by
  by_cases heq : k' = k
  · rw [heq]
    exact ⟨f, Disk.get_put_self _ _ _⟩
  · obtain ⟨g, hg⟩ := h
    exact ⟨g, by rw [Store.withDisk_disk, Disk.get_put_of_ne _ _ heq, hg]⟩

/-- Appending removes no file, and compacts nothing. -/
theorem appendStable_present (k : FileName) (n : ℕ) :
    AppendStable fun s => s.ghost.cutoff = n ∧ (Present k s₀ → Present k s) where
  put := fun _ _ _ h => ⟨h.1, fun hk => (h.2 hk).put _ _⟩
  dir := fun _ h => h
  durable := fun _ _ h => h
  window := fun _ _ h => h

end Present

/-! ## The invariant -/

/-- **The invariant of a journal that met no fault**: it holds the frames `written`; the newest segment has a
frame, so the next one has another file name; and unless a compaction removed segments, the first one is
still there. -/
structure Sound (written : List Frame) (cut removed : ℕ) (j : Journal) (s : JStore) : Prop where
  journal : JInv written j s
  tape : s.ghost.tape = written
  filled : ∀ c, j.current = some c → c.file ≤ written.length
  cutoff : s.ghost.cutoff ≤ cut
  whole : removed = 0 → written ≠ [] → Present (segName 1) s

/-- The file that a roll would create is the newest segment. -/
theorem JInv.current_of_file {t : List Frame} {j : Journal} {s : JStore} {f : FileData} (h : JInv t j s)
    (hf : s.disk.get (segName (t.length + 1)) = some f) : ∃ c, j.current = some c ∧ c.file = t.length + 1 := by
  have hmem : (t.length + 1, f) ∈ segs s := mem_filesOf.mpr hf
  have hholds := h.holds
  unfold Holds at hholds
  cases hcur : j.current with
  | none =>
    rw [hcur] at hholds
    simp [hholds.1] at hmem
  | some c =>
    rw [hcur] at hholds
    obtain ⟨pre, a, g, k, hsegs, rfl, hchain, -⟩ := hholds
    have hle := hchain.le
    have hbound := hchain.bound
    have hsorted : (segs s).Pairwise (·.1 < ·.1) := filesOf_sorted
    rw [hsegs] at hmem hsorted
    refine ⟨c, rfl, ?_⟩
    rcases List.mem_append.mp hmem with hmem | hmem
    · -- a sealed segment starts below the newest one
      have hlt : t.length + 1 < c.file := (List.pairwise_append.mp hsorted).2.2 _ hmem (c.file, g) (by simp)
      omega
    · simp only [List.mem_singleton, Prod.mk.injEq] at hmem
      exact hmem.1.symm

section Sound

variable {written frames : List Frame} {cut removed : ℕ} {j : Journal} {s : JStore}

/-- The file of the next segment does not exist. -/
theorem Sound.fresh {j' : Journal} {s' : JStore} (h : Sound written cut removed j s)
    (hinv : JInv written j' s') (hcur : j'.current = j.current) :
    s'.disk.get (segName (written.length + 1)) = none := by
  refine Option.eq_none_iff_forall_not_mem.mpr fun f hf => ?_
  obtain ⟨c, hc, hfile⟩ := hinv.current_of_file hf
  have := h.filled c (hcur.symm.trans hc)
  omega

/-- The journal behind an append. -/
theorem Sound.grown {j' : Journal} {s' : JStore} (h : Sound written cut removed j s)
    (hinv : JInv s'.ghost.tape j' s') (htape : s'.ghost.tape = s.ghost.tape ++ frames) (hne : frames ≠ [])
    (hfile : ∀ c, j'.current = some c → c.file ≤ s.ghost.tape.length + 1)
    (hcutoff : s'.ghost.cutoff = s.ghost.cutoff) (hpresent : Present (segName 1) s → Present (segName 1) s') :
    Sound (written ++ frames) cut removed j' s' := by
  rw [htape, h.tape] at hinv
  rw [h.tape] at hfile htape
  have hlen := List.length_pos_iff.mpr hne
  refine ⟨hinv, htape, fun c hc => ?_, hcutoff ▸ h.cutoff, fun hremoved _ => ?_⟩
  · have := hfile c hc
    rw [List.length_append]
    omega
  · by_cases hnil : written = []
    · -- the first segment was just started
      have hholds := hinv.holds
      unfold Holds at hholds
      cases hc : j'.current with
      | none =>
        rw [hc] at hholds
        exact absurd hholds.2.1 (by simp [hne])
      | some c =>
        rw [hc] at hholds
        obtain ⟨pre, a, f, k, hsegs, rfl, hchain, -⟩ := hholds
        have hle := hfile c hc
        have hpos := hchain.pos
        rw [hnil, List.length_nil] at hle
        have hone : c.file = 1 := by omega
        refine ⟨f, mem_filesOf.mp ?_⟩
        rw [show filesOf .seg s'.disk = _ from hsegs, hone]
        simp
    · exact hpresent (h.whole hremoved hnil)

/-- An append that failed was out of order, and nothing happened. -/
theorem Sound.refused {e : JournalError} {j' : Journal} {s' : JStore} (h : Sound written cut removed j s)
    (hinv : JInv s.ghost.tape j' s') (hrefused : Refused s.ghost.tape.length frames j s e j' s') :
    ¬SeqRun (written.length + 1) frames ∧ (∃ expected found, e = .outOfOrderAppend expected found) ∧
      j' = j ∧ s' = s := by
  rw [h.tape] at hinv hrefused
  refine hrefused.resolve_right ?_
  rintro ⟨-, hcur, f, hf⟩
  rw [h.fresh hinv hcur] at hf
  cases hf

end Sound

/-! ## Operations without faults -/

section Operations

variable {written : List Frame} {cut removed : ℕ} {j : Journal} {s : JStore} {C : JStore → Prop}

/-- Frames that were appended are consecutive. -/
theorem seqRun_of_appended {frames : List Frame} {j' : Journal} {s' : JStore}
    (hinv : JInv s'.ghost.tape j' s') (htape : s'.ghost.tape = written ++ frames) :
    SeqRun (written.length + 1) frames := by
  have hrun := hinv.run
  rw [htape, SeqRun.append, Nat.add_comm] at hrun
  exact hrun.2

theorem wp_append_sound (h : Sound written cut removed j s) (frame : Frame)
    (hover : 2 ^ 64 ≤ written.length + 1 → C s) :
    wp Fate.calm (append frame)
      (fun _ j' s' => SeqRun (written.length + 1) [frame] ∧ Sound (written ++ [frame]) cut removed j' s')
      (fun e j' s' => ¬SeqRun (written.length + 1) [frame] ∧
        (∃ expected found, e = .outOfOrderAppend expected found) ∧ j' = j ∧ s' = s) C j s := by
  have hinv : JInv s.ghost.tape j s := h.tape ▸ h.journal
  refine wp_mono (wp_and (wp_append calm_no_fault hinv frame (fun hc => absurd hc calm_no_cut) ?_)
    ((appendStable_present (segName 1) s.ghost.cutoff).append (fun _ h => h) j s ⟨rfl, id⟩)) ?_ ?_ (fun _ h => h.1)
  · rw [h.tape]
    exact hover
  · rintro - j' s' ⟨⟨hinv', htape, hfile⟩, hcutoff, hpresent⟩
    have hgrown := h.grown hinv' htape (by simp) hfile hcutoff hpresent
    rw [h.tape] at htape
    exact ⟨seqRun_of_appended hinv' htape, hgrown⟩
  · rintro e j' s' ⟨⟨hinv', -, hrefused⟩, -⟩
    exact h.refused hinv' hrefused

theorem wp_appendBatch_sound (h : Sound written cut removed j s) (frames : List Frame)
    (hover : 2 ^ 64 ≤ written.length + frames.length + 1 → C s) :
    wp Fate.calm (appendBatch frames)
      (fun _ j' s' => SeqRun (written.length + 1) frames ∧ Sound (written ++ frames) cut removed j' s')
      (fun e j' s' => ¬SeqRun (written.length + 1) frames ∧
        (∃ expected found, e = .outOfOrderAppend expected found) ∧ j' = j ∧ s' = s) C j s := by
  have hinv : JInv s.ghost.tape j s := h.tape ▸ h.journal
  have hkeep := ((appendStable_present (segName 1) s.ghost.cutoff).appendBatch fun _ h => h :
    Keeps Fate.calm _ (appendBatch frames)) j s ⟨rfl, id⟩
  refine wp_mono (wp_and (wp_appendBatch calm_no_fault hinv frames (fun hc => absurd hc calm_no_cut) ?_)
    hkeep) ?_ ?_ (fun _ h => h.1)
  · rw [h.tape]
    exact hover
  · rintro - j' s' ⟨⟨hinv', htape, hnone, hfile⟩, hcutoff, hpresent⟩
    have htape' := htape
    rw [h.tape] at htape'
    refine ⟨seqRun_of_appended hinv' htape', ?_⟩
    by_cases hne : frames = []
    · -- nothing was appended
      rw [hne, List.append_nil] at htape' ⊢
      rw [htape'] at hinv'
      exact ⟨hinv', htape', by rw [hnone hne]; exact h.filled, hcutoff ▸ h.cutoff,
        fun hr hw => hpresent (h.whole hr hw)⟩
    · exact h.grown hinv' htape hne (hfile hne) hcutoff hpresent
  · rintro e j' s' ⟨⟨hinv', -, hrefused⟩, -⟩
    exact h.refused hinv' hrefused

theorem wp_sync_sound (h : Sound written cut removed j s) :
    wp Fate.calm sync (fun _ j' s' => Sound written cut removed j' s' ∧
        ∀ c, j'.current = some c → j'.dirty = false) (fun _ _ _ => False) C j s := by
  refine wp_mono (wp_and (wp_sync (E := fun _ _ _ => False) (C := C) (fun hc => absurd hc calm_no_cut)
    (fun k hk => absurd hk (calm_no_fault k)) h.journal)
    ((appendStable_present (segName 1) s.ghost.cutoff).sync j s ⟨rfl, id⟩)) ?_ (fun _ _ _ h => h.1) (fun _ h => h.1)
  rintro - j' s' ⟨⟨hinv, hclean, hghost, hcur⟩, hcutoff, hpresent⟩
  refine ⟨⟨hinv, ?_, ?_, hcutoff ▸ h.cutoff, fun hr hw => hpresent (h.whole hr hw)⟩, hclean⟩
  · rw [hghost]
    exact h.tape
  · rw [hcur]
    exact h.filled

theorem wp_compactBelow_sound (h : Sound written cut removed j s) (cutoff : ℕ)
    (hover : 2 ^ 64 ≤ cutoff + 1 → 1 < (segs s).length →
      C { s with ghost := { s.ghost with cutoff := max s.ghost.cutoff cutoff } }) :
    wp Fate.calm (compactBelow cutoff)
      (fun n j' s' => Sound written (max cut cutoff) (removed + n) j' s') (fun _ _ _ => False) C j s := by
  refine wp_mono (wp_compactBelow (E := fun _ _ _ => False) calm_no_fault h.journal cutoff
    (fun hc => absurd hc calm_no_cut) hover) ?_ (fun _ _ _ h => h) (fun _ h => h)
  rintro n j' s' ⟨hinv, hghost, rfl, hsame⟩
  refine ⟨hinv, ?_, h.filled, ?_, fun hr hw => ?_⟩
  · rw [hghost]
    exact h.tape
  · rw [hghost]
    exact Nat.max_le.mpr ⟨Nat.le_trans h.cutoff (Nat.le_max_left ..), Nat.le_max_right ..⟩
  · obtain ⟨f, hf⟩ := h.whole (by omega) hw
    have hmem : (1, f) ∈ segs s := mem_filesOf.mpr hf
    rw [← hsame (by omega)] at hmem
    exact ⟨f, mem_filesOf.mp hmem⟩

theorem startOf_le_of_mem {pre : List (ℕ × FileData)} {a n : ℕ} {f g : FileData}
    (h : segs s = pre ++ [(a, f)]) (hmem : (n, g) ∈ segs s) : startOf pre a ≤ n := by
  have hsorted : (segs s).Pairwise (·.1 < ·.1) := filesOf_sorted
  rw [h] at hmem hsorted
  cases pre with
  | nil => exact (Prod.mk.inj (List.mem_singleton.mp hmem)).1.ge
  | cons p pre =>
    rw [List.cons_append, List.pairwise_cons] at hsorted
    rcases List.mem_cons.mp hmem with heq | hmem
    · exact (congrArg Prod.fst heq).ge
    · exact Nat.le_of_lt (hsorted.1 _ hmem)

/-- A journal whose bytes are all synced, opened again. -/
theorem JInv.reopened {t : List Frame} {c : OpenSegment} {config : JournalConfig} {pre : List (ℕ × FileData)}
    {f : FileData} {r : Recovered} {s' : JStore} (h : JInv t j s) (hcur : j.current = some c)
    (hclean : j.dirty = false) (hr : ReopenedAs config s t pre c.file f [] r s') : JInv t r.journal s' := by
  have hholds := h.holds
  unfold Holds at hholds
  rw [hcur] at hholds
  obtain ⟨pre', a, f', k, hsegs, rfl, hchain, hu, hd, hfloor, hk⟩ := hholds
  obtain ⟨size, frames, hcur'⟩ := hr.current
  have hsegs' : segs s' = segs s := by rw [segs, hr.same rfl]
  refine ⟨?_, ?_, hr.last, ?_⟩
  · rw [hr.ghost]
    exact h.run
  · rw [hr.ghost]
    exact h.part
  · unfold Holds
    rw [hcur', hr.ghost]
    exact ⟨pre', c.file, f', k, hsegs'.trans hsegs, rfl, hchain, hu, hd, hfloor, fun _ => hk hclean⟩

/-- **What opening returns** of a journal that holds `written`. -/
structure Returns (written : List Frame) (cut removed : ℕ) (r : Recovered) : Prop where
  frames : r.frames = written.drop (r.firstSeq - 1)
  last : r.journal.lastSeq = written.length
  first_pos : 1 ≤ r.firstSeq
  first_le : r.firstSeq ≤ cut + 1
  first_one : removed = 0 → r.firstSeq = 1
  intact : r.truncatedTornTail = false

/-- **Opening** what met no fault. A journal that was synced before is as good as new. -/
theorem wp_openWith_sound {μ : Type} {m : μ} (h : Sound written cut removed j s)
    (hover : 2 ^ 64 ≤ written.length + 1 → C s) (config : JournalConfig) :
    wp Fate.calm (openWith config) (fun r m' s' => m' = m ∧ Returns written cut removed r ∧
        ((∀ c, j.current = some c → j.dirty = false) → Sound written cut removed r.journal s'))
      (fun _ _ _ => False) C m s := by
  have hrun : SeqRun 1 written := h.tape ▸ h.journal.run
  cases hcur : j.current with
  | none =>
    have hholds := h.journal.holds
    unfold Holds at hholds
    rw [hcur] at hholds
    obtain ⟨hnil, rfl, hdurable⟩ := hholds
    refine wp_mono (wp_openWith_empty (E := fun _ _ _ => False) calm_no_fault (fun hc => absurd hc calm_no_cut)
      hnil config) ?_ (fun _ _ _ h => h) (fun _ h => h)
    rintro r m' s' ⟨rfl, ⟨now, rfl⟩, rfl⟩
    refine ⟨rfl, ⟨rfl, rfl, Nat.le_refl 1, Nat.le_add_left 1 _, fun _ => rfl, rfl⟩, fun _ => ?_⟩
    refine ⟨⟨h.journal.run, h.journal.part, rfl, hnil, rfl, hdurable⟩, h.tape, ?_, h.cutoff, fun _ hne =>
      absurd rfl hne⟩
    intro c hc
    cases hc
  | some c =>
    obtain ⟨pre, f, hreads, hfloor⟩ := h.journal.readsAs hcur
    have hfilled := h.filled c hcur
    have hpos := hreads.pos
    refine wp_mono (wp_openWith_reads (E := fun _ _ _ => False) (C := C) calm_no_fault hreads
      (fun hc => absurd hc calm_no_cut) (fun hc => absurd hc calm_no_cut) hrun hover (Or.inl rfl) config) ?_
      (fun _ _ _ h => h) (fun _ h => h)
    rintro r m' s' ⟨rfl, hr⟩
    have hcut := h.cutoff
    refine ⟨rfl, ⟨hr.frames, hr.last, ?_, ?_, fun hremoved => ?_, hr.torn⟩, fun hclean => ?_⟩
    · rw [hr.first]
      exact hreads.sealed.startOf_pos hpos
    · rw [hr.first]
      omega
    · -- the first segment is still the one that starts at 1
      obtain ⟨g, hg⟩ := h.whole hremoved (List.ne_nil_of_length_pos (by omega))
      have hle := startOf_le_of_mem hreads.listing (mem_filesOf.mpr hg)
      have hge := hreads.sealed.startOf_pos hpos
      rw [hr.first]
      omega
    · have hsame := hr.same rfl
      refine ⟨h.journal.reopened hcur (hclean c rfl) hr, ?_, ?_, ?_, fun hremoved hne => ?_⟩
      · rw [hr.ghost]
        exact h.tape
      · obtain ⟨size, frames, hcur'⟩ := hr.current
        intro c' hc'
        rw [hcur'] at hc'
        rw [← Option.some.inj hc']
        exact hfilled
      · rw [hr.ghost]
        exact hcut
      · obtain ⟨g, hg⟩ := h.whole hremoved hne
        exact ⟨g, hsame ▸ hg⟩

end Operations

/-! ## Runs -/

/-- The journals that appends, batches, syncs, compactions and reopenings lead to when no call fails: with all
frames `written`, the largest cutoff `cut`, and the number of segments `removed`. -/
inductive Faultless : List Frame → ℕ → ℕ → Journal → JStore → Prop where
  | created {w' : World JStore} {r : Recovered} (config : JournalConfig) :
      openWith config () (.healthy ⟨Disk.empty, History.fresh⟩) = .ok r () w' →
      Faultless [] 0 0 r.journal w'.st
  | appended {written : List Frame} {cut removed : ℕ} {j j' : Journal} {w w' : World JStore} (frame : Frame) :
      Faultless written cut removed j w.st → w.Calm → append frame j w = .ok () j' w' →
      Faultless (written ++ [frame]) cut removed j' w'.st
  | batched {written : List Frame} {cut removed : ℕ} {j j' : Journal} {w w' : World JStore}
      (frames : List Frame) : Faultless written cut removed j w.st → w.Calm →
      appendBatch frames j w = .ok () j' w' → Faultless (written ++ frames) cut removed j' w'.st
  /-- An append or a batch is refused. -/
  | refused {written : List Frame} {cut removed : ℕ} {j j' : Journal} {w w' : World JStore}
      {e : JournalError} (frames : List Frame) : Faultless written cut removed j w.st → w.Calm →
      (appendBatch frames j w = .err e j' w' ∨ ∃ frame, append frame j w = .err e j' w') →
      Faultless written cut removed j' w'.st
  | synced {written : List Frame} {cut removed : ℕ} {j j' : Journal} {w w' : World JStore} :
      Faultless written cut removed j w.st → w.Calm → sync j w = .ok () j' w' →
      Faultless written cut removed j' w'.st
  | compacted {written : List Frame} {cut removed n : ℕ} {j j' : Journal} {w w' : World JStore}
      (cutoff : ℕ) : Faultless written cut removed j w.st → w.Calm →
      compactBelow cutoff j w = .ok n j' w' → Faultless written (max cut cutoff) (removed + n) j' w'.st
  /-- The journal is dropped, which syncs it, and opened again. -/
  | reopened {written : List Frame} {cut removed : ℕ} {j j' : Journal} {w w₁ w₂ : World JStore}
      {r : Recovered} (config : JournalConfig) : Faultless written cut removed j w.st → w.Calm →
      sync j w = .ok () j' w₁ → w₁.Calm → openWith config () w₁ = .ok r () w₂ →
      Faultless written cut removed r.journal w₂.st

/-- **The round trip**: what every call returns on a journal that holds `written`. -/
structure RoundTrips (written : List Frame) (cut removed : ℕ) (j : Journal) (w : World JStore) : Prop where
  append : ∀ frame, frame.seq = written.length + 1 → ∃ j' w', append frame j w = .ok () j' w'
  append_refused : ∀ frame, frame.seq ≠ written.length + 1 → ∃ expected found w',
    Journal.append frame j w = .err (.outOfOrderAppend expected found) j w' ∧ w'.st = w.st
  appendBatch : ∀ frames, written.length + frames.length + 1 < 2 ^ 64 →
    SeqRun (written.length + 1) frames → ∃ j' w', appendBatch frames j w = .ok () j' w'
  appendBatch_refused : ∀ frames, written.length + frames.length + 1 < 2 ^ 64 →
    ¬SeqRun (written.length + 1) frames → ∃ expected found w',
      Journal.appendBatch frames j w = .err (.outOfOrderAppend expected found) j w' ∧ w'.st = w.st
  sync : ∃ j' w', sync j w = .ok () j' w'
  compactBelow : ∀ cutoff, cutoff + 1 < 2 ^ 64 ∨ (segs w.st).length ≤ 1 →
    ∃ n j' w', compactBelow cutoff j w = .ok n j' w'
  /-- Opening and replaying meet the same frames. -/
  reopen : ∀ config, ∃ r w', openWith config () w = .ok r () w' ∧ Returns written cut removed r ∧
    ∀ (δ : Type) (onFrame : Frame → δ → δ) (d : δ), ∃ d',
      replayOpen config onFrame d w =
        .ok (r.journal, ⟨r.firstSeq, r.journal.lastSeq, r.truncatedTornTail⟩) d' w' ∧
      d' = r.frames.foldl (fun d frame => onFrame frame d) d

section Runs

variable {written : List Frame} {cut removed : ℕ} {j : Journal} {s : JStore}

theorem seqRun_singleton {n : ℕ} {frame : Frame} : SeqRun n [frame] ↔ frame.seq = n := by
  simp [SeqRun]

/-- **Run lemma.** -/
theorem sound_of_faultless (h : Faultless written cut removed j s) : Sound written cut removed j s := by
  induction h with
  | @created w' r config hrun =>
    have hnew : wp Fate.calm (openWith config) (fun r _ s' => Sound [] 0 0 r.journal s') (fun _ _ _ => False)
        (fun _ => False) () (World.healthy (⟨Disk.empty, History.fresh⟩ : JStore)).st := by
      have hnil : segs ⟨Disk.empty, History.fresh⟩ = [] := filesOf_eq .nil (by simp)
      refine wp_mono (wp_openWith_empty (E := fun _ _ _ => False) calm_no_fault (fun hc => absurd hc calm_no_cut)
        hnil config) ?_ (fun _ _ _ h => h) (fun _ h => h)
      rintro r - s' ⟨-, ⟨now, rfl⟩, rfl⟩
      refine ⟨⟨trivial, ⟨0, rfl⟩, rfl, hnil, rfl, rfl⟩, rfl, ?_, Nat.le_refl 0, fun _ hne => absurd rfl hne⟩
      intro c hc
      cases hc
    have h := wp_ok hnew (fun f hf => by cases hf) hrun
    exact h
  | appended frame _ hcalm hrun ih =>
    exact (wp_ok (wp_append_sound (C := fun _ => True) ih frame fun _ => trivial) hcalm hrun).2
  | batched frames _ hcalm hrun ih =>
    exact (wp_ok (wp_appendBatch_sound (C := fun _ => True) ih frames fun _ => trivial) hcalm hrun).2
  | refused frames _ hcalm hrun ih =>
    rcases hrun with hrun | ⟨frame, hrun⟩
    · obtain ⟨-, -, rfl, heq⟩ :=
        wp_err (wp_appendBatch_sound (C := fun _ => True) ih frames fun _ => trivial) hcalm hrun
      rw [heq]
      exact ih
    · obtain ⟨-, -, rfl, heq⟩ :=
        wp_err (wp_append_sound (C := fun _ => True) ih frame fun _ => trivial) hcalm hrun
      rw [heq]
      exact ih
  | synced _ hcalm hrun ih => exact (wp_ok (wp_sync_sound (C := fun _ => True) ih) hcalm hrun).1
  | compacted cutoff _ hcalm hrun ih =>
    have h := wp_ok (wp_compactBelow_sound (C := fun _ => True) ih cutoff fun _ _ => trivial) hcalm hrun
    exact h
  | reopened config _ hcalm hsync hcalm' hrun ih =>
    obtain ⟨hsound, hclean⟩ := wp_ok (wp_sync_sound (C := fun _ => True) ih) hcalm hsync
    exact (wp_ok (wp_openWith_sound (C := fun _ => True) hsound (fun _ => trivial) config) hcalm' hrun).2.2 hclean

/-- **Journal round trip, whatever the batching**: after every run without faults, as long as sequence numbers and
cutoffs stay below the largest `u64`, every call succeeds or refuses as it should, and opening or replaying
the journal gives back exactly the frames that were appended, from the first one that compaction left. -/
theorem round_trip (h : Faultless written cut removed j s) (hlen : written.length + 1 < 2 ^ 64)
    {w : World JStore} (hw : w.st = s) (hcalm : w.Calm) : RoundTrips written cut removed j w := by
  have hsound : Sound written cut removed j w.st := hw ▸ sound_of_faultless h
  have happend := fun frame => wp_outcome (wp_append_sound hsound frame fun hover => absurd hover (by omega)) hcalm
    (ends_append frame)
  have hbatch : ∀ frames : List Frame, written.length + frames.length + 1 < 2 ^ 64 → _ := fun frames hfits =>
    wp_outcome (wp_appendBatch_sound hsound frames fun hover => absurd hover (by omega)) hcalm
      (ends_appendBatch frames)
  refine ⟨fun frame hseq => ?_, fun frame hseq => ?_, fun frames hfits hseq => ?_, fun frames hfits hseq => ?_,
    ?_, fun cutoff hcut => ?_, fun config => ?_⟩
  · rw [← seqRun_singleton] at hseq
    rcases happend frame with ⟨_, j', w', hrun, -⟩ | ⟨e, j', w', -, hbad, -⟩
    · exact ⟨j', w', hrun⟩
    · exact absurd hseq hbad
  · rw [ne_eq, ← seqRun_singleton] at hseq
    rcases happend frame with ⟨_, j', w', -, hgood, -⟩ | ⟨e, j', w', hrun, -, ⟨expected, found, rfl⟩, rfl, hsame⟩
    · exact absurd hgood hseq
    · exact ⟨expected, found, w', hrun, hsame⟩
  · rcases hbatch frames hfits with ⟨_, j', w', hrun, -⟩ | ⟨e, j', w', -, hbad, -⟩
    · exact ⟨j', w', hrun⟩
    · exact absurd hseq hbad
  · rcases hbatch frames hfits with ⟨_, j', w', -, hgood, -⟩ |
      ⟨e, j', w', hrun, -, ⟨expected, found, rfl⟩, rfl, hsame⟩
    · exact absurd hgood hseq
    · exact ⟨expected, found, w', hrun, hsame⟩
  · obtain ⟨_, j', w', hrun, -⟩ := wp_total (wp_mono (wp_sync_sound (C := fun _ => False) hsound)
      (fun _ _ _ h => h) (fun _ _ _ h => h) (fun _ h => h)) hcalm ends_sync
    exact ⟨j', w', hrun⟩
  · obtain ⟨n, j', w', hrun, -⟩ := wp_total (wp_compactBelow_sound (C := fun _ => False) hsound cutoff
      fun hover hmany => by omega) hcalm (ends_compactBelow cutoff)
    exact ⟨n, j', w', hrun⟩
  · obtain ⟨r, _, w', hrun, -, -, hreturns, -⟩ := wp_total (m := ()) (wp_openWith_sound (C := fun _ => False) hsound
      (fun hover => by omega) config) hcalm (ends_openWith config)
    refine ⟨r, w', hrun, hreturns, fun δ onFrame d => ?_⟩
    obtain ⟨p, d', hreplay, hjournal, hmeta, hstate⟩ := (replayOpen_alike config onFrame d ()).ok hrun
    refine ⟨d', ?_, hstate⟩
    rw [hreplay, show p = (r.journal, _) from Prod.ext hjournal hmeta]

end Runs

/-- Two frames in two segments. -/
def twoSegments : Option (Journal × World JStore) := do
  let opening : Prog Unit JStore JournalError Recovered := openWith ⟨0, .everyFrame⟩
  let (r, _, w) ← (opening () (.healthy ⟨Disk.empty, History.fresh⟩)).returned
  let (_, j, w₁) ← (append ⟨1, 0, 1, .tick, [], one_lt_seqs, nil_payload_le⟩ r.journal (.healthy w.st)).returned
  let (_, j', w₂) ← (append ⟨2, 0, 1, .tick, [], two_lt_seqs, nil_payload_le⟩ j (.healthy w₁.st)).returned
  pure (j', .healthy w₂.st)

theorem faultless_twoSegments {j : Journal} {w : World JStore} (h : twoSegments = some (j, w)) :
    w.Calm ∧ ∃ written : List Frame, written.length = 2 ∧ Faultless written 0 0 j w.st := by
  simp only [twoSegments, bind, Option.bind_eq_some_iff] at h
  obtain ⟨⟨r, _, w₀⟩, hopen, ⟨_, j₁, w₁⟩, hfirst, ⟨_, j₂, w₂⟩, hsecond, heq⟩ := h
  cases heq
  rw [Outcome.returned_eq_some] at hopen hfirst hsecond
  have hcalm : ∀ s : JStore, (World.healthy s).Calm := fun s f hf => by cases hf
  have h₀ := Faultless.created _ hopen
  have h₁ := Faultless.appended (w := .healthy _) _ h₀ (hcalm _) hfirst
  have h₂ := Faultless.appended (w := .healthy _) _ h₁ (hcalm _) hsecond
  exact ⟨hcalm _, _, rfl, h₂⟩

theorem round_trip_of_two_segments : ∃ (written : List Frame) (cut removed : ℕ) (j : Journal) (w : World JStore),
    written.length = 2 ∧ RoundTrips written cut removed j w := by
  have hrun : twoSegments.isSome = true := by decide +kernel
  obtain ⟨⟨j, w⟩, hrun⟩ := Option.isSome_iff_exists.mp hrun
  obtain ⟨hcalm, written, hlen, hfaultless⟩ := faultless_twoSegments hrun
  exact ⟨written, 0, 0, j, w, hlen, round_trip hfaultless (by omega) rfl hcalm⟩

/-- **A cutoff that overflows**: compacting below the largest `u64` does not return. -/
theorem compactBelow_overflows : ∃ (written : List Frame) (j : Journal) (w : World JStore),
    Faultless written 0 0 j w.st ∧ w.Calm ∧
    ¬∃ n j' w', compactBelow (2 ^ 64 - 1) j w = .ok n j' w' := by
  have hrun : twoSegments.any (fun p => (compactBelow (2 ^ 64 - 1) p.1 p.2).returned.isNone) = true := by
    decide +kernel
  obtain ⟨⟨j, w⟩, hrun, hnone⟩ := (Option.any_eq_true _ _).mp hrun
  obtain ⟨hcalm, written, -, hfaultless⟩ := faultless_twoSegments hrun
  refine ⟨written, j, w, hfaultless, hcalm, ?_⟩
  rintro ⟨n, j', w', hcompact⟩
  rw [hcompact] at hnone
  cases hnone

end Ticktape.Journal
