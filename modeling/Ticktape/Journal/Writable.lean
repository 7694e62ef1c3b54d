import Ticktape.Journal.RoundTrip

/-!
# Writing to a journal that opened

A journal that opens after a power loss should take frames from its tail on. It does, unless the loss struck
right behind the creation of a segment: the newest segment then has a header and no frame, opening counts the
frames of the older ones for it, and a first write that does not fit into `segment_bytes` behind the header
rolls to the seq the newest segment already has. The file exists, and no write ever succeeds again.
-/

namespace Ticktape.Journal

open Ticktape.Lib Ticktape.Core

/-! ## Histories -/

/-- What is done with an open journal. -/
inductive Deed where
  | call (op : Op)
  /-- Resume behind `skipped`: frames whose effect a snapshot holds, and which the journal lost. -/
  | reseat (skipped : List Frame)

/-- A reseat is asked for when the snapshot is newer than the journal. -/
def Deed.Fits (j : Journal) : Deed → Prop
  | .call _ => True
  | .reseat skipped => skipped ≠ [] ∧ SeqRun (j.lastSeq + 1) skipped

/-- Run a deed. The skipped frames are history again. -/
def Deed.run : Deed → JProg Unit
  | .call op => op.run
  | .reseat skipped => do
    let j ← Prog.mem
    record fun h => { h with tape := h.tape ++ skipped }
    let next ← nextSeq (j.lastSeq + skipped.length)
    reseatTo next

/-- The states a journal can get into: open (`some j`) or lost (`none`), on a store. -/
inductive Life : Option Journal → JStore → Prop where
  | start : Life none ⟨Disk.empty, History.fresh⟩
  | opened {w w' : World JStore} {r : Recovered} (config : JournalConfig) :
      Life none w.st → w.Benign → openWith config () w = .ok r () w' →
      Life (some r.journal) (resume w'.st r.journal.lastSeq)
  | refused {w w' : World JStore} {e : JournalError} (config : JournalConfig) :
      Life none w.st → w.Benign → openWith config () w = .err e () w' → Life none w'.st
  /-- Power is lost while opening. -/
  | openingLost {w w' : World JStore} {s : JStore} (config : JournalConfig) :
      Life none w.st → w.Benign → openWith config () w = .down w' → w'.st.PowerLoss s →
      Life none s
  | done {w w' : World JStore} {j j' : Journal} (deed : Deed) :
      Life (some j) w.st → deed.Fits j → w.Benign → deed.run j w = .ok () j' w' → Life (some j') w'.st
  | failed {w w' : World JStore} {j j' : Journal} {e : JournalError} (deed : Deed) :
      Life (some j) w.st → deed.Fits j → w.Benign → deed.run j w = .err e j' w' →
      Life (some j') w'.st
  /-- Power is lost during a deed. -/
  | lostDuring {w w' : World JStore} {j : Journal} {s : JStore} (deed : Deed) :
      Life (some j) w.st → deed.Fits j → w.Benign → deed.run j w = .down w' → w'.st.PowerLoss s →
      Life none s
  | lost {s s' : JStore} {j : Journal} : Life (some j) s → s.PowerLoss s' → Life none s'

section History

variable {j : Journal} {s : JStore}

/-- More history above the journal does not change what the journal holds. -/
theorem JInv.skipped {t skipped : List Frame} (h : JInv t j s) (ht : t = s.ghost.tape)
    (hrun : SeqRun (t.length + 1) skipped) :
    JInv t j { s with ghost := { s.ghost with tape := s.ghost.tape ++ skipped } } := by
  refine ⟨?_, ⟨t.length, ?_⟩, h.last, h.holds⟩
  · refine SeqRun.append.mpr ⟨h.run, ?_⟩
    rw [← ht, Nat.add_comm]
    exact hrun
  · simp [ht]

/-- **Step lemma**: every deed keeps the invariant, however it ends. -/
theorem wp_deed (h : JInv s.ghost.tape j s) (deed : Deed) (hfits : deed.Fits j) :
    wp Fate.benign deed.run (fun _ j' s' => JInv s'.ghost.tape j' s')
      (fun _ j' s' => JInv s'.ghost.tape j' s') JCrash j s := by
  cases deed with
  | call op => exact wp_op h op
  | reseat skipped =>
    obtain ⟨hne, hrun⟩ := hfits
    have hlen := List.length_pos_iff.mpr hne
    rw [h.last] at hrun
    have hskipped := h.skipped rfl hrun
    apply wp_bind
    apply wp_mem
    apply wp_bind
    apply wp_record
    apply wp_bind
    rw [h.last]
    apply wp_nextSeq
    · intro hlt
      -- the new segment starts behind the whole history
      have hreseat := wp_reseatTo (E := fun _ j' s' => JInv s'.ghost.tape j' s') benign_no_fault hskipped
        (n := s.ghost.tape.length + skipped.length) (by omega) (by simp) hlt
      refine wp_mono hreseat ?_ (fun _ _ _ h => h) (fun _ hcrash => hcrash.1)
      intro _ j' s' ⟨hinv, hghost⟩
      rw [List.take_of_length_le (by simp)] at hinv
      rw [hghost]
      exact hinv
    · intro _
      exact hskipped.crash

/-- **Run lemma**: the invariant holds in every state of every history. -/
theorem life_inv {o : Option Journal} (h : Life o s) : RunInv o s := by
  induction h with
  | start => exact jloss_fresh
  | opened config _ hw hrun ih => exact (wp_ok (wp_opening ih config) hw hrun).resume
  | refused config _ hw hrun ih => exact wp_err (wp_opening ih config) hw hrun
  | openingLost config _ hw hrun hl ih => exact wp_down (wp_opening ih config) hw hrun _ hl
  | done deed _ hfits hw hrun ih =>
    have h := wp_ok (wp_deed ih deed hfits) hw hrun
    exact h
  | failed deed _ hfits hw hrun ih =>
    have h := wp_err (wp_deed ih deed hfits) hw hrun
    exact h
  | lostDuring deed _ hfits hw hrun hl ih => exact wp_down (wp_deed ih deed hfits) hw hrun _ hl
  | lost _ hl ih => exact JInv.crash ih _ hl

end History

/-! ## Writing -/

/-- A call that writes frames. -/
inductive Write where
  | one (frame : Frame)
  | batch (frames : List Frame)

/-- The frames a call writes. -/
def Write.frames : Write → List Frame
  | .one frame => [frame]
  | .batch frames => frames

def Write.run : Write → JProg Unit
  | .one frame => append frame
  | .batch frames => appendBatch frames

/-- Make the calls one after another. -/
def runWrites : List Write → JProg Unit
  | [] => pure ()
  | write :: writes => do
    write.run
    runWrites writes

/-- All frames of some calls. -/
def wrote (writes : List Write) : List Frame := writes.flatMap Write.frames

/-- The calls succeed, and the next opening returns what they wrote. -/
def Writable (config : JournalConfig) (writes : List Write) (j : Journal) (w : World JStore) : Prop :=
  ∃ j' w', runWrites writes j w = .ok () j' w' ∧
    ∃ r w'', openWith config () w' = .ok r () w'' ∧ wrote writes <:+ r.frames

/-- The newest segment holds no frame, and `len` bytes would call for another one. -/
def Stuck (j : Journal) (len : ℕ) : Prop :=
  (∃ c, j.current = some c ∧ c.file = j.lastSeq + 1) ∧ j.needsRoll len = true

/-- The first call that writes anything is stuck. -/
def Jammed (j : Journal) : List Write → Prop
  | [] => False
  | write :: writes =>
    if write.frames = [] then Jammed j writes else Stuck j (encodeAll write.frames).length

section Writing

variable {F : Fate → Prop} {E : JournalError → Journal → JStore → Prop} {C : JStore → Prop} {j : Journal}
  {s : JStore} {write : Write} {writes : List Write}

/-- A call whose frames are in order is one write. -/
theorem wp_write_inOrder {Q : Unit → Journal → JStore → Prop} (hne : write.frames ≠ [])
    (hrun : SeqRun (j.lastSeq + 1) write.frames) (hover : 2 ^ 64 ≤ j.lastSeq + write.frames.length + 1 → C s)
    (h : wp F (writeFrames write.frames (j.lastSeq + 1) (j.lastSeq + write.frames.length)
      (encodeAll write.frames).length) Q E C j s) : wp F write.run Q E C j s := by
  cases write with
  | one frame =>
    have hseq : frame.seq = j.lastSeq + 1 := hrun.1
    have hlt := frame.seq_lt
    apply wp_bind
    apply wp_mem
    apply wp_bind
    apply wp_nextSeq
    · intro _
      rw [if_neg (not_not_intro hseq), hseq]
      simpa [Write.frames] using h
    · omega
  | batch frames =>
    cases frames with
    | nil => exact absurd rfl hne
    | cons frame rest =>
      have hseq : frame.seq = j.lastSeq + 1 := hrun.1
      have hlt := frame.seq_lt
      have hlast := hrun.getLast_seq (List.cons_ne_nil frame rest)
      simp only [Write.frames] at hover hlast h hrun
      apply wp_bind
      apply wp_mem
      apply wp_bind
      apply wp_nextSeq
      · intro _
        apply wp_bind
        apply wp_checkBatch
        · intro _
          rw [hseq, show ((frame :: rest).getLast (by simp)).seq = j.lastSeq + (frame :: rest).length by omega]
          exact h
        · exact fun _ _ hbad => absurd hrun hbad
        · exact fun hle => hover (by omega)
      · omega

/-- A stuck write does not succeed: the segment it rolls to exists. -/
theorem wp_writeFrames_stuck {t frames : List Frame} {lastSeq len : ℕ} (h : JInv t j s) (hstuck : Stuck j len) :
    wp Fate.calm (writeFrames frames (j.lastSeq + 1) lastSeq len) (fun _ _ _ => False) (fun _ _ _ => True) C
      j s := by
  obtain ⟨⟨c, hcur, hfile⟩, hroll⟩ := hstuck
  have hnever : wp Fate.calm (rollSegment (j.lastSeq + 1)) (fun _ _ _ => False) (fun _ _ _ => True) C j s := by
    refine wp_seq (wp_sync (fun hc => absurd hc calm_no_cut) (fun k hk => absurd hk (calm_no_fault k)) h) ?_
    intro _ j₁ s₁ ⟨h₁, _, _, hcur₁⟩
    obtain ⟨f, hf⟩ := h₁.file (hcur₁.trans hcur)
    rw [hfile] at hf
    apply wp_bind
    apply wp_mem
    apply wp_bind
    apply wp_io
    apply wp_createNew (fun hc => absurd hc calm_no_cut) (fun _ _ => trivial) ?_ (fun _ _ => trivial)
    intro hfree
    simp [hf] at hfree
  apply wp_bind
  apply wp_mem
  apply wp_seq (wp_when (fun _ => hnever) (fun hno => absurd hroll hno))
  intro _ _ _ hfalse
  exact hfalse.elim

/-- **The first write to a journal**: it fails if it is stuck, and only then. -/
theorem wp_write_first (h : JInv s.ghost.tape j s) (hne : write.frames ≠ [])
    (hrun : SeqRun (s.ghost.tape.length + 1) write.frames)
    (hover : 2 ^ 64 ≤ s.ghost.tape.length + write.frames.length + 1 → C s) :
    wp Fate.calm write.run
      (fun _ j' s' => ¬Stuck j (encodeAll write.frames).length ∧
        Sound (s.ghost.tape ++ write.frames) s.ghost.cutoff 1 j' s' ∧
        ∃ k, k ≤ s.ghost.tape.length + 1 ∧ Present (segName k) s')
      (fun _ _ _ => Stuck j (encodeAll write.frames).length) C j s := by
  have hlast := h.last
  have hlen := List.length_pos_iff.mpr hne
  have hbound := hrun.bound hne
  apply wp_write_inOrder hne (by rwa [hlast]) (by rwa [hlast])
  by_cases hstuck : Stuck j (encodeAll write.frames).length
  · exact wp_mono (wp_writeFrames_stuck h hstuck) (fun _ _ _ h => h.elim) (fun _ _ _ _ => hstuck) fun _ h => h
  rw [hlast]
  refine wp_mono (wp_and (wp_writeFrames_roll calm_no_fault h (by omega) hrun rfl
    (fun hc => absurd hc calm_no_cut))
    ((appendStable_present (segName 1) s.ghost.cutoff).writeFrames (fun _ h => h) _ _ _ j s ⟨rfl, id⟩)) ?_ ?_
    (fun _ h => h.1)
  · intro _ j' s' ⟨⟨hinv, htape, hfile⟩, hcutoff, _⟩
    rw [htape] at hinv
    refine ⟨hstuck, ⟨hinv, htape, ?_, Nat.le_of_eq hcutoff, by simp⟩, ?_⟩
    · intro c hc
      have := hfile c hc
      rw [List.length_append]
      omega
    · cases hcur : j'.current with
      | none =>
        have hholds := hinv.holds
        unfold Holds at hholds
        rw [hcur] at hholds
        simp [hne] at hholds
      | some c => exact ⟨c.file, hfile c hcur, hinv.file hcur⟩
  · -- the roll found its file: the newest segment is the one it wanted to start
    intro _ j' s' ⟨⟨hinv, _, hcur, ⟨f, hf⟩, hroll⟩, _⟩
    obtain ⟨c, hc, hfile⟩ := hinv.current_of_file hf
    refine absurd ⟨⟨c, hcur.symm.trans hc, ?_⟩, hroll⟩ hstuck
    rw [hfile, hlast]

/-- A call on a journal whose newest segment has a frame. -/
theorem wp_write_sound {t : List Frame} {cut removed : ℕ} (h : Sound t cut removed j s) (k : FileName)
    (hrun : SeqRun (t.length + 1) write.frames) (hover : 2 ^ 64 ≤ t.length + write.frames.length + 1 → C s) :
    wp Fate.calm write.run
      (fun _ j' s' => Sound (t ++ write.frames) cut removed j' s' ∧ (Present k s → Present k s'))
      (fun _ _ _ => False) C j s := by
  have hstable : AppendStable fun s' => s'.ghost.cutoff = s.ghost.cutoff ∧ (Present k s → Present k s') :=
    appendStable_present k _
  cases write with
  | one frame =>
    have hkeep : Keeps Fate.calm _ (append frame) := hstable.append fun _ h => h
    refine wp_mono (wp_and (wp_append_sound h frame fun hle => hover ?_) (hkeep j s ⟨rfl, id⟩)) ?_ ?_
      fun _ h => h.1
    · simp only [Write.frames, List.length_singleton]
      omega
    · exact fun _ _ _ h => ⟨h.1.2, h.2.2⟩
    · exact fun _ _ _ h => h.1.1 hrun
  | batch frames =>
    have hkeep : Keeps Fate.calm _ (appendBatch frames) := hstable.appendBatch fun _ h => h
    refine wp_mono (wp_and (wp_appendBatch_sound h frames hover) (hkeep j s ⟨rfl, id⟩)) ?_ ?_ fun _ h => h.1
    · exact fun _ _ _ h => ⟨h.1.2, h.2.2⟩
    · exact fun _ _ _ h => h.1.1 hrun

theorem wp_runWrites_sound {t : List Frame} {cut removed : ℕ} (h : Sound t cut removed j s) (k : FileName)
    (hrun : SeqRun (t.length + 1) (wrote writes))
    (hover : 2 ^ 64 ≤ t.length + (wrote writes).length + 1 → ∀ s', C s') :
    wp Fate.calm (runWrites writes)
      (fun _ j' s' => Sound (t ++ wrote writes) cut removed j' s' ∧ (Present k s → Present k s'))
      (fun _ _ _ => False) C j s := by
  induction writes generalizing t j s with
  | nil => exact wp_pure ⟨by simpa [wrote] using h, id⟩
  | cons write writes ih =>
    rw [wrote, List.flatMap_cons] at hrun hover ⊢
    rw [SeqRun.append] at hrun
    rw [List.length_append] at hover
    refine wp_seq (wp_write_sound h k hrun.1 fun hle => hover (by omega) s) ?_
    intro _ j₁ s₁ ⟨h₁, hkeep⟩
    have hlen : (t ++ write.frames).length + 1 = t.length + 1 + write.frames.length := by
      rw [List.length_append]
      omega
    refine wp_mono (ih h₁ (by rw [hlen]; exact hrun.2) fun hle => hover ?_) ?_ (fun _ _ _ h => h) fun _ h => h
    · rw [wrote] at hle
      omega
    · intro _ j₂ s₂ ⟨h₂, hkeep₂⟩
      rw [List.append_assoc] at h₂
      exact ⟨h₂, fun hk => hkeep₂ (hkeep hk)⟩

/-- **The writes to a journal that was opened**: they fail if the first one is stuck, and only then. Afterwards a
segment stands at or below the seq that came next. -/
theorem wp_runWrites (h : JInv s.ghost.tape j s) (hrun : SeqRun (s.ghost.tape.length + 1) (wrote writes))
    (hover : 2 ^ 64 ≤ s.ghost.tape.length + (wrote writes).length + 1 → ∀ s', C s') :
    wp Fate.calm (runWrites writes)
      (fun _ j' s' => ¬Jammed j writes ∧ JInv (s.ghost.tape ++ wrote writes) j' s' ∧
        s'.ghost.tape = s.ghost.tape ++ wrote writes ∧
        (wrote writes ≠ [] → ∃ k, k ≤ s.ghost.tape.length + 1 ∧ Present (segName k) s'))
      (fun _ _ _ => Jammed j writes) C j s := by
  induction writes with
  | nil => exact wp_pure ⟨id, by simpa [wrote] using h, by simp [wrote], by simp [wrote]⟩
  | cons write writes ih =>
    rw [wrote, List.flatMap_cons] at hrun hover ⊢
    by_cases hnil : write.frames = []
    · -- an empty batch does nothing
      rw [hnil, List.nil_append] at hrun hover ⊢
      have hskip : wp Fate.calm write.run (fun _ j' s' => j' = j ∧ s' = s) (fun _ _ _ => Jammed j (write :: writes))
          C j s := by
        cases write with
        | one frame => simp [Write.frames] at hnil
        | batch frames =>
          rw [show frames = [] from hnil]
          exact wp_pure ⟨rfl, rfl⟩
      refine wp_seq hskip ?_
      intro _ _ _ ⟨hj, hs⟩
      rw [hj, hs, Jammed, if_pos hnil]
      exact ih hrun hover
    · rw [SeqRun.append] at hrun
      rw [List.length_append] at hover
      rw [Jammed, if_neg hnil]
      refine wp_seq (wp_write_first h hnil hrun.1 fun hle => hover (by omega) s) ?_
      intro _ j₁ s₁ ⟨hfree, h₁, k, hk, hpresent⟩
      have hlen : (s.ghost.tape ++ write.frames).length + 1 = s.ghost.tape.length + 1 + write.frames.length := by
        rw [List.length_append]
        omega
      refine wp_mono (wp_runWrites_sound h₁ (segName k) (by rw [hlen]; exact hrun.2) fun hle => hover ?_) ?_
        (fun _ _ _ h => h.elim) fun _ h => h
      · rw [wrote] at hle
        omega
      · intro _ j₂ s₂ ⟨h₂, hkeep⟩
        have hinv := h₂.journal
        have htape := h₂.tape
        rw [List.append_assoc] at hinv htape
        exact ⟨hfree, hinv, htape, fun _ => ⟨k, hk, hkeep hpresent⟩⟩

end Writing

/-! ## Opening again -/

section Opening

variable {μ : Type} {m : μ} {C : JStore → Prop} {j : Journal} {s : JStore} {acc : Scan}

theorem scanFrames_next_lt {fuel expected : ℕ} {cursor : Bytes} (h : expected < 2 ^ 64) :
    (scanFrames fuel cursor expected).2.1 < 2 ^ 64 := by
  induction fuel generalizing cursor expected with
  | zero => exact h
  | succ fuel ih =>
    rw [scanFrames]
    split
    · exact h
    · split
      · exact h
      · split
        · exact h
        · split
          · exact h
          · rename_i hnext
            unfold seqNext at hnext
            split at hnext
            · cases hnext
              exact ih (by assumption)
            · cases hnext

/-- The scan of a segment expects a seq next. -/
theorem wp_scanSegment_next (isFirst isLast : Bool) (first : ℕ) (hacc : acc.expectedNext < 2 ^ 64) :
    wp (fun _ => True) (scanSegment isFirst isLast first acc) (fun acc' _ _ => acc'.expectedNext < 2 ^ 64)
      (fun _ _ _ => True) (fun _ => True) m s := by
  apply wp_seq (wp_trivial fun _ => trivial)
  intro bytes _ _ _
  apply wp_bind
  apply wp_ofExcept
  · intro header hheader
    have hfirst : header.firstSeq < 2 ^ 64 := by
      unfold parseSegmentHeader at hheader
      split_ifs at hheader
      cases hheader
      exact leNat_slice_lt bytes 8 8
    have hexpected : (if isFirst = true then header.firstSeq else acc.expectedNext) < 2 ^ 64 := by
      split
      · exact hfirst
      · exact hacc
    simp only
    generalize (if isFirst = true then header.firstSeq else acc.expectedNext) = expected at hexpected
    split
    · exact wp_fail trivial
    · have hnext := @scanFrames_next_lt bytes.length expected (bytes.drop SEGMENT_HEADER_LEN) hexpected
      revert hnext
      generalize scanFrames bytes.length (bytes.drop SEGMENT_HEADER_LEN) expected = scanned
      obtain ⟨frames, next, fin⟩ := scanned
      intro hnext
      cases fin with
      | clean => exact wp_pure hnext
      | bad err left =>
        rw [endSegment]
        split
        · exact wp_seq (wp_trivial fun _ => trivial) fun _ _ _ _ => wp_pure hnext
        · exact wp_fail trivial
      | gap found => exact wp_fail trivial
      | overflow => exact wp_panic trivial
  · exact fun _ _ => trivial

theorem wp_scanSegments_next (isFirst : Bool) (l : List ℕ) (hacc : acc.expectedNext < 2 ^ 64) :
    wp (fun _ => True) (scanSegments isFirst l acc) (fun acc' _ _ => acc'.expectedNext < 2 ^ 64)
      (fun _ _ _ => True) (fun _ => True) m s := by
  induction l generalizing isFirst acc s m with
  | nil => exact wp_pure hacc
  | cons first l ih =>
    cases l with
    | nil => exact wp_scanSegment_next _ _ _ hacc
    | cons next rest =>
      apply wp_seq (wp_scanSegment_next _ _ _ hacc)
      exact fun _ _ _ hnext => ih _ hnext

/-- The seq behind the last one is a seq too: the scan computed it. -/
theorem wp_openWith_lastSeq (config : JournalConfig) :
    wp (fun _ => True) (openWith config) (fun r _ _ => r.journal.lastSeq + 1 < 2 ^ 64) (fun _ _ _ => True)
      (fun _ => True) m s := by
  apply wp_seq (wp_trivial fun _ => trivial)
  intro _ _ _ _
  apply wp_seq (wp_trivial fun _ => trivial)
  intro names _ _ _
  apply wp_seq (wp_scanSegments_next true _ (by simp [Scan.start]))
  intro acc _ _ hacc
  apply wp_seq (wp_trivial fun _ => trivial)
  intro _ _ _ _
  apply wp_seq (wp_trivial fun _ => trivial)
  intro _ _ _ _
  apply wp_seq (wp_trivial fun _ => trivial)
  intro _ _ _ _
  refine wp_pure ?_
  show acc.expectedNext - 1 + 1 < 2 ^ 64
  omega

/-- **The next opening** returns the frames that came last. -/
theorem wp_openWith_tail {older newer : List Frame} (h : JInv (older ++ newer) j s)
    (hlow : newer ≠ [] → ∃ k, k ≤ older.length + 1 ∧ Present (segName k) s)
    (htape : s.ghost.tape = older ++ newer)
    (hover : 2 ^ 64 ≤ (older ++ newer).length + 1 → C s) (config : JournalConfig) :
    wp Fate.calm (openWith config)
      (fun r _ _ => newer <:+ r.frames ∧ r.journal.lastSeq = (older ++ newer).length) (fun _ _ _ => False) C m s := by
  have hholds := h.holds
  unfold Holds at hholds
  cases hcur : j.current with
  | none =>
    rw [hcur] at hholds
    refine wp_mono (wp_openWith_empty (E := fun _ _ _ => False) calm_no_fault (fun hc => absurd hc calm_no_cut)
      hholds.1 config) ?_ (fun _ _ _ h => h) fun _ h => h
    intro r _ _ ⟨_, ⟨now, hr⟩, _⟩
    obtain ⟨holder, hnewer⟩ := List.append_eq_nil_iff.mp hholds.2.1
    simp [hr, holder, hnewer]
  | some c =>
    obtain ⟨pre, f, hreads, -⟩ := h.readsAs hcur
    refine wp_mono (wp_openWith_reads (E := fun _ _ _ => False) calm_no_fault hreads
      (fun hc => absurd hc calm_no_cut) (fun hc => absurd hc calm_no_cut) (htape ▸ h.run) hover (Or.inl rfl) config)
      ?_ (fun _ _ _ h => h) fun _ h => h
    intro r _ _ ⟨_, hr⟩
    refine ⟨?_, hr.last⟩
    by_cases hne : newer = []
    · rw [hne]
      exact List.nil_suffix
    · obtain ⟨k, hk, g, hg⟩ := hlow hne
      have hstart := startOf_le_of_mem hreads.listing (mem_filesOf.mpr hg)
      rw [hr.frames, hr.first, List.drop_append_of_le_length (by omega)]
      exact List.suffix_append _ _

end Opening

/-! ## The theorem -/

theorem ends_runWrites (writes : List Write) : Ends (runWrites writes) := by
  induction writes with
  | nil => exact ends_pure _
  | cons write writes ih =>
    refine ends_bind ?_ fun _ => ih
    cases write with
    | one frame => exact ends_append frame
    | batch frames => exact ends_appendBatch frames

/-- **A journal that opens can be written**, and returns what was written, exactly when the first call that writes
anything is not stuck and the frames do not use the largest seq. -/
theorem writable_iff {w w₁ w₂ : World JStore} {r : Recovered} {config : JournalConfig} (hlife : Life none w.st)
    (hw : w.Benign) (hopen : openWith config () w = .ok r () w₁)
    (hst : w₂.st = resume w₁.st r.journal.lastSeq) (hcalm : w₂.Calm) {writes : List Write}
    (hrun : SeqRun (r.journal.lastSeq + 1) (wrote writes)) (config' : JournalConfig) :
    Writable config' writes r.journal w₂ ↔
      ¬Jammed r.journal writes ∧ r.journal.lastSeq + (wrote writes).length + 1 < 2 ^ 64 := by
  have hinv : JInv w₂.st.ghost.tape r.journal w₂.st := by
    rw [hst]
    exact (wp_ok (wp_opening (life_inv hlife) config) hw hopen).resume
  have hlast := hinv.last
  rw [hlast] at hrun ⊢
  constructor
  · rintro ⟨j', w', hwrites, r', w'', hreopen, -⟩
    have hspec := wp_runWrites (C := fun _ => True) hinv hrun fun _ _ => trivial
    obtain ⟨hfree, hinv', htape, hlow⟩ := wp_ok hspec hcalm hwrites
    refine ⟨hfree, ?_⟩
    -- the next opening counted one further than the last frame
    have hcalm' : w'.Calm := by
      have hs := hspec w₂ rfl hcalm
      rw [hwrites] at hs
      exact hs.1
    have hopened := wp_ok (wp_openWith_tail (C := fun _ => True) hinv' hlow htape (fun _ => trivial) config')
      hcalm' hreopen
    have hnext := wp_ok (wp_openWith_lastSeq config') (fun _ _ => trivial) hreopen
    rw [hopened.2, List.length_append] at hnext
    exact hnext
  · rintro ⟨hfree, hfits⟩
    have hspec : wp Fate.calm (runWrites writes) _ (fun _ _ _ => False) (fun _ => False) r.journal w₂.st :=
      wp_mono (wp_runWrites hinv hrun fun hover => by omega) (fun _ _ _ h => h) (fun _ _ _ h => hfree h)
        fun _ h => h
    obtain ⟨_, j', w', hwrites, hcalm', -, hinv', htape, hlow⟩ := wp_total hspec hcalm (ends_runWrites writes)
    have hopens := wp_openWith_tail (m := ()) (C := fun _ => False) hinv' hlow htape
      (fun hover => by rw [List.length_append] at hover; omega) config'
    obtain ⟨r', _, w'', hreopen, -, hsuffix, -⟩ := wp_total hopens hcalm' (ends_openWith config')
    exact ⟨j', w', hwrites, r', w'', hreopen, hsuffix⟩

/-- A journal with two segments that loses the frame of the second one, opened with another segment size. -/
def halfRolled (segmentBytes : ℕ) : Option (World JStore × Recovered × World JStore) := do
  let opening : Prog Unit JStore JournalError Recovered := openWith ⟨40, .never⟩
  let (r, _, w) ← (opening () (.healthy ⟨Disk.empty, History.fresh⟩)).returned
  let w₁ : World JStore := .healthy (resume w.st r.journal.lastSeq)
  let first : Op := .append ⟨1, 0, 1, .tick, [], one_lt_seqs, nil_payload_le⟩
  let second : Op := .append ⟨2, 0, 1, .tick, [], two_lt_seqs, nil_payload_le⟩
  let (_, j, w₂) ← ((Deed.call first).run r.journal w₁).returned
  let (_, _, w₃) ← ((Deed.call second).run j (.healthy w₂.st)).returned
  let lost : World JStore := .healthy ⟨w₃.st.disk.strip, w₃.st.ghost⟩
  let (r', _, w₄) ← (openWith ⟨segmentBytes, .never⟩ () lost).returned
  pure (lost, r', w₄)

theorem life_halfRolled {segmentBytes : ℕ} {w w' : World JStore} {r : Recovered}
    (h : halfRolled segmentBytes = some (w, r, w')) :
    Life none w.st ∧ w.Benign ∧ openWith ⟨segmentBytes, .never⟩ () w = .ok r () w' := by
  simp only [halfRolled, bind, Option.bind_eq_some_iff] at h
  obtain ⟨⟨r₀, _, w₀⟩, hopen, ⟨_, j₁, w₁⟩, hfirst, ⟨_, j₂, w₂⟩, hsecond, ⟨r', _, w₃⟩, hreopen, heq⟩ := h
  cases heq
  rw [Outcome.returned_eq_some] at hopen hfirst hsecond hreopen
  have hbenign : ∀ s : JStore, (World.healthy s).Benign := fun s f hf => by cases hf
  have h₀ := Life.opened (w := .healthy _) _ .start (hbenign _) hopen
  have h₁ := Life.done (w := .healthy _) (.call _) h₀ trivial (hbenign _) hfirst
  have h₂ := Life.done (w := .healthy _) (.call _) h₁ trivial (hbenign _) hsecond
  exact ⟨Life.lost h₂ ⟨Disk.powerLoss_strip _, rfl⟩, hbenign _, hreopen⟩

/-- The second frame again, in a segment it fits into. -/
theorem writable_of_half_rolled : ∃ (w w₁ : World JStore) (r : Recovered) (writes : List Write),
    Life none w.st ∧ openWith ⟨1024, .never⟩ () w = .ok r () w₁ ∧ (wrote writes).length = 1 ∧
      Writable ⟨1024, .never⟩ writes r.journal (.healthy (resume w₁.st r.journal.lastSeq)) := by
  let frame : Frame := ⟨2, 0, 1, .tick, [], two_lt_seqs, nil_payload_le⟩
  have hrun : (halfRolled 1024).any (fun p => decide (p.2.1.journal.lastSeq = 1 ∧
      p.2.1.journal.needsRoll (encodeAll [frame]).length = false)) = true := by decide +kernel
  obtain ⟨⟨w, r, w₁⟩, hscript, hvals⟩ := (Option.any_eq_true _ _).mp hrun
  obtain ⟨hlast, hfits⟩ := of_decide_eq_true hvals
  obtain ⟨hlife, hbenign, hopen⟩ := life_halfRolled hscript
  have hcalm : ∀ s : JStore, (World.healthy s).Calm := fun s f hf => by cases hf
  simp only at hlast hfits
  refine ⟨w, w₁, r, [.one frame], hlife, hopen, rfl, ?_⟩
  refine (writable_iff hlife hbenign hopen rfl (hcalm _) ?_ _).mpr ⟨?_, ?_⟩
  · rw [hlast]
    exact ⟨rfl, trivial⟩
  · intro hjammed
    have hstuck : Stuck r.journal (encodeAll [frame]).length := hjammed
    rw [hstuck.2] at hfits
    cases hfits
  · rw [hlast]
    decide

/-- **A journal that opens and cannot be written**: the segment the second frame needs exists, without a frame. -/
theorem opens_unwritable : ∃ (w w₁ : World JStore) (r : Recovered) (frame : Frame),
    Life none w.st ∧ w.Benign ∧ openWith ⟨40, .never⟩ () w = .ok r () w₁ ∧
      frame.seq = r.journal.lastSeq + 1 ∧ ∀ config,
      ¬Writable config [.one frame] r.journal (.healthy (resume w₁.st r.journal.lastSeq)) := by
  have hrun : (halfRolled 40).any (fun p => decide (p.2.1.journal.lastSeq = 1 ∧
      (runWrites [.one ⟨2, 0, 1, .tick, [], two_lt_seqs, nil_payload_le⟩] p.2.1.journal
        (.healthy (resume p.2.2.st p.2.1.journal.lastSeq))).returned.isNone)) = true := by decide +kernel
  obtain ⟨⟨w, r, w₁⟩, hscript, hvals⟩ := (Option.any_eq_true _ _).mp hrun
  obtain ⟨hlast, hnone⟩ := of_decide_eq_true hvals
  obtain ⟨hlife, hbenign, hopen⟩ := life_halfRolled hscript
  simp only at hlast
  refine ⟨w, w₁, r, ⟨2, 0, 1, .tick, [], two_lt_seqs, nil_payload_le⟩, hlife, hbenign, hopen, by rw [hlast], ?_⟩
  rintro config ⟨j', w', hwrites, -⟩
  rw [hwrites] at hnone
  cases hnone

end Ticktape.Journal
