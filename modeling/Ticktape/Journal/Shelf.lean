import Ticktape.Journal.Frames
import Ticktape.Journal.Invariant
import Ticktape.Lib.Quorum

/-!
# The shelf of snapshots

Which snapshot files can stand in the directory, at any point of any operation, and what a power loss
leaves of them. `Good prefix payload` says what a snapshot of the state after the frames `prefix` must
be; the shelf holds only good snapshots and files that do not parse, and one of the good ones reaches
every compaction cutoff. The length of a payload is cast to 32 bits, so once a larger one was written
(`oversize`) nothing is promised.
-/

namespace Ticktape.Journal

open Ticktape.Lib Ticktape.Core

/-- The snapshots of a store. -/
abbrev snaps (s : JStore) : List (ℕ × FileData) := filesOf .snap s.disk

section Files

variable (Good : List Frame → Bytes → Prop) (tape : List Frame) (n : ℕ)

/-- `payload` is a snapshot at `n` and its length fits the header field. -/
structure Fits (payload : Bytes) : Prop where
  good : Good (tape.take n) payload
  short : payload.length < 2 ^ 32
  bound : n < 2 ^ 64

/-- A whole snapshot file. -/
def Valid (f : FileData) : Prop := ∃ payload, Fits Good tape n payload ∧ f = ⟨snapshotBytes n 0 payload, []⟩

/-- A snapshot file that was written and is not yet synced. -/
def InFlight (f : FileData) : Prop :=
  ∃ payload, Fits Good tape n payload ∧ f = ⟨[], snapshotBytes n 0 payload⟩

/-- A file that recovery skips. -/
def Unusable (f : FileData) : Prop := f.unsynced = [] ∧ parseSnapshot f.combined = none

end Files

variable {Good : List Frame → Bytes → Prop} {tape : List Frame} {n : ℕ} {f : FileData}

theorem Fits.congr {tape' : List Frame} {payload : Bytes} (h : Fits Good tape n payload)
    (heq : tape'.take n = tape.take n) : Fits Good tape' n payload :=
  ⟨heq ▸ h.good, h.short, h.bound⟩

theorem Valid.congr {tape' : List Frame} (h : Valid Good tape n f)
    (heq : tape'.take n = tape.take n) : Valid Good tape' n f := by
  obtain ⟨payload, hfits, rfl⟩ := h
  exact ⟨payload, hfits.congr heq, rfl⟩

theorem Valid.unsynced (h : Valid Good tape n f) : f.unsynced = [] := by
  obtain ⟨payload, -, rfl⟩ := h
  rfl

/-- A whole file is loaded as what was written. -/
theorem Valid.parse (h : Valid Good tape n f) :
    ∃ payload, Fits Good tape n payload ∧ parseSnapshot f.combined = some ⟨n, 0, payload⟩ := by
  obtain ⟨payload, hfits, rfl⟩ := h
  refine ⟨payload, hfits, ?_⟩
  rw [FileData.combined, List.append_nil]
  exact parseSnapshot_bytes hfits.bound (by decide) hfits.short

/-- What a power loss leaves of a file in flight. -/
theorem InFlight.survives {f' : FileData} (h : InFlight Good tape n f) (hs : f.Survives f') :
    Valid Good tape n f' ∨ Unusable f' := by
  obtain ⟨payload, hfits, rfl⟩ := h
  obtain ⟨q, hq, rfl⟩ := hs
  rcases parseSnapshot_torn hfits.bound (by decide) hfits.short hq with rfl | hnone
  · exact Or.inl ⟨payload, hfits, rfl⟩
  · refine Or.inr ⟨rfl, ?_⟩
    rw [FileData.combined, List.append_nil]
    exact hnone

/-- No snapshot file is numbered above `b`. -/
def Topped (b : ℕ) (s : JStore) : Prop := ∀ p f, s.disk.get (snapName p) = some f → p ≤ b

section Topped

variable {b b' seq : ℕ} {s s' : JStore}

theorem get_of_snaps_eq (h : snaps s' = snaps s) (p : ℕ) :
    s'.disk.get (snapName p) = s.disk.get (snapName p) :=
  Option.ext fun f => by rw [← mem_filesOf, ← mem_filesOf, show filesOf .snap s'.disk = _ from h]

theorem Topped.of_snaps (h : Topped b s) (hsnaps : snaps s' = snaps s) : Topped b s' :=
  fun p f hget => h p f (get_of_snaps_eq hsnaps p ▸ hget)

theorem Topped.mono (h : Topped b s) (hle : b ≤ b') : Topped b' s := fun p f hget =>
  Nat.le_trans (h p f hget) hle

theorem Topped.put (h : Topped b s) (hle : seq ≤ b) (f : FileData) :
    Topped b (s.withDisk (s.disk.put (snapName seq) f)) := by
  intro p g hget
  by_cases heq : p = seq
  · exact heq ▸ hle
  · rw [Store.withDisk_disk, Disk.get_put_of_ne _ _ (by simpa using Ne.symm heq)] at hget
    exact h p g hget

theorem Topped.del (h : Topped b s) (seq : ℕ) : Topped b (s.withDisk (s.disk.del (snapName seq))) := by
  intro p g hget
  by_cases heq : p = seq
  · rw [Store.withDisk_disk, heq, Disk.get_del_self] at hget
    cases hget
  · rw [Store.withDisk_disk, Disk.get_del_of_ne _ (by simpa using Ne.symm heq)] at hget
    exact h p g hget

theorem jstable_topped (b : ℕ) : JStable (Topped b) where
  disk := fun _ _ h hd p f hget => h p f (by rw [← hd (snapName p) fun _ heq => by cases heq]; exact hget)
  durable := fun _ _ h => h
  window := fun _ _ h => h

theorem keeps_write_topped {μ : Type} {F : Fate → Prop} (hle : seq ≤ b) (epoch : ℕ) (payload : Bytes) :
    Keeps F (Topped b) (Snapshots.write seq epoch payload : Prog μ JStore JournalError Unit) := by
  apply keeps_bind (keeps_record fun _ h => h)
  intro _
  apply keeps_bind (keeps_io fun _ _ h => wp_createNew (fun _ => h) (fun _ _ => h) (fun _ => h.put hle _) fun _ _ => h)
  intro _
  apply keeps_bind (keeps_io fun _ _ h => wp_writeAll (fun _ => h) (fun _ _ _ _ => h.put hle _) (fun _ _ => h)
    fun _ _ => h.put hle _)
  intro _
  apply keeps_bind (keeps_io fun _ _ h => wp_onFile (fun _ => h) (fun _ _ => h) (fun _ _ => h.put hle _) fun _ => h)
  intro _
  exact keeps_io fun _ _ h => wp_syncDir (fun _ => h) (fun _ _ => h) h

theorem keeps_removeAll_topped {μ : Type} {F : Fate → Prop} (l : List ℕ) :
    Keeps F (Topped b) (Snapshots.removeAll l : Prog μ JStore JournalError Unit) := by
  induction l with
  | nil => exact keeps_pure _
  | cons k l ih =>
    exact keeps_bind (keeps_io fun _ _ h => wp_remove (fun _ => h) (fun _ _ => h) (fun _ _ => h.del k) fun _ => h)
      fun _ => ih

theorem keeps_pruneKeepNewest_topped {μ : Type} {F : Fate → Prop} (keep : ℕ) :
    Keeps F (Topped b) (Snapshots.pruneKeepNewest keep : Prog μ JStore JournalError (Option ℕ)) := by
  apply keeps_bind (keeps_io (keeps_listDir (jstable_topped b).disk))
  intro names
  simp only
  split
  · apply keeps_bind (keeps_removeAll_topped _)
    intro _
    exact keeps_bind (keeps_io (keeps_syncDir (jstable_topped b).disk)) fun _ => keeps_pure _
  · exact keeps_pure _

end Topped

/-! ## The shelf -/

/-- Every file is whole or otherwise `ok`, none is numbered above the tape, and a whole one reaches the
cutoff. -/
structure Shelved (Good : List Frame → Bytes → Prop) (ok : ℕ → FileData → Prop) (tape : List Frame)
    (cutoff : ℕ) (l : List (ℕ × FileData)) : Prop where
  files : ∀ n f, (n, f) ∈ l → n ≤ tape.length ∧ (Valid Good tape n f ∨ ok n f)
  cover : cutoff = 0 ∨ ∃ p f, (p, f) ∈ l ∧ Valid Good tape p f ∧ cutoff ≤ p

/-- Between operations: files that do not parse are left from before, at or below `tip`. -/
def ShelfAt (Good : List Frame → Bytes → Prop) (tip : ℕ) (s : JStore) : Prop :=
  s.ghost.oversize = true ∨
    Shelved Good (fun n f => Unusable f ∧ n ≤ tip) s.ghost.tape s.ghost.cutoff (snaps s)

/-- Anywhere inside an operation. -/
def ShelfCrash (Good : List Frame → Bytes → Prop) (s : JStore) : Prop :=
  s.ghost.oversize = true ∨
    Shelved Good (fun n f => Unusable f ∨ InFlight Good s.ghost.tape n f) s.ghost.tape s.ghost.cutoff
      (snaps s)

section Shelf

variable {ok ok' : ℕ → FileData → Prop} {cutoff : ℕ} {l : List (ℕ × FileData)} {tip : ℕ}
  {s s' : JStore}

/-- The shelf depends on the tape only through the frames below the files, and lower cutoffs are
covered too. -/
theorem Shelved.congr {tape' : List Frame} {cutoff' : ℕ} (h : Shelved Good ok tape cutoff l)
    (hok : ∀ n f, (n, f) ∈ l → ok n f → ok' n f)
    (htape : ∀ n f, (n, f) ∈ l → n ≤ tape'.length ∧ tape'.take n = tape.take n)
    (hcover : cutoff' ≤ cutoff ∨ ∃ p f, (p, f) ∈ l ∧ Valid Good tape p f ∧ cutoff' ≤ p) :
    Shelved Good ok' tape' cutoff' l := by
  refine ⟨fun n f hmem => ⟨(htape n f hmem).1, ?_⟩, ?_⟩
  · rcases (h.files n f hmem).2 with hvalid | hother
    · exact Or.inl (hvalid.congr (htape n f hmem).2)
    · exact Or.inr (hok n f hmem hother)
  · rcases hcover with hle | ⟨p, f, hmem, hvalid, hle⟩
    · rcases h.cover with hzero | ⟨p, f, hmem, hvalid, hp⟩
      · exact Or.inl (by omega)
      · exact Or.inr ⟨p, f, hmem, hvalid.congr (htape p f hmem).2, by omega⟩
    · exact Or.inr ⟨p, f, hmem, hvalid.congr (htape p f hmem).2, hle⟩

/-- A longer tape. -/
theorem Shelved.extend (h : Shelved Good ok tape cutoff l) (frames : List Frame) :
    Shelved Good ok (tape ++ frames) cutoff l := by
  refine h.congr (fun _ _ _ hok => hok) (fun n f hmem => ?_) (Or.inl (Nat.le_refl _))
  have hle := (h.files n f hmem).1
  exact ⟨by rw [List.length_append]; omega, List.take_append_of_le_length hle⟩

theorem ShelfAt.crash (h : ShelfAt Good tip s) : ShelfCrash Good s := by
  rcases h with hover | h
  · exact Or.inl hover
  · exact Or.inr ⟨fun n f hmem => ⟨(h.files n f hmem).1,
      (h.files n f hmem).2.imp_right fun hok => Or.inl hok.1⟩, h.cover⟩

/-- **A shelf after a power loss** holds whole snapshots and files that do not parse. -/
theorem ShelfCrash.loss (h : ShelfCrash Good s) (hl : s.PowerLoss s') :
    ShelfAt Good s'.ghost.tape.length s' := by
  rcases h with hover | h
  · exact Or.inl (by rw [hl.2]; exact hover)
  refine Or.inr ⟨fun n f' hmem => ?_, ?_⟩
  · obtain ⟨f, hf, hs⟩ := hl.1.of_some (mem_filesOf.mp hmem)
    obtain ⟨hle, hfile⟩ := h.files n f (mem_filesOf.mpr hf)
    rw [hl.2]
    refine ⟨hle, ?_⟩
    rcases hfile with hvalid | hunusable | hflight
    · rw [hs.eq_of_synced hvalid.unsynced]
      exact Or.inl hvalid
    · rw [hs.eq_of_synced hunusable.1]
      exact Or.inr ⟨hunusable, hle⟩
    · exact (hflight.survives hs).imp_right fun hu => ⟨hu, hle⟩
  · rw [hl.2]
    rcases h.cover with hzero | ⟨p, f, hmem, hvalid, hle⟩
    · exact Or.inl hzero
    · obtain ⟨f', hf', hs⟩ := hl.1.some (mem_filesOf.mp hmem)
      rw [hs.eq_of_synced hvalid.unsynced] at hf'
      exact Or.inr ⟨p, f, mem_filesOf.mpr hf', hvalid, hle⟩

/-- The shelf does not depend on the rest of the store. -/
theorem ShelfAt.of_eq (h : ShelfAt Good tip s) (hsnaps : snaps s' = snaps s)
    (htape : s'.ghost.tape = s.ghost.tape) (hcutoff : s'.ghost.cutoff = s.ghost.cutoff)
    (hover : s'.ghost.oversize = s.ghost.oversize) : ShelfAt Good tip s' := by
  unfold ShelfAt
  rw [hsnaps, htape, hcutoff, hover]
  exact h

/-- One more file. -/
theorem Shelved.add {d d' : Disk FileName} {seq : ℕ} {g : FileData}
    (h : Shelved Good ok tape cutoff (filesOf .snap d)) (hok : ∀ n f, ok n f → ok' n f)
    (hnone : d.get (snapName seq) = none) (hself : d'.get (snapName seq) = some g)
    (hother : ∀ n, n ≠ seq → d'.get (snapName n) = d.get (snapName n)) (hle : seq ≤ tape.length)
    (hg : Valid Good tape seq g ∨ ok' seq g) :
    Shelved Good ok' tape cutoff (filesOf .snap d') := by
  refine ⟨fun n f hmem => ?_, ?_⟩
  · rw [mem_filesOf] at hmem
    by_cases heq : n = seq
    · subst heq
      obtain rfl : g = f := Option.some.inj (hself.symm.trans hmem)
      exact ⟨hle, hg⟩
    · rw [hother n heq, ← mem_filesOf] at hmem
      exact ⟨(h.files n f hmem).1, (h.files n f hmem).2.imp_right (hok n f)⟩
  · rcases h.cover with hzero | ⟨p, f, hmem, hvalid, hp⟩
    · exact Or.inl hzero
    · have hne : p ≠ seq := by
        rintro rfl
        rw [mem_filesOf, hnone] at hmem
        cases hmem
      rw [mem_filesOf, ← hother p hne, ← mem_filesOf] at hmem
      exact Or.inr ⟨p, f, hmem, hvalid, hp⟩

/-- Files are taken away, but not the one that reaches the cutoff. -/
theorem Shelved.sub {d d' : Disk FileName} (h : Shelved Good ok tape cutoff (filesOf .snap d))
    (hsub : ∀ n f, d'.get (snapName n) = some f → d.get (snapName n) = some f)
    (hcover : cutoff = 0 ∨ ∃ p f, d'.get (snapName p) = some f ∧ Valid Good tape p f ∧ cutoff ≤ p) :
    Shelved Good ok tape cutoff (filesOf .snap d') := by
  refine ⟨fun n f hmem => h.files n f (mem_filesOf.mpr (hsub n f (mem_filesOf.mp hmem))), ?_⟩
  rcases hcover with hzero | ⟨p, f, hget, hvalid, hp⟩
  · exact Or.inl hzero
  · exact Or.inr ⟨p, f, mem_filesOf.mpr hget, hvalid, hp⟩

end Shelf

/-! ## Writing -/

section Ops

variable {μ : Type} {F : Fate → Prop} {E : JournalError → μ → JStore → Prop} {C : JStore → Prop} {m : μ}
  {s : JStore} {tip seq : ℕ}

/-- A whole snapshot at `seq` stands on the shelf. -/
def Reaches (Good : List Frame → Bytes → Prop) (seq : ℕ) (s : JStore) : Prop :=
  s.ghost.oversize = true ∨ ∃ f, s.disk.get (snapName seq) = some f ∧ Valid Good s.ghost.tape seq f

/-- **Writing a snapshot** of the state at `seq`. An error means that there was a file of that name; no other file
is touched. -/
theorem wp_write (hF : ∀ k, ¬F (.fault k)) {payload : Bytes} (h : ShelfAt Good tip s)
    (hgood : Good (s.ghost.tape.take seq) payload) (hle : seq ≤ s.ghost.tape.length)
    (hlt : seq < 2 ^ 64) :
    wp F (Snapshots.write seq 0 payload)
      (fun _ m' s' => m' = m ∧ ShelfAt Good tip s' ∧ Reaches Good seq s' ∧
        ∀ p, p ≠ seq → s'.disk.get (snapName p) = s.disk.get (snapName p))
      (fun _ m' s' => m' = m ∧ ShelfAt Good tip s' ∧ s'.disk = s.disk ∧
        ∃ f, s.disk.get (snapName seq) = some f) (ShelfCrash Good) m s := by
  have hnofault : ∀ {P : Prop} (k : ℕ), F (.fault k) → P := fun k hk => absurd hk (hF k)
  refine wp_bind (wp_record ?_)
  -- from here on the payload fits, or nothing is promised
  generalize hs₁ : ({ s with ghost := { s.ghost with
    oversize := s.ghost.oversize || decide (2 ^ 32 ≤ payload.length) } } : JStore) = s₁
  have htape : s₁.ghost.tape = s.ghost.tape := by rw [← hs₁]
  have hdisk : s₁.disk = s.disk := by rw [← hs₁]
  have hcases : s₁.ghost.oversize = true ∨ (payload.length < 2 ^ 32 ∧
      Shelved Good (fun n f => Unusable f ∧ n ≤ tip) s₁.ghost.tape s₁.ghost.cutoff (snaps s₁)) := by
    by_cases hbig : 2 ^ 32 ≤ payload.length
    · refine Or.inl ?_
      rw [← hs₁]
      show (s.ghost.oversize || decide (2 ^ 32 ≤ payload.length)) = true
      rw [decide_eq_true hbig, Bool.or_true]
    · rcases h with hover | h
      · refine Or.inl ?_
        rw [← hs₁]
        show (s.ghost.oversize || decide (2 ^ 32 ≤ payload.length)) = true
        rw [hover, Bool.true_or]
      · exact Or.inr ⟨by omega, by rw [← hs₁]; exact h⟩
  have h₁ : ShelfAt Good tip s₁ := hcases.imp_right And.right
  have hfits : payload.length < 2 ^ 32 → Fits Good s₁.ghost.tape seq payload := fun hshort =>
    ⟨htape ▸ hgood, hshort, hlt⟩
  rw [← htape] at hle
  refine wp_bind (wp_io (wp_createNew (fun _ => h₁.crash) hnofault (fun hnone => ?_)
    fun f hf => ⟨rfl, h₁, hdisk, f, by rw [← hdisk]; exact hf⟩))
  -- the new file, with whatever has been written of it
  have hcrash : ∀ {d : Disk FileName} {g : FileData}, d.get (snapName seq) = some g →
      (∀ n, n ≠ seq → d.get (snapName n) = s₁.disk.get (snapName n)) →
      (payload.length < 2 ^ 32 → Unusable g ∨ InFlight Good s₁.ghost.tape seq g) →
      ShelfCrash Good (s₁.withDisk d) := by
    intro d g hself hother hg
    rcases hcases with hover | ⟨hshort, hshelf⟩
    · exact Or.inl hover
    · exact Or.inr (hshelf.add (fun _ _ hok => Or.inl hok.1) hnone hself hother hle
        (Or.inr (hg hshort)))
  have hdone : ∀ {d : Disk FileName}, d.get (snapName seq) = some ⟨snapshotBytes seq 0 payload, []⟩ →
      (∀ n, n ≠ seq → d.get (snapName n) = s₁.disk.get (snapName n)) →
      ShelfAt Good tip (s₁.withDisk d) ∧ Reaches Good seq (s₁.withDisk d) ∧
        ∀ p, p ≠ seq → d.get (snapName p) = s.disk.get (snapName p) := by
    intro d hself hother
    have hrest : ∀ p, p ≠ seq → d.get (snapName p) = s.disk.get (snapName p) := by rwa [hdisk] at hother
    rcases hcases with hover | ⟨hshort, hshelf⟩
    · exact ⟨Or.inl hover, Or.inl hover, hrest⟩
    · have hvalid : Valid Good s₁.ghost.tape seq ⟨snapshotBytes seq 0 payload, []⟩ :=
        ⟨payload, hfits hshort, rfl⟩
      exact ⟨Or.inr (hshelf.add (fun _ _ hok => hok) hnone hself hother hle (Or.inl hvalid)),
        Or.inr ⟨_, hself, hvalid⟩, hrest⟩
  have hput : ∀ {d : Disk FileName} (g : FileData),
      (∀ n, n ≠ seq → d.get (snapName n) = s₁.disk.get (snapName n)) → ∀ n, n ≠ seq →
      (d.put (snapName seq) g).get (snapName n) = s₁.disk.get (snapName n) := by
    intro d g hother n hne
    rw [Disk.get_put_of_ne _ _ (by simpa using Ne.symm hne), hother n hne]
  have hother₁ := hput (d := s₁.disk) ⟨[], []⟩ fun _ _ => rfl
  have hother₂ := hput ⟨[], snapshotBytes seq 0 payload⟩ hother₁
  have hother₃ := hput ⟨snapshotBytes seq 0 payload, []⟩ hother₂
  refine wp_bind (wp_io (wp_writeAll
    (fun _ => hcrash (Disk.get_put_self ..) hother₁ fun _ => Or.inl ⟨rfl, rfl⟩)
    (fun k _ hk => hnofault k hk) (fun e hmissing => ?_) (fun f hf => ?_)))
  · rw [Store.withDisk_disk, Disk.get_put_self] at hmissing
    cases hmissing
  rw [Store.withDisk_disk, Disk.get_put_self] at hf
  cases hf
  refine wp_bind (wp_io (wp_onFile
    (fun _ => hcrash (Disk.get_put_self ..) hother₂ fun hshort =>
      Or.inr ⟨payload, hfits hshort, rfl⟩) hnofault (fun f hf => ?_) (fun hmissing => ?_)))
  · rw [Store.withDisk_disk, Store.withDisk_disk, Disk.get_put_self] at hf
    cases hf
    have hfile := hdone (d := ((s₁.disk.put (snapName seq) ⟨[], []⟩).put (snapName seq)
      ⟨[], snapshotBytes seq 0 payload⟩).put (snapName seq) ⟨snapshotBytes seq 0 payload, []⟩)
      (Disk.get_put_self ..) hother₃
    exact wp_io (wp_syncDir (fun _ => hfile.1.crash) hnofault
      ⟨rfl, hdone (Disk.get_put_self ..) hother₃⟩)
  · rw [Store.withDisk_disk, Store.withDisk_disk, Disk.get_put_self] at hmissing
    cases hmissing

/-! ## Removing -/

/-- `s'` is `s` without some of the snapshots numbered in `l`. -/
structure Thinned (l : List ℕ) (s s' : JStore) : Prop where
  ghost : s'.ghost = s.ghost
  sub : ∀ n f, s'.disk.get (snapName n) = some f → s.disk.get (snapName n) = some f
  keep : ∀ n, n ∉ l → s'.disk.get (snapName n) = s.disk.get (snapName n)

theorem Thinned.refl (l : List ℕ) (s : JStore) : Thinned l s s := ⟨rfl, fun _ _ h => h, fun _ _ => rfl⟩

theorem Thinned.syncDir {l : List ℕ} {s' : JStore} (h : Thinned l s s') :
    Thinned l s (s'.withDisk s'.disk.syncDir) := ⟨h.ghost, h.sub, h.keep⟩

/-- Removing one more. -/
theorem Thinned.cons {l : List ℕ} {k : ℕ} {s' : JStore}
    (h : Thinned l (s.withDisk (s.disk.del (snapName k))) s') : Thinned (k :: l) s s' := by
  have hdel : ∀ n, n ≠ k → (s.disk.del (snapName k)).get (snapName n) = s.disk.get (snapName n) :=
    fun n hne => Disk.get_del_of_ne _ (by simpa using Ne.symm hne)
  refine ⟨h.ghost, fun n f hget => ?_, fun n hn => ?_⟩
  · have hold := h.sub n f hget
    rw [Store.withDisk_disk] at hold
    by_cases heq : n = k
    · rw [heq, Disk.get_del_self] at hold
      cases hold
    · rwa [hdel n heq] at hold
  · obtain ⟨hne, hnot⟩ := not_or.mp (mt List.mem_cons.mpr hn)
    rw [h.keep n hnot, Store.withDisk_disk, hdel n hne]

/-- **The removal loop**: at every point some of the listed snapshots are gone, at the end all. -/
theorem wp_removeAll (hF : ∀ k, ¬F (.fault k)) {l : List ℕ} {Q : Unit → μ → JStore → Prop}
    (hnodup : l.Nodup) (hmem : ∀ n ∈ l, ∃ f, s.disk.get (snapName n) = some f)
    (hC : ∀ s', Thinned l s s' → C s')
    (hQ : ∀ s', Thinned l s s' → (∀ n ∈ l, s'.disk.get (snapName n) = none) → Q () m s') :
    wp F (Snapshots.removeAll l) Q E C m s := by
  induction l generalizing s with
  | nil => exact wp_pure (hQ s (.refl _ _) fun n hn => by cases hn)
  | cons k l ih =>
    obtain ⟨hk, hnodup⟩ := List.nodup_cons.mp hnodup
    refine wp_bind (wp_io (wp_remove (fun _ => hC s (.refl _ _)) (fun i hi => absurd hi (hF i))
      (fun f hf => ?_) fun hnone => ?_))
    · refine ih hnodup (fun n hn => ?_) (fun s' h => hC s' h.cons) fun s' h hgone => ?_
      · have hne : n ≠ k := fun heq => hk (heq ▸ hn)
        rw [Store.withDisk_disk, Disk.get_del_of_ne _ (by simpa using Ne.symm hne)]
        exact hmem n (List.mem_cons_of_mem _ hn)
      · refine hQ s' h.cons fun n hn => ?_
        rcases List.mem_cons.mp hn with rfl | hn
        · rw [h.keep n hk, Store.withDisk_disk, Disk.get_del_self]
        · exact hgone n hn
    · obtain ⟨f, hf⟩ := hmem k (List.mem_cons_self ..)
      rw [hnone] at hf
      cases hf

/-- A whole snapshot reaches `bound` and every cutoff so far. -/
def Covers (Good : List Frame → Bytes → Prop) (bound : ℕ) (s : JStore) : Prop :=
  s.ghost.oversize = true ∨ ∃ p f, s.disk.get (snapName p) = some f ∧ Valid Good s.ghost.tape p f ∧
    s.ghost.cutoff ≤ p ∧ bound ≤ p

theorem Covers.of_le {bound bound' : ℕ} (h : Covers Good bound s) (hle : bound' ≤ bound) :
    Covers Good bound' s :=
  h.imp_right fun ⟨p, f, hget, hvalid, hcut, hp⟩ => ⟨p, f, hget, hvalid, hcut, Nat.le_trans hle hp⟩

/-- Some of the snapshots may go as long as one that covers everything stays. -/
theorem ShelfAt.thinned {l : List ℕ} {s' : JStore} (h : ShelfAt Good tip s) (hthin : Thinned l s s')
    (hcover : s.ghost.oversize = true ∨ s.ghost.cutoff = 0 ∨ ∃ p f, p ∉ l ∧
      s.disk.get (snapName p) = some f ∧ Valid Good s.ghost.tape p f ∧ s.ghost.cutoff ≤ p) :
    ShelfAt Good tip s' := by
  unfold ShelfAt
  rw [hthin.ghost]
  rcases h with hover | h
  · exact Or.inl hover
  rcases hcover with hover | hzero | ⟨p, f, hp, hget, hvalid, hle⟩
  · exact Or.inl hover
  · exact Or.inr (h.sub hthin.sub (Or.inl hzero))
  · exact Or.inr (h.sub hthin.sub (Or.inr ⟨p, f, (hthin.keep p hp).trans hget, hvalid, hle⟩))

/-- The newest snapshot is whole if one of this session is there, and covers everything. -/
theorem Shelved.newest {tape : List Frame} {cutoff : ℕ} {f : FileData}
    (h : Shelved Good (fun n f => Unusable f ∧ n ≤ tip) tape cutoff (snaps s))
    (hget : s.disk.get (snapName seq) = some f) (htip : tip < seq) :
    ∃ init top g, snaps s = init ++ [(top, g)] ∧ Valid Good tape top g ∧ cutoff ≤ top ∧
      ∀ p ∈ init, p.1 < top := by
  have hmem : (seq, f) ∈ snaps s := mem_filesOf.mpr hget
  obtain ⟨init, ⟨top, g⟩, heq⟩ : ∃ init last, snaps s = init ++ [last] := by
    rcases List.eq_nil_or_concat (snaps s) with hnil | ⟨init, last, hlast⟩
    · rw [hnil] at hmem
      cases hmem
    · exact ⟨init, last, by rw [hlast, List.concat_eq_append]⟩
  have hbelow : ∀ p ∈ init, p.1 < top := by
    have hsorted : (snaps s).Pairwise (·.1 < ·.1) := filesOf_sorted
    rw [heq, List.pairwise_append] at hsorted
    exact fun p hp => hsorted.2.2 p hp (top, g) (List.mem_singleton.mpr rfl)
  have hle : ∀ p ∈ snaps s, p.1 ≤ top := by
    rw [heq]
    intro p hp
    rcases List.mem_append.mp hp with hp | hp
    · exact Nat.le_of_lt (hbelow p hp)
    · rw [List.mem_singleton.mp hp]
  have htop : (top, g) ∈ snaps s := by rw [heq]; simp
  refine ⟨init, top, g, heq, ?_, ?_, hbelow⟩
  · refine (h.files top g htop).2.resolve_right fun hold => ?_
    have := hle _ hmem
    have := hold.2
    omega
  · rcases h.cover with hzero | ⟨p, f', hp, -, hcut⟩
    · omega
    · exact Nat.le_trans hcut (hle _ hp)

theorem snaps_names : ((snaps s).map Prod.fst).Nodup := by
  have hsorted : (snaps s).Pairwise (·.1 < ·.1) := filesOf_sorted
  exact List.pairwise_map.mpr (hsorted.imp fun hlt heq => by rw [heq] at hlt; exact Nat.lt_irrefl _ hlt)

theorem get_of_mem_names {n : ℕ} (h : n ∈ (snaps s).map Prod.fst) :
    ∃ f, s.disk.get (snapName n) = some f := by
  obtain ⟨⟨n', f⟩, hmem, rfl⟩ := List.mem_map.mp h
  exact ⟨f, mem_filesOf.mp hmem⟩

/-- **Pruning** adds nothing and keeps the newest snapshot, which covers everything; it returns one it keeps. -/
theorem wp_pruneKeepNewest (hF : ∀ k, ¬F (.fault k)) (keep : ℕ) (h : ShelfAt Good tip s)
    (hreach : Reaches Good seq s) (htip : tip < seq) :
    wp F (Snapshots.pruneKeepNewest keep) (fun o m' s' => m' = m ∧ s'.ghost = s.ghost ∧
        ShelfAt Good tip s' ∧ (∀ oldest, o = some oldest → Covers Good oldest s') ∧
        ∀ p f, s'.disk.get (snapName p) = some f → s.disk.get (snapName p) = some f) E
      (ShelfCrash Good) m s := by
  have hnofault : ∀ {P : Prop} (k : ℕ), F (.fault k) → P := fun k hk => absurd hk (hF k)
  refine wp_bind (wp_io (wp_listDir (fun _ => h.crash) hnofault ?_))
  simp only [sortedNumbers_names]
  -- the newest snapshot, which is not among those that go
  have hcover : s.ghost.oversize = true ∨ ∃ top g,
      top ∉ ((snaps s).map Prod.fst).take (((snaps s).map Prod.fst).length - max keep 1) ∧
      s.disk.get (snapName top) = some g ∧ Valid Good s.ghost.tape top g ∧ s.ghost.cutoff ≤ top ∧
      ∀ n ∈ (snaps s).map Prod.fst, n ≤ top := by
    rcases h with hover | h
    · exact Or.inl hover
    rcases hreach with hover | ⟨f, hget, -⟩
    · exact Or.inl hover
    obtain ⟨init, top, g, heq, hvalid, hcut, hbelow⟩ := h.newest hget htip
    refine Or.inr ⟨top, g, fun hmem => ?_, ?_, hvalid, hcut, ?_⟩
    · rw [heq, List.map_append, List.take_append_of_le_length (by simp)] at hmem
      obtain ⟨p, hp, hptop⟩ := List.mem_map.mp (List.mem_of_mem_take hmem)
      exact absurd hptop (Nat.ne_of_lt (hbelow p hp))
    · exact mem_filesOf.mp (show (top, g) ∈ snaps s by rw [heq]; simp)
    · rw [heq]
      intro n hn
      obtain ⟨p, hp, rfl⟩ := List.mem_map.mp hn
      rcases List.mem_append.mp hp with hp | hp
      · exact Nat.le_of_lt (hbelow p hp)
      · rw [List.mem_singleton.mp hp]
  have hshelf : ∀ {s' : JStore}, Thinned
      (((snaps s).map Prod.fst).take (((snaps s).map Prod.fst).length - max keep 1)) s s' →
      ShelfAt Good tip s' ∧ ∀ oldest ∈ (snaps s).map Prod.fst, Covers Good oldest s' := by
    intro s' hthin
    refine ⟨h.thinned hthin (hcover.imp_right fun hcov => Or.inr ?_), fun oldest hmem => ?_⟩
    · obtain ⟨top, g, hstay, hget, hvalid, hcut, -⟩ := hcov
      exact ⟨top, g, hstay, hget, hvalid, hcut⟩
    · unfold Covers
      rw [hthin.ghost]
      refine hcover.imp_right fun hcov => ?_
      obtain ⟨top, g, hstay, hget, hvalid, hcut, hmax⟩ := hcov
      exact ⟨top, g, (hthin.keep top hstay).trans hget, hvalid, hcut, hmax oldest hmem⟩
  split
  · refine wp_bind (wp_removeAll hF (snaps_names.sublist (List.take_sublist ..))
      (fun n hn => get_of_mem_names (List.mem_of_mem_take hn))
      (fun s' hthin => (hshelf hthin).1.crash) fun s' hthin _ => ?_)
    refine wp_bind (wp_io (wp_syncDir (fun _ => (hshelf hthin).1.crash) hnofault ?_))
    refine wp_pure ⟨rfl, hthin.ghost, (hshelf hthin.syncDir).1, fun oldest holdest => ?_, hthin.syncDir.sub⟩
    exact (hshelf hthin.syncDir).2 oldest (List.mem_of_getElem? holdest)
  · exact wp_pure ⟨rfl, rfl, h, fun oldest holdest =>
      (hshelf (.refl _ s)).2 oldest (List.mem_of_head? holdest), fun _ _ hget => hget⟩

/-- **Purging** takes away exactly the snapshots above `bound`. -/
theorem wp_purgeAfter (hF : ∀ k, ¬F (.fault k)) (bound : ℕ) {Q : Unit → μ → JStore → Prop}
    (hC : ∀ l s', (∀ n ∈ l, bound < n) → Thinned l s s' → C s')
    (hQ : ∀ l s', (∀ n ∈ l, bound < n) → Thinned l s s' →
      (∀ n f, s'.disk.get (snapName n) = some f → n ≤ bound) → Q () m s') :
    wp F (Snapshots.purgeAfter bound) Q E C m s := by
  have hnofault : ∀ {P : Prop} (k : ℕ), F (.fault k) → P := fun k hk => absurd hk (hF k)
  have hnumbers : ∀ n, n ∈ s.disk.names.filterMap (·.number .snap) ↔
      ∃ f, s.disk.get (snapName n) = some f := by
    intro n
    rw [List.mem_filterMap]
    constructor
    · rintro ⟨k, hk, hnum⟩
      rw [FileName.number_eq_some] at hnum
      rw [hnum] at hk
      exact Disk.mem_names.mp hk
    · exact fun hf => ⟨_, Disk.mem_names.mpr hf, FileName.number_eq_some.mpr rfl⟩
  refine wp_bind (wp_io (wp_listDir (fun _ => hC [] s (fun n hn => by cases hn) (.refl _ _)) hnofault ?_))
  have habove : ∀ n ∈ (s.disk.names.filterMap (·.number .snap)).filter (· > bound), bound < n :=
    fun n hn => by simpa using (List.mem_filter.mp hn).2
  refine wp_bind (wp_removeAll hF ?_ ?_ (fun s' hthin => hC _ s' habove hthin) fun s' hthin hgone => ?_)
  · refine (List.Nodup.filterMap ?_ (Disk.names_nodup _)).filter _
    intro a b n ha hb
    rw [Option.mem_def, FileName.number_eq_some] at ha hb
    rw [ha, hb]
  · exact fun n hn => (hnumbers n).mp (List.mem_filter.mp hn).1
  · refine wp_io (wp_syncDir (fun _ => hC _ s' habove hthin) hnofault
      (hQ _ _ habove hthin.syncDir fun n f hget => ?_))
    refine Nat.le_of_not_lt fun hlt => ?_
    have hnone := hgone n (List.mem_filter.mpr
      ⟨(hnumbers n).mpr ⟨f, hthin.sub n f hget⟩, decide_eq_true hlt⟩)
    rw [Store.withDisk_disk, Disk.get_syncDir, hnone] at hget
    cases hget

/-! ## Loading -/

/-- What recovery loads of a snapshot file. -/
def loadable (maxSeq : ℕ) (p : ℕ × FileData) : Option LoadedSnapshot :=
  (parseSnapshot p.2.combined).filter (·.seq ≤ maxSeq)

/-- `high` is the least number that no snapshot file exceeds. -/
structure HighWater (high : ℕ) (s : JStore) : Prop where
  above : ∀ p ∈ snaps s, p.1 ≤ high
  least : ∀ b, Topped b s → high ≤ b

theorem wp_highWaterSeq (hF : ∀ k, ¬F (.fault k)) {Q : ℕ → μ → JStore → Prop} (hcut : F .cut → C s)
    (hQ : ∀ high, HighWater high s → Q high m s) : wp F Snapshots.highWaterSeq Q E C m s := by
  refine wp_bind (wp_io (wp_listDir hcut (fun k hk => absurd hk (hF k)) (wp_pure (hQ _ ⟨fun p hp => ?_,
    fun b hb => foldl_max_le (Nat.zero_le _) fun n hn => ?_⟩))))
  · refine le_foldl_max_of_mem (List.mem_filterMap.mpr ⟨snapName p.1, ?_, ?_⟩)
    · exact Disk.mem_names.mpr ⟨p.2, mem_filesOf.mp hp⟩
    · exact FileName.number_eq_some.mpr rfl
  · obtain ⟨k, hk, hnumber⟩ := List.mem_filterMap.mp hn
    obtain ⟨f, hf⟩ := Disk.mem_names.mp hk
    rw [FileName.number_eq_some.mp hnumber] at hf
    exact hb n f hf

theorem wp_loadAll (hF : ∀ k, ¬F (.fault k)) (maxSeq : ℕ) {l : List (ℕ × FileData)}
    {Q : List LoadedSnapshot → μ → JStore → Prop}
    (hget : ∀ p ∈ l, s.disk.get (snapName p.1) = some p.2) (hcut : F .cut → C s)
    (hQ : Q (l.filterMap (loadable maxSeq)) m s) :
    wp F (Snapshots.loadAll maxSeq (l.map Prod.fst)) Q E C m s := by
  induction l generalizing Q with
  | nil => exact wp_pure hQ
  | cons p l ih =>
    obtain ⟨n, f⟩ := p
    have hf := hget (n, f) (List.mem_cons_self ..)
    refine wp_bind (wp_attempt (wp_ofFile hcut (fun k hk => absurd hk (hF k)) (fun f' hf' => ?_)
      fun hnone => by rw [hf] at hnone; cases hnone))
    obtain rfl : f = f' := Option.some.inj (hf.symm.trans hf')
    refine wp_bind (ih (fun p hp => hget p (List.mem_cons_of_mem _ hp)) ?_)
    rw [List.filterMap_cons] at hQ
    simp only [loadable] at hQ ⊢
    generalize parseSnapshot f.combined = parsed at hQ ⊢
    cases parsed with
    | none => exact wp_pure hQ
    | some snap =>
      simp only [Option.filter_some, decide_eq_true_eq] at hQ ⊢
      by_cases hle : snap.seq ≤ maxSeq
      · simp only [hle, if_true] at hQ ⊢
        exact wp_pure hQ
      · simp only [hle, if_false] at hQ ⊢
        exact wp_pure hQ

/-- **Loading** returns what parses, newest first, and changes nothing. -/
theorem wp_loadCandidates (hF : ∀ k, ¬F (.fault k)) (maxSeq : ℕ)
    {Q : List LoadedSnapshot → μ → JStore → Prop} (hcut : F .cut → C s)
    (hQ : Q ((snaps s).reverse.filterMap (loadable maxSeq)) m s) :
    wp F (Snapshots.loadCandidates maxSeq) Q E C m s := by
  refine wp_bind (wp_io (wp_listDir hcut (fun k hk => absurd hk (hF k)) ?_))
  rw [sortedNumbers_names, ← List.map_reverse]
  exact wp_loadAll hF maxSeq (fun p hp => mem_filesOf.mp (List.mem_reverse.mp hp)) hcut hQ

end Ops

section Candidates

variable {l : List (ℕ × FileData)} {tip cutoff maxSeq : ℕ}

/-- What is loaded of a shelf is whole. -/
theorem Shelved.of_candidate (h : Shelved Good (fun n f => Unusable f ∧ n ≤ tip) tape cutoff l)
    {c : LoadedSnapshot} (hc : c ∈ l.reverse.filterMap (loadable maxSeq)) :
    Fits Good tape c.seq c.payload ∧ ∃ f, (c.seq, f) ∈ l ∧ Valid Good tape c.seq f := by
  obtain ⟨⟨n, f⟩, hmem, hload⟩ := List.mem_filterMap.mp hc
  have hmem := List.mem_reverse.mp hmem
  obtain ⟨hparse, -⟩ := Option.filter_eq_some_iff.mp hload
  rcases (h.files n f hmem).2 with hvalid | hunusable
  · obtain ⟨payload, hfits, hparse'⟩ := hvalid.parse
    obtain rfl : _ = c := Option.some.inj (hparse'.symm.trans hparse)
    exact ⟨hfits, f, hmem, hvalid⟩
  · rw [hunusable.1.2] at hparse
    cases hparse

/-- Whatever is whole is loaded. -/
theorem Valid.candidate {f : FileData} (h : Valid Good tape n f) (hmem : (n, f) ∈ l)
    (hle : n ≤ maxSeq) : ∃ payload, Fits Good tape n payload ∧
      ⟨n, 0, payload⟩ ∈ l.reverse.filterMap (loadable maxSeq) := by
  obtain ⟨payload, hfits, hparse⟩ := h.parse
  refine ⟨payload, hfits, List.mem_filterMap.mpr ⟨(n, f), List.mem_reverse.mpr hmem, ?_⟩⟩
  exact Option.filter_eq_some_iff.mpr ⟨hparse, decide_eq_true hle⟩

/-- Candidates come newest first. -/
theorem Shelved.candidates_sorted (h : Shelved Good (fun n f => Unusable f ∧ n ≤ tip) tape cutoff l)
    (hl : l.Pairwise (·.1 < ·.1)) :
    (l.reverse.filterMap (loadable maxSeq)).Pairwise (·.seq > ·.seq) := by
  rw [List.pairwise_filterMap]
  refine (List.pairwise_reverse.mpr hl).imp_of_mem ?_
  rintro ⟨n, f⟩ ⟨n', f'⟩ hmem hmem' hlt c hc c' hc'
  -- the seq in a whole file is the number in its name
  have hseq : ∀ {n f c}, (n, f) ∈ l.reverse → loadable maxSeq (n, f) = some c → c.seq = n := by
    intro n f c hmem hload
    obtain ⟨hparse, -⟩ := Option.filter_eq_some_iff.mp hload
    rcases (h.files n f (List.mem_reverse.mp hmem)).2 with hvalid | hunusable
    · obtain ⟨payload, -, hparse'⟩ := hvalid.parse
      rw [← Option.some.inj (hparse'.symm.trans hparse)]
    · rw [hunusable.1.2] at hparse
      cases hparse
  rw [hseq hmem hc, hseq hmem' hc']
  exact hlt

end Candidates

end Ticktape.Journal
