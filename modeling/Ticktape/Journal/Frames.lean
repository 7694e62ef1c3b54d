import Ticktape.Journal.Snapshot
import Ticktape.Journal.Ops

/-!
# Frame conditions

Journal operations leave the snapshot files alone, and snapshot operations leave the segments
alone. Both facts are stated for any store predicate that cannot see the other part, so that a
caller gets exactly the frame it needs.
-/

namespace Ticktape.Journal

open Ticktape.Lib Ticktape.Core

variable {μ : Type} {F : Fate → Prop} {I : JStore → Prop}

theorem keeps_io {α : Type} {p : Io μ History α} (h : Keeps F I p) : Keeps F I (io p) :=
  keeps_mapErr h

theorem keeps_record {ε : Type} {f : History → History}
    (h : ∀ s, I s → I { s with ghost := f s.ghost }) :
    Keeps F I (record f : Prog μ JStore ε Unit) := keeps_note h

theorem keeps_nextSeq {ε : Type} (n : ℕ) : Keeps F I (nextSeq n : Prog μ JStore ε ℕ) := by
  unfold nextSeq
  split
  · exact keeps_pure _
  · exact keeps_panic

/-- `I` cannot see a change to files with extension `e`. -/
def BlindTo (e : Ext) (I : JStore → Prop) : Prop :=
  ∀ (s : JStore) (d : Disk FileName), I s →
    (∀ k, (∀ n, k ≠ .numbered e n) → d.get k = s.disk.get k) → I (s.withDisk d)

theorem onFile_get_of_ne {e : Ext} {n : ℕ} {g : FileData → FileData} {d : Disk FileName}
    {k : FileName} (hk : ∀ m, k ≠ .numbered e m) :
    (Disk.onFile (.numbered e n) g d).2.get k = d.get k := by
  unfold Disk.onFile
  split
  · exact Disk.get_put_of_ne _ _ (Ne.symm (hk n))
  · rfl

section Calls

variable {e : Ext} (hI : BlindTo e I) (n : ℕ)
include hI

/-- A call that touches only files with extension `e`. -/
theorem keeps_diskCall {α : Type} {act : Disk FileName → Except IoError α × Disk FileName}
    (h : ∀ d k, (∀ m, k ≠ .numbered e m) → (act d).2.get k = d.get k) :
    Keeps F I (diskCall act : Io μ History α) :=
  keeps_call (fun _ _ hs => hs) fun s hs => hI s _ hs fun k hk => h _ k hk

theorem keeps_listDir : Keeps F I (listDir : Io μ History _) := keeps_diskCall hI fun _ _ _ => rfl

theorem keeps_createDirAll : Keeps F I (createDirAll : Io μ History _) :=
  keeps_diskCall hI fun _ _ _ => rfl

theorem keeps_syncDir : Keeps F I (syncDir : Io μ History _) := keeps_diskCall hI fun _ _ _ => rfl

theorem keeps_ofFile {α : Type} (k : FileName) (g : FileData → α) :
    Keeps F I (diskCall (Disk.ofFile k g) : Io μ History α) := by
  refine keeps_diskCall hI fun d k' _ => ?_
  unfold Disk.ofFile
  split <;> rfl

theorem keeps_onFile (g : FileData → FileData) :
    Keeps F I (diskCall (Disk.onFile (.numbered e n) g) : Io μ History Unit) :=
  keeps_diskCall hI fun _ _ hk => onFile_get_of_ne hk

theorem keeps_writeAll (buf : Bytes) :
    Keeps F I (writeAll (.numbered e n) buf : Io μ History Unit) :=
  keeps_call (fun _ s hs => hI s _ hs fun _ hk => onFile_get_of_ne hk)
    fun s hs => hI s _ hs fun _ hk => onFile_get_of_ne hk

theorem keeps_createNew : Keeps F I (createNew (.numbered e n) : Io μ History Unit) := by
  refine keeps_diskCall hI fun d k hk => ?_
  unfold Disk.createNew
  split
  · rfl
  · exact Disk.get_put_of_ne _ _ (Ne.symm (hk n))

theorem keeps_remove : Keeps F I (remove (.numbered e n) : Io μ History Unit) := by
  refine keeps_diskCall hI fun d k hk => ?_
  unfold Disk.remove
  split
  · exact Disk.get_del_of_ne _ (Ne.symm (hk n))
  · rfl

end Calls

/-! ## Appending -/

/-- `I` survives what appending does to the disk: segment files are created and written, never removed. -/
structure AppendStable (I : JStore → Prop) : Prop where
  put : ∀ s n f, I s → I (s.withDisk (s.disk.put (segName n) f))
  dir : ∀ s, I s → I (s.withDisk s.disk.syncDir)
  durable : ∀ s n, I s → I { s with ghost := { s.ghost with durable := n } }
  window : ∀ s w, I s → I { s with ghost := { s.ghost with window := w } }

/-- `I` survives the frames being recorded. -/
def TapeStable (I : JStore → Prop) (frames : List Frame) : Prop :=
  ∀ s, I s → I { s with ghost := { s.ghost with tape := s.ghost.tape ++ frames } }

namespace AppendStable

variable (hI : AppendStable I)
include hI

theorem onFile (n : ℕ) (g : FileData → FileData) :
    Keeps F I (diskCall (Disk.onFile (segName n) g) : Io μ History Unit) := fun _ _ h =>
  wp_onFile (fun _ => h) (fun _ _ => h) (fun _ _ => hI.put _ n _ h) (fun _ => h)

theorem flush : Keeps F I flush := by
  refine keeps_bind keeps_mem fun j => ?_
  cases j.current with
  | none => exact keeps_pure _
  | some c => exact keeps_when (keeps_bind (keeps_io (hI.onFile _ _)) fun _ => keeps_update _)

theorem sync : Keeps F I sync :=
  keeps_bind hI.flush fun _ => keeps_bind keeps_instant fun _ => keeps_bind (keeps_update _) fun _ =>
    keeps_bind keeps_mem fun _ => keeps_record fun s => hI.durable s _

theorem maybeSync : Keeps F I maybeSync := by
  refine keeps_bind keeps_mem fun j => ?_
  cases j.config.fsync with
  | everyFrame => exact hI.sync
  | micros window => exact keeps_bind keeps_instant fun _ => keeps_when hI.sync
  | never => exact keeps_pure _

theorem writeAll (n : ℕ) (buf : Bytes) : Keeps F I (writeAll (segName n) buf : Io μ History Unit) := fun _ _ h =>
  wp_writeAll (fun _ => h) (fun _ _ _ _ => hI.put _ n _ h) (fun _ _ => h) (fun _ _ => hI.put _ n _ h)

theorem createNew (n : ℕ) : Keeps F I (createNew (segName n) : Io μ History Unit) := fun _ _ h =>
  wp_createNew (fun _ => h) (fun _ _ => h) (fun _ => hI.put _ n _ h) (fun _ _ => h)

theorem syncDir : Keeps F I (syncDir : Io μ History Unit) := fun _ _ h =>
  wp_syncDir (fun _ => h) (fun _ _ => h) (hI.dir _ h)

theorem startSegment (a : ℕ) (during after : Window) : Keeps F I (startSegment a during after) :=
  keeps_bind keeps_mem fun _ => keeps_bind (keeps_io (hI.createNew _)) fun _ =>
    keeps_bind (keeps_record fun s => hI.window s _) fun _ =>
    keeps_bind (keeps_io (hI.writeAll _ _)) fun _ => keeps_bind (keeps_io (hI.onFile _ _)) fun _ =>
    keeps_bind (keeps_record fun s => hI.window s _) fun _ => keeps_bind (keeps_io hI.syncDir) fun _ =>
    keeps_update _

theorem writeFrames {frames : List Frame} (hframes : TapeStable I frames) (first last len : ℕ) :
    Keeps F I (writeFrames frames first last len) := by
  refine keeps_bind keeps_mem fun j => ?_
  refine keeps_bind (keeps_when (keeps_bind hI.sync fun _ => hI.startSegment _ _ _)) fun _ => ?_
  refine keeps_bind keeps_mem fun j => ?_
  cases j.current with
  | none => exact keeps_panic
  | some c =>
    exact keeps_bind (keeps_io (hI.writeAll _ _)) fun _ => keeps_bind (keeps_record hframes) fun _ =>
      keeps_bind (keeps_update _) fun _ => hI.maybeSync

theorem append {frame : Frame} (hframe : TapeStable I [frame]) : Keeps F I (append frame) := by
  refine keeps_bind keeps_mem fun j => keeps_bind (keeps_nextSeq _) fun expected => ?_
  split
  · exact keeps_fail _
  · exact hI.writeFrames hframe _ _ _

omit hI in
theorem checkBatch (expected : ℕ) (frames : List Frame) : Keeps F I (checkBatch expected frames) := by
  induction frames generalizing expected with
  | nil => exact keeps_pure _
  | cons f fs ih =>
    rw [Journal.checkBatch]
    split
    · exact keeps_fail _
    · exact keeps_bind (keeps_nextSeq _) fun next => ih next

theorem appendBatch {frames : List Frame} (hframes : TapeStable I frames) :
    Keeps F I (appendBatch frames) := by
  cases frames with
  | nil => exact keeps_pure _
  | cons f fs =>
    exact keeps_bind keeps_mem fun j => keeps_bind (keeps_nextSeq _) fun expected =>
      keeps_bind (checkBatch _ _) fun _ => hI.writeFrames hframes _ _ _

end AppendStable

/-! ## Journal operations -/

/-- `I` sees neither segments nor the history the appending operations record. -/
structure JStable (I : JStore → Prop) : Prop where
  disk : BlindTo .seg I
  durable : ∀ s n, I s → I { s with ghost := { s.ghost with durable := n } }
  window : ∀ s w, I s → I { s with ghost := { s.ghost with window := w } }

namespace JStable

variable (hI : JStable I)
include hI

theorem appending : AppendStable I where
  put := fun s _ _ h => hI.disk s _ h fun _ hk => Disk.get_put_of_ne _ _ (Ne.symm (hk _))
  dir := fun s h => hI.disk s _ h fun _ _ => rfl
  durable := hI.durable
  window := hI.window

theorem removeBelow (bound : ℕ) (l : List ℕ) : Keeps F I (removeBelow bound l) := by
  induction l with
  | nil => exact keeps_pure _
  | cons a l ih =>
    cases l with
    | nil => exact keeps_pure _
    | cons b l =>
      rw [Journal.removeBelow]
      split
      · exact keeps_bind (keeps_io (keeps_remove hI.disk _)) fun _ => keeps_bind ih fun _ =>
          keeps_pure _
      · exact keeps_pure _

theorem compactBelow (cutoff : ℕ)
    (hcut : ∀ s, I s → I { s with ghost := { s.ghost with cutoff := max s.ghost.cutoff cutoff } }) :
    Keeps F I (compactBelow cutoff) := by
  refine keeps_bind (keeps_record hcut) fun _ => ?_
  refine keeps_bind (keeps_io (keeps_listDir hI.disk)) fun names => ?_
  split
  · exact keeps_pure _
  · exact keeps_bind (keeps_nextSeq _) fun _ => keeps_bind (hI.removeBelow _ _) fun _ =>
      keeps_bind (keeps_when (keeps_io (keeps_syncDir hI.disk))) fun _ => keeps_pure _

theorem reseatTo (n : ℕ)
    (hcut : ∀ s, I s → I { s with ghost := { s.ghost with cutoff := max s.ghost.cutoff (n - 1) } }) :
    Keeps F I (reseatTo n) :=
  keeps_bind (keeps_record hcut) fun _ => keeps_bind hI.appending.sync fun _ =>
    keeps_bind (hI.appending.startSegment _ _ _) fun _ => keeps_bind (keeps_update _) fun _ =>
    keeps_bind (hI.compactBelow _ hcut) fun _ => keeps_record fun s => hI.window s _

theorem endSegment (isLast : Bool) (first len : ℕ) (epoch : UInt64) (acc : Scan)
    (res : List Frame × ℕ × ScanEnd) :
    Keeps F I (endSegment isLast first len epoch acc res : Prog μ JStore JournalError Scan) := by
  rcases res with ⟨frames, next, _ | ⟨err, left⟩ | found | _⟩
  · exact keeps_pure _
  · rw [Journal.endSegment]
    split
    · exact keeps_bind (keeps_io (keeps_onFile hI.disk _ _)) fun _ => keeps_pure _
    · exact keeps_fail _
  · exact keeps_fail _
  · exact keeps_panic

theorem scanSegment (isFirst isLast : Bool) (first : ℕ) (acc : Scan) :
    Keeps F I (scanSegment isFirst isLast first acc : Prog μ JStore JournalError Scan) := by
  refine keeps_bind (keeps_io (keeps_ofFile hI.disk _ _)) fun bytes => ?_
  refine keeps_bind (keeps_ofExcept _) fun header => ?_
  simp only
  generalize (if isFirst = true then header.firstSeq else acc.expectedNext) = expected
  by_cases h : header.firstSeq ≠ expected
  · rw [if_pos h]
    exact keeps_fail _
  · rw [if_neg h]
    exact hI.endSegment _ _ _ _ _ _

theorem scanSegments (isFirst : Bool) (l : List ℕ) (acc : Scan) :
    Keeps F I (scanSegments isFirst l acc : Prog μ JStore JournalError Scan) := by
  induction l generalizing isFirst acc with
  | nil => exact keeps_pure _
  | cons a l ih =>
    cases l with
    | nil => exact hI.scanSegment _ _ _ _
    | cons b l => exact keeps_bind (hI.scanSegment _ _ _ _) fun acc => ih _ _

theorem openWith (config : JournalConfig) :
    Keeps F I (openWith config : Prog μ JStore JournalError Recovered) := by
  refine keeps_bind (keeps_io (keeps_createDirAll hI.disk)) fun _ => ?_
  refine keeps_bind (keeps_io (keeps_listDir hI.disk)) fun names => ?_
  refine keeps_bind (hI.scanSegments _ _ _) fun acc => ?_
  refine keeps_bind ?_ fun _ => keeps_bind keeps_instant fun _ =>
    keeps_bind (keeps_record fun s => hI.window s _) fun _ => keeps_pure _
  unfold reopenLast
  split
  · exact keeps_pure _
  · exact keeps_bind (keeps_io (keeps_ofFile hI.disk _ _)) fun _ =>
      keeps_bind (keeps_io (keeps_ofFile hI.disk _ _)) fun _ => keeps_pure _

end JStable

/-! ## Snapshot operations -/

/-- `I` sees neither snapshot files nor the history that writing one records. -/
structure SStable (I : JStore → Prop) : Prop where
  disk : BlindTo .snap I
  oversize : ∀ s b, I s → I { s with ghost := { s.ghost with oversize := b } }

namespace SStable

variable (hI : SStable I)
include hI

theorem write (seq epoch : ℕ) (payload : Bytes) :
    Keeps F I (Snapshots.write seq epoch payload : Prog μ JStore JournalError Unit) :=
  keeps_bind (keeps_record fun s => hI.oversize s _) fun _ =>
    keeps_bind (keeps_io (keeps_createNew hI.disk _)) fun _ =>
    keeps_bind (keeps_io (keeps_writeAll hI.disk _ _)) fun _ =>
    keeps_bind (keeps_io (keeps_onFile hI.disk _ _)) fun _ => keeps_io (keeps_syncDir hI.disk)

theorem removeAll (l : List ℕ) :
    Keeps F I (Snapshots.removeAll l : Prog μ JStore JournalError Unit) := by
  induction l with
  | nil => exact keeps_pure _
  | cons n l ih => exact keeps_bind (keeps_io (keeps_remove hI.disk _)) fun _ => ih

theorem purgeAfter (maxSeq : ℕ) :
    Keeps F I (Snapshots.purgeAfter maxSeq : Prog μ JStore JournalError Unit) :=
  keeps_bind (keeps_io (keeps_listDir hI.disk)) fun _ => keeps_bind (hI.removeAll _) fun _ =>
    keeps_io (keeps_syncDir hI.disk)

theorem pruneKeepNewest (keep : ℕ) :
    Keeps F I (Snapshots.pruneKeepNewest keep : Prog μ JStore JournalError (Option ℕ)) := by
  refine keeps_bind (keeps_io (keeps_listDir hI.disk)) fun names => ?_
  simp only
  split
  · exact keeps_bind (hI.removeAll _) fun _ => keeps_bind (keeps_io (keeps_syncDir hI.disk)) fun _ =>
      keeps_pure _
  · exact keeps_pure _

end SStable

/-- Segments, and what history says of them, do not see snapshot files. -/
theorem blindTo_snap {G : List (ℕ × FileData) → History → Prop} :
    BlindTo .snap fun s => G (segs s) s.ghost := by
  intro s d h hd
  have hsegs : segs (s.withDisk d) = segs s :=
    filesOf_congr fun n => hd (segName n) fun m heq => by cases heq
  show G (segs (s.withDisk d)) s.ghost
  rw [hsegs]
  exact h

/-- The journal invariant does not see snapshot files. -/
theorem JInv.sstable (t tape : List Frame) (j : Journal) (cutoff : ℕ) : SStable fun s =>
    JInv t j s ∧ s.ghost.tape = tape ∧ s.ghost.cutoff = cutoff where
  disk := by
    intro s d h hd
    have hsegs : segs (s.withDisk d) = segs s :=
      filesOf_congr fun n => hd (segName n) fun m heq => by cases heq
    refine ⟨⟨h.1.run, h.1.part, h.1.last, ?_⟩, h.2⟩
    have hholds := h.1.holds
    unfold Holds at hholds ⊢
    rw [hsegs]
    exact hholds
  oversize := fun s b h => ⟨⟨h.1.run, h.1.part, h.1.last, h.1.holds⟩, h.2⟩

end Ticktape.Journal
