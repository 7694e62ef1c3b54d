import Ticktape.Lib.Pointwise
import Ticktape.Journal.Writable

/-!
# Failed writes and retries

A failed append leaves `last_seq` and the open segment as they were, and is meant to be tried again. What it may
have left in the directory is not cleared: the first bytes of its frames, behind which a retry writes, or the file
of the segment it was rolling to. Opening then takes the frames behind the damage for a torn tail, or refuses the
directory. As long as nothing is appended to such a directory, and no header is torn, no acknowledged frame is
lost, however many calls fail.
-/

namespace Ticktape.Journal

open Ticktape.Lib Ticktape.Core

/-! ## Runs -/

/-- What is asked of the journal. -/
inductive Request where
  | write (call : Write)
  | sync

def Request.run : Request → JProg Unit
  | .write call => call.run
  | .sync => Journal.sync

/-- The frames that a successful request acknowledges. -/
def Request.frames : Request → List Frame
  | .write call => call.frames
  | .sync => []

/-- The open segment is the newest one, and its file is as long as the writer counts. -/
def Clean (j : Journal) (s : JStore) : Prop :=
  match j.current with
  | none => segs s = []
  | some c => ∃ pre f, segs s = pre ++ [(c.file, f)] ∧ f.combined.length = c.size

/-- How many storage calls a sync makes. -/
def syncCalls (j : Journal) : ℕ :=
  match j.current with
  | none => 0
  | some _ => if j.dirty then 1 else 0

/-- **The condition on a request**: frames are written behind frames, a failing write of a segment header has
written all of it, and the largest seq is not used. The header is written by the second call behind the sync. -/
def Request.Safe (j : Journal) (w : World JStore) : Request → Prop
  | .write call => call.frames ≠ [] → SeqRun (j.lastSeq + 1) call.frames →
      Clean j w.st ∧ j.lastSeq + call.frames.length + 1 < 2 ^ 64 ∧
      (j.needsRoll (encodeAll call.frames).length = true →
        ∀ kept, w.fates[syncCalls j + 1]? = some (.fault kept) → SEGMENT_HEADER_LEN ≤ kept)
  | .sync => True

/-- A directory whose bytes are on disk and whose segments can be read. -/
def Readable (s : JStore) : Prop :=
  Settled s ∧ (segs s = [] ∨ ∃ t pre a f q, SeqRun 1 t ∧ ReadsAs s t pre a f q ∧
    (q = [] ∨ ∃ e, Frame.readFrom q = .error e))

/-- The runs of one process on a journal, with every frame that was acknowledged since it was opened. `G` is what
every request has to meet; calls may fail in any way, and nothing loses power. -/
inductive Course (G : Journal → World JStore → Request → Prop) : Journal → JStore → List Frame → Prop where
  | opened {w w' : World JStore} {r : Recovered} (config : JournalConfig) : Readable w.st → w.Benign →
      openWith config () w = .ok r () w' → Course G r.journal w'.st []
  | done {w w' : World JStore} {j j' : Journal} {acked : List Frame} (request : Request) :
      Course G j w.st acked → G j w request → request.run j w = .ok () j' w' →
      Course G j' w'.st (acked ++ request.frames)
  | failed {w w' : World JStore} {j j' : Journal} {acked : List Frame} {e : JournalError} (request : Request) :
      Course G j w.st acked → G j w request → request.run j w = .err e j' w' → Course G j' w'.st acked

/-! ## What a sync does -/

/-- The effect of a sync on the directory. -/
inductive SyncedAs (j : Journal) (s : JStore) (j' : Journal) (s' : JStore) : Prop where
  | synced {c : OpenSegment} {f : FileData} : j.current = some c → s.disk.get (segName c.file) = some f →
      s'.disk = s.disk.put (segName c.file) f.sync → SyncedAs j s j' s'
  | skipped : (j.current ≠ none → j.dirty = false) → s'.disk = s.disk → SyncedAs j s j' s'

section Calls

variable {E : IoError → Journal → World JStore → Prop} {j : Journal} {w : World JStore}

/-- A call on the directory that leaves nothing behind when it is struck. -/
theorem wpAt_diskCall {α : Type} {act : Disk FileName → Except IoError α × Disk FileName}
    {Q : α → Journal → World JStore → Prop} (hfault : E .injected j { w with fates := w.fates.drop 1 })
    (hok : ∀ a d, act w.st.disk = (.ok a, d) → Q a j { w with st := w.st.withDisk d, fates := w.fates.drop 1 })
    (herr : ∀ e d, act w.st.disk = (.error e, d) →
      E e j { w with st := w.st.withDisk d, fates := w.fates.drop 1 }) : wpAt (diskCall act) Q E j w := by
  apply wpAt_call
  · exact fun _ _ => hfault
  · intro a s' h
    obtain ⟨h₁, rfl⟩ := Prod.mk.inj h
    exact hok a _ (Prod.ext h₁ rfl)
  · intro e s' h
    obtain ⟨h₁, rfl⟩ := Prod.mk.inj h
    exact herr e _ (Prod.ext h₁ rfl)

theorem wpAt_onFile {k : FileName} {g : FileData → FileData} {Q : Unit → Journal → World JStore → Prop}
    (hfault : E .injected j { w with fates := w.fates.drop 1 })
    (hok : ∀ f, w.st.disk.get k = some f →
      Q () j { w with st := w.st.withDisk (w.st.disk.put k (g f)), fates := w.fates.drop 1 })
    (herr : E .notFound j { w with fates := w.fates.drop 1 }) :
    wpAt (diskCall (Disk.onFile k g)) Q E j w := by
  apply wpAt_diskCall hfault
  · intro _ d h
    unfold Disk.onFile at h
    cases hget : w.st.disk.get k with
    | none => simp [hget] at h
    | some f =>
      simp only [hget] at h
      cases h
      exact hok f hget
  · intro e d h
    unfold Disk.onFile at h
    cases hget : w.st.disk.get k with
    | none =>
      simp only [hget] at h
      cases h
      exact herr
    | some f => simp [hget] at h

theorem wpAt_createNew {k : FileName} {Q : Unit → Journal → World JStore → Prop}
    (hfault : E .injected j { w with fates := w.fates.drop 1 })
    (hok : w.st.disk.get k = none →
      Q () j { w with st := w.st.withDisk (w.st.disk.put k ⟨[], []⟩), fates := w.fates.drop 1 })
    (herr : E .alreadyExists j { w with fates := w.fates.drop 1 }) : wpAt (createNew k) Q E j w := by
  refine wpAt_diskCall hfault ?_ ?_
  · intro _ d h
    cases hget : w.st.disk.get k with
    | none =>
      simp only [Disk.createNew, hget] at h
      cases h
      exact hok hget
    | some f => simp [Disk.createNew, hget] at h
  · intro e d h
    cases hget : w.st.disk.get k with
    | none => simp [Disk.createNew, hget] at h
    | some f =>
      simp only [Disk.createNew, hget] at h
      cases h
      exact herr

theorem wpAt_writeAll {k : FileName} {buf : Bytes} {f : FileData} {Q : Unit → Journal → World JStore → Prop}
    (hget : w.st.disk.get k = some f)
    (hfault : ∀ kept, w.fates[0]? = some (.fault kept) → E .injected j
      { w with st := w.st.withDisk (w.st.disk.put k (f.write (buf.take kept))), fates := w.fates.drop 1 })
    (hok : Q () j { w with st := w.st.withDisk (w.st.disk.put k (f.write buf)), fates := w.fates.drop 1 }) :
    wpAt (writeAll k buf) Q E j w := by
  have hon : ∀ g : FileData → FileData,
      Disk.onFile k g w.st.disk = (.ok (), w.st.disk.put k (g f)) := fun g => by
    simp [Disk.onFile, hget]
  apply wpAt_call
  · intro kept hfate
    simp only [hon]
    exact hfault kept hfate
  · intro _ s' h
    simp only [hon] at h
    cases h
    exact hok
  · intro e s' h
    simp [hon] at h

theorem wpAt_syncDir {Q : Unit → Journal → World JStore → Prop}
    (hfault : E .injected j { w with fates := w.fates.drop 1 })
    (hok : Q () j { w with st := w.st.withDisk w.st.disk.syncDir, fates := w.fates.drop 1 }) :
    wpAt syncDir Q E j w := by
  refine wpAt_diskCall hfault ?_ ?_
  · intro _ d h
    cases h
    exact hok
  · intro e d h
    cases h

/-- **Sync**: it fails before anything happens, or the open segment is synced. -/
theorem wpAt_sync :
    wpAt sync (fun _ j' w' => SamePlace j j' ∧ SyncedAs j w.st j' w'.st ∧ w'.fates = w.fates.drop (syncCalls j))
      (fun _ j' w' => j' = j ∧ w'.st = w.st) j w := by
  have hflush : wpAt flush (fun _ j' w' => SamePlace j j' ∧ SyncedAs j w.st j' w'.st ∧
      w'.fates = w.fates.drop (syncCalls j)) (fun _ j' w' => j' = j ∧ w'.st = w.st) j w := by
    apply wpAt_bind
    apply wpAt_mem
    cases hcur : j.current with
    | none => exact wpAt_pure ⟨⟨rfl, rfl, rfl⟩, .skipped (by simp [hcur]) rfl, by simp [syncCalls, hcur]⟩
    | some c =>
      apply wpAt_when
      · intro hdirty
        apply wpAt_bind
        apply wpAt_mapErr
        apply wpAt_onFile ⟨rfl, rfl⟩ ?_ ⟨rfl, rfl⟩
        intro f hf
        exact wpAt_update ⟨⟨rfl, rfl, rfl⟩, .synced hcur hf rfl, by simp [syncCalls, hcur, hdirty]⟩
      · intro hclean
        exact ⟨⟨rfl, rfl, rfl⟩, .skipped (fun _ => by simpa using hclean) rfl, by simp [syncCalls, hcur, hclean]⟩
  apply wpAt_seq hflush
  rintro _ j' w' ⟨hplace, hsynced, hfates⟩
  apply wpAt_bind
  apply wpAt_instant
  apply wpAt_bind
  apply wpAt_update
  apply wpAt_bind
  apply wpAt_mem
  apply wpAt_note
  refine ⟨⟨hplace.current, hplace.lastSeq, hplace.config⟩, ?_, hfates⟩
  cases hsynced with
  | synced hcur hf hdisk => exact .synced hcur hf hdisk
  | skipped hclean hdisk => exact .skipped hclean hdisk

theorem wpAt_maybeSync :
    wpAt maybeSync (fun _ j' w' => (j' = j ∧ w'.st = w.st) ∨ SamePlace j j' ∧ SyncedAs j w.st j' w'.st)
      (fun _ j' w' => j' = j ∧ w'.st = w.st) j w := by
  have hsync : ∀ w₀ : World JStore, w₀.st = w.st → wpAt sync (fun _ j' w' => (j' = j ∧ w'.st = w.st) ∨
      SamePlace j j' ∧ SyncedAs j w.st j' w'.st) (fun _ j' w' => j' = j ∧ w'.st = w.st) j w₀ := by
    intro w₀ hst
    refine wpAt_mono (wpAt_sync (w := w₀)) ?_ ?_
    · exact fun _ _ _ h => Or.inr ⟨h.1, hst ▸ h.2.1⟩
    · exact fun _ _ _ h => ⟨h.1, h.2.trans hst⟩
  apply wpAt_bind
  apply wpAt_mem
  cases j.config.fsync with
  | everyFrame => exact hsync w rfl
  | micros window =>
    apply wpAt_bind
    apply wpAt_instant
    apply wpAt_when
    · exact fun _ => hsync _ rfl
    · exact fun _ => Or.inl ⟨rfl, rfl⟩
  | never => exact wpAt_pure (Or.inl ⟨rfl, rfl⟩)

/-- **Starting a segment** whose header is written whole if it is written at all. -/
theorem wpAt_startSegment {a : ℕ} (during after : Window) (hnames : ∀ p ∈ segs w.st, p.1 ≤ a)
    (hheader : ∀ kept, w.fates[1]? = some (.fault kept) → SEGMENT_HEADER_LEN ≤ kept) :
    wpAt (startSegment a during after)
      (fun _ j' w' => j' = { j with current := some ⟨a, SEGMENT_HEADER_LEN, 0⟩ } ∧
        segs w'.st = segs w.st ++ [(a, ⟨segmentHeaderBytes a j.epoch, []⟩)])
      (fun _ j' w' => j' = j ∧ (w'.st = w.st ∨
        ∃ f, segs w'.st = segs w.st ++ [(a, f)] ∧ f.combined = segmentHeaderBytes a j.epoch)) j w := by
  apply wpAt_bind
  apply wpAt_mem
  apply wpAt_bind
  apply wpAt_mapErr
  apply wpAt_createNew ⟨rfl, Or.inl rfl⟩ ?_ ⟨rfl, Or.inl rfl⟩
  intro hfree
  have hsegs₁ : filesOf .seg (w.st.disk.put (segName a) ⟨[], []⟩) = segs w.st ++ [(a, ⟨[], []⟩)] := by
    refine filesOf_put_new (fun p hp => Nat.lt_of_le_of_ne (hnames p hp) ?_) _
    intro heq
    rw [← heq, mem_filesOf.mp (show (p.1, p.2) ∈ filesOf .seg w.st.disk from hp)] at hfree
    cases hfree
  have hsegs₂ : filesOf .seg ((w.st.disk.put (segName a) ⟨[], []⟩).put (segName a)
      (FileData.write ⟨[], []⟩ (segmentHeaderBytes a j.epoch))) =
      segs w.st ++ [(a, ⟨[], segmentHeaderBytes a j.epoch⟩)] := filesOf_put hsegs₁ _
  -- from here on the file has a whole header
  have hleft : ∃ f, filesOf .seg ((w.st.disk.put (segName a) ⟨[], []⟩).put (segName a)
      (FileData.write ⟨[], []⟩ (segmentHeaderBytes a j.epoch))) = segs w.st ++ [(a, f)] ∧
      f.combined = segmentHeaderBytes a j.epoch := ⟨_, hsegs₂, rfl⟩
  apply wpAt_bind
  apply wpAt_note
  apply wpAt_bind
  apply wpAt_mapErr
  apply wpAt_writeAll (Disk.get_put_self _ _ _)
  · intro kept hfate
    have hkept := hheader kept (by simpa using hfate)
    have hwhole : (segmentHeaderBytes a j.epoch).take kept = segmentHeaderBytes a j.epoch := by
      apply List.take_of_length_le
      rwa [segmentHeaderBytes_length]
    rw [hwhole]
    exact ⟨rfl, Or.inr hleft⟩
  apply wpAt_bind
  apply wpAt_mapErr
  apply wpAt_onFile ⟨rfl, Or.inr hleft⟩ ?_ ⟨rfl, Or.inr hleft⟩
  intro f hf
  obtain rfl : _ = f := Option.some.inj ((Disk.get_put_self ..).symm.trans hf)
  have hsegs₃ := filesOf_put hsegs₂ (FileData.sync (FileData.write ⟨[], []⟩ (segmentHeaderBytes a j.epoch)))
  apply wpAt_bind
  apply wpAt_note
  apply wpAt_bind
  apply wpAt_mapErr
  apply wpAt_syncDir
  · exact ⟨rfl, Or.inr ⟨_, hsegs₃, List.append_nil _⟩⟩
  · exact wpAt_update ⟨rfl, hsegs₃⟩

end Calls

/-! ## The invariant -/

/-- A journal on a directory where every call left whole frames. -/
structure Tidy (acked t : List Frame) (j : Journal) (s : JStore) : Prop where
  serves : Serves acked false t j s
  counted : ∀ c f, j.current = some c → s.disk.get (segName c.file) = some f → f.combined.length = c.size
  flush : Flushable j s

/-- The frames `acked` are on the directory; behind them there may be what a failed call left. -/
def Kept (acked : List Frame) (s : JStore) : Prop :=
  (segs s = [] ∧ acked = []) ∨ ∃ t pre a f epoch k, Listed s t pre a f ∧
    Left (segmentBytes t a t.length epoch) f ∧ a ≤ k + 1 ∧ k ≤ t.length ∧
    segmentBytes t a k epoch <+: f.combined ∧ Held acked t (startOf pre a) k

/-- **The invariant of a run.** -/
def CourseInv (acked : List Frame) (j : Journal) (s : JStore) : Prop :=
  (∃ t, Tidy acked t j s) ∨ Kept acked s ∧ ¬Clean j s

section Invariant

variable {acked t : List Frame} {j j' : Journal} {s s' : JStore} {c : OpenSegment} {f : FileData}

theorem Serves.file {covered : Bool} (h : Serves acked covered t j s) (hcur : j.current = some c) :
    ∃ pre f epoch, Listed s t pre c.file f ∧ f.combined = segmentBytes t c.file t.length epoch ∧
      Held acked t (startOf pre c.file) t.length := by
  have hlaid := h.laid
  unfold Laid at hlaid
  rw [hcur] at hlaid
  obtain ⟨pre, f, epoch, hlist, hwhole, hheld, -⟩ := hlaid
  exact ⟨pre, f, epoch, hlist, hwhole, hheld⟩

/-- Rewriting the newest file with the bytes it has. -/
theorem Serves.rewrite {f' : FileData} (h : Serves acked false t j s) (hcur : j.current = some c)
    (hget : s.disk.get (segName c.file) = some f) (hsame : f'.combined = f.combined)
    (hcur' : j'.current = j.current) (hlast : j'.lastSeq = j.lastSeq)
    (hdisk : s'.disk = s.disk.put (segName c.file) f') : Serves acked false t j' s' := by
  obtain ⟨pre, f₀, epoch, hlist, hwhole, hheld⟩ := h.file hcur
  obtain rfl : f₀ = f := Option.some.inj (hlist.get.symm.trans hget)
  have hput : Serves acked false t j (s.withDisk (s.disk.put (segName c.file) f')) := by
    refine ⟨h.run, h.last, h.lt, ?_⟩
    unfold Laid
    rw [hcur]
    exact ⟨pre, f', epoch, hlist.put f', hsame.trans hwhole, hheld, fun hcov => by cases hcov⟩
  exact hput.congr hdisk hcur' hlast

theorem Tidy.clean (h : Tidy acked t j s) : Clean j s := by
  unfold Clean
  cases hcur : j.current with
  | none =>
    have hlaid := h.serves.laid
    unfold Laid at hlaid
    rw [hcur] at hlaid
    exact hlaid.1
  | some c =>
    obtain ⟨pre, f, epoch, hlist, -⟩ := h.serves.file hcur
    exact ⟨pre, f, hlist.listing, h.counted c f hcur hlist.get⟩

theorem Tidy.kept (h : Tidy acked t j s) : Kept acked s := by
  cases hcur : j.current with
  | none =>
    have hlaid := h.serves.laid
    unfold Laid at hlaid
    rw [hcur] at hlaid
    exact Or.inl ⟨hlaid.1, hlaid.2.2⟩
  | some c =>
    obtain ⟨pre, f, epoch, hlist, hwhole, hheld⟩ := h.serves.file hcur
    exact Or.inr ⟨t, pre, c.file, f, epoch, t.length, hlist, Or.inl (hwhole ▸ List.prefix_rfl), hlist.le,
      Nat.le_refl _, hwhole ▸ List.prefix_rfl, hheld⟩

theorem CourseInv.kept (h : CourseInv acked j s) : Kept acked s := by
  rcases h with ⟨t, h⟩ | ⟨h, -⟩
  · exact h.kept
  · exact h

/-- Whatever is written next, no more is promised. -/
theorem Tidy.mono {acked' : List Frame} (h : Tidy acked t j s) (hsub : acked' ⊆ acked) : Tidy acked' t j s := by
  refine ⟨⟨h.serves.run, h.serves.last, h.serves.lt, ?_⟩, h.counted, h.flush⟩
  have hlaid := h.serves.laid
  unfold Laid at hlaid ⊢
  split at hlaid
  · obtain ⟨hnil, ht, rfl⟩ := hlaid
    exact ⟨hnil, ht, List.subset_nil.mp hsub⟩
  · obtain ⟨pre, f, epoch, hlist, hwhole, hheld, -⟩ := hlaid
    exact ⟨pre, f, epoch, hlist, hwhole, fun g hg => hheld g (hsub hg), fun hcov => by cases hcov⟩

theorem Tidy.congr (h : Tidy acked t j s) (hdisk : s'.disk = s.disk) (hcur : j'.current = j.current)
    (hlast : j'.lastSeq = j.lastSeq) (hdirty : j'.dirty = j.dirty) : Tidy acked t j' s' := by
  refine ⟨h.serves.congr hdisk hcur hlast, ?_, ?_⟩
  · rw [hcur, hdisk]
    exact h.counted
  · unfold Flushable
    rw [hcur, hdisk, hdirty]
    exact h.flush

/-- **A sync of a tidy journal** leaves nothing unsynced. -/
theorem Tidy.synced (h : Tidy acked t j s) (hplace : SamePlace j j') (hsync : SyncedAs j s j' s') :
    Tidy acked t j' s' ∧ SealedOff acked t s' := by
  cases hsync with
  | @synced c f hcur hget hdisk =>
    have hserves := h.serves.rewrite hcur hget (show f.sync.combined = _ from List.append_nil _) hplace.current
      hplace.lastSeq hdisk
    have hself : s'.disk.get (segName c.file) = some f.sync := by rw [hdisk, Disk.get_put_self]
    have hflushed : ∀ c' g, j'.current = some c' → s'.disk.get (segName c'.file) = some g → g.unsynced = [] := by
      intro c' g hc' hg
      obtain rfl : c = c' := Option.some.inj (hcur.symm.trans (hplace.current.symm.trans hc'))
      rw [← Option.some.inj (hself.symm.trans hg)]
      rfl
    refine ⟨⟨hserves, ?_, Or.inr hflushed⟩, (hserves.flushed hflushed).2⟩
    intro c' g hc' hg
    obtain rfl : c = c' := Option.some.inj (hcur.symm.trans (hplace.current.symm.trans hc'))
    rw [← Option.some.inj (hself.symm.trans hg), ← h.counted c f hcur hget]
    exact congrArg List.length (List.append_nil _)
  | skipped hclean hdisk =>
    have hflushed : ∀ c f, j'.current = some c → s'.disk.get (segName c.file) = some f → f.unsynced = [] := by
      intro c f hc hf
      rw [hdisk] at hf
      rw [hplace.current] at hc
      refine h.flush.resolve_left ?_ c f hc hf
      rw [hclean (by simp [hc])]
      simp
    have hserves := h.serves.congr hdisk hplace.current hplace.lastSeq
    refine ⟨⟨hserves, ?_, Or.inr hflushed⟩, (hserves.flushed hflushed).2⟩
    rw [hplace.current, hdisk]
    exact h.counted

/-- Behind a sync the newest segment reads as before, and the sealed ones are the same. -/
theorem SyncedAs.listing {pre : List (ℕ × FileData)} {a : ℕ} (h : SyncedAs j s j' s')
    (hsegs : segs s = pre ++ [(a, f)]) (hpre : ∀ p ∈ pre, p.2.unsynced = []) :
    ∃ f', segs s' = pre ++ [(a, f')] ∧ (f' = f ∨ f' = f.sync) := by
  cases h with
  | @synced c g hcur hget hdisk =>
    have hmem : (c.file, g) ∈ segs s := mem_filesOf.mpr hget
    rw [hsegs] at hmem
    rcases List.mem_append.mp hmem with hmem | hmem
    · -- a sealed segment is synced already
      obtain ⟨l, r, rfl⟩ := List.append_of_mem hmem
      have hsame : g.sync = g := by
        have hnone : g.unsynced = [] := hpre (c.file, g) (by simp)
        rw [FileData.sync, hnone, List.append_nil, ← hnone]
      refine ⟨f, ?_, Or.inl rfl⟩
      rw [List.append_assoc] at hsegs ⊢
      rw [segs, hdisk, hsame]
      exact filesOf_put hsegs g
    · obtain ⟨rfl, rfl⟩ := Prod.mk.inj (List.mem_singleton.mp hmem)
      refine ⟨g.sync, ?_, Or.inr rfl⟩
      rw [segs, hdisk]
      exact filesOf_put hsegs _
  | skipped _ hdisk =>
    refine ⟨f, ?_, Or.inl rfl⟩
    rw [segs, hdisk]
    exact hsegs

/-- Nothing that is kept is lost by a sync, and it clears nothing. -/
theorem Kept.synced (h : Kept acked s) (hplace : SamePlace j j') (hsync : SyncedAs j s j' s') :
    Kept acked s' ∧ (Clean j' s' → Clean j s) := by
  rcases h with ⟨hnil, hacked⟩ | ⟨t, pre, a, f, epoch, k, hlist, hleft, ha, hk, hwhole, hheld⟩
  · have hsame : segs s' = segs s := by
      cases hsync with
      | synced _ hget _ =>
        have hmem := mem_filesOf.mpr hget
        rw [show filesOf .seg s.disk = [] from hnil] at hmem
        cases hmem
      | skipped _ hdisk => rw [segs, hdisk]
    refine ⟨Or.inl ⟨hsame.trans hnil, hacked⟩, ?_⟩
    unfold Clean
    rw [hplace.current, hsame]
    exact id
  · obtain ⟨f', hsegs, hf'⟩ := hsync.listing hlist.listing hlist.sealed.unsynced
    have hcombined : f'.combined = f.combined := by
      rcases hf' with rfl | rfl
      · rfl
      · exact List.append_nil _
    refine ⟨Or.inr ⟨t, pre, a, f', epoch, k, ?_, ?_, ha, hk, hcombined ▸ hwhole, hheld⟩, ?_⟩
    · exact ⟨hlist.run, hsegs, hlist.sealed, hlist.pos, hlist.le, hlist.lt⟩
    · unfold Left at hleft ⊢
      rw [hcombined]
      refine hleft.imp_right fun hdamaged => ⟨?_, hdamaged.2⟩
      rcases hf' with rfl | rfl
      · exact hdamaged.1
      · rfl
    · unfold Clean
      rw [hplace.current]
      cases hcur : j.current with
      | none =>
        intro hnone
        simp [hsegs] at hnone
      | some c =>
        rintro ⟨pre', g, hlisting, hsize⟩
        rw [hsegs] at hlisting
        obtain ⟨hpre, hlast⟩ := List.append_inj' hlisting rfl
        obtain ⟨rfl, rfl⟩ := Prod.mk.inj (List.cons.inj hlast).1
        exact ⟨pre, f, hlist.listing, by rw [← hcombined, hsize]⟩

end Invariant

/-! ## Steps -/

section Steps

variable {acked t : List Frame} {j : Journal} {w : World JStore}

/-- What is left when a segment was started behind the sealed ones `segs s`. -/
theorem SealedOff.listed {s s' : JStore} {f : FileData} (h : SealedOff acked t s) (hrun : SeqRun 1 t)
    (hlt : t.length + 1 < 2 ^ 64) (hsegs : segs s' = segs s ++ [(t.length + 1, f)]) :
    Listed s' t (segs s) (t.length + 1) f :=
  ⟨hrun, hsegs, h.sealed, by omega, Nat.le_refl _, hlt⟩

theorem segmentBytes_self (epoch : UInt64) :
    segmentBytes t (t.length + 1) t.length epoch = segmentHeaderBytes (t.length + 1) epoch := by
  rw [segmentBytes, span_self, encodeAll_nil, List.append_nil]

/-- **Rolling** either leaves whole frames or a segment that the writer does not know. -/
theorem wpAt_rollSegment (h : Tidy acked t j w.st)
    (hheader : ∀ kept, w.fates[syncCalls j + 1]? = some (.fault kept) → SEGMENT_HEADER_LEN ≤ kept) :
    wpAt (rollSegment (t.length + 1)) (fun _ j' w' => Tidy acked t j' w'.st ∧ j'.current ≠ none)
      (fun _ j' w' => CourseInv acked j' w'.st) j w := by
  have hrun := h.serves.run
  have hlt := h.serves.lt
  have hsync : wpAt sync (fun _ j' w' => SamePlace j j' ∧ SyncedAs j w.st j' w'.st ∧
      w'.fates = w.fates.drop (syncCalls j)) (fun _ j' w' => CourseInv acked j' w'.st) j w := by
    apply wpAt_mono wpAt_sync
    · exact fun _ _ _ h => h
    · rintro _ j' w' ⟨hj, hst⟩
      rw [hj, hst]
      exact Or.inl ⟨t, h⟩
  apply wpAt_seq hsync
  rintro _ j₁ w₁ ⟨hplace, hsynced, hfates⟩
  obtain ⟨h₁, hsealed⟩ := h.synced hplace hsynced
  have hheader₁ : ∀ kept, w₁.fates[1]? = some (.fault kept) → SEGMENT_HEADER_LEN ≤ kept := by
    intro kept hfate
    rw [hfates, List.getElem?_drop] at hfate
    exact hheader kept hfate
  apply wpAt_mono (wpAt_startSegment .header .none hsealed.names hheader₁)
  · rintro _ j' w' ⟨hj, hsegs⟩
    have hlist := hsealed.listed hrun hlt hsegs
    rw [hj]
    refine ⟨⟨⟨hrun, h₁.serves.last, hlt, ?_⟩, ?_, Or.inr ?_⟩, by simp⟩
    · refine ⟨_, _, j₁.epoch, hlist, ?_, hsealed.held, fun hcov => by cases hcov⟩
      rw [segmentBytes_self]
      exact List.append_nil _
    · intro c f hc hf
      cases hc
      obtain rfl := Option.some.inj (hlist.get.symm.trans hf)
      rw [FileData.combined, List.append_nil, segmentHeaderBytes_length]
    · intro c f hc hf
      cases hc
      rw [← Option.some.inj (hlist.get.symm.trans hf)]
  · rintro _ j' w' ⟨hj, hleft⟩
    rw [hj]
    rcases hleft with hst | ⟨f, hsegs, hwhole⟩
    · rw [hst]
      exact Or.inl ⟨t, h₁⟩
    · have hlist := hsealed.listed hrun hlt hsegs
      rw [← segmentBytes_self] at hwhole
      refine Or.inr ⟨Or.inr ⟨t, _, _, f, j₁.epoch, t.length, hlist, Or.inl (hwhole ▸ List.prefix_rfl),
        Nat.le_refl _, Nat.le_refl _, hwhole ▸ List.prefix_rfl, hsealed.held⟩, ?_⟩
      -- the new segment is not the open one
      unfold Clean
      cases hcur : j₁.current with
      | none =>
        intro hnone
        simp [hsegs] at hnone
      | some c =>
        rintro ⟨pre, g, hlisting, -⟩
        have hclean := h₁.clean
        unfold Clean at hclean
        rw [hcur] at hclean
        obtain ⟨pre₁, g₁, hlisting₁, -⟩ := hclean
        have hsorted : (segs w'.st).Pairwise (·.1 < ·.1) := filesOf_sorted
        rw [hsegs] at hlisting hsorted
        obtain ⟨-, hlast⟩ := List.append_inj' hlisting rfl
        have hfile : t.length + 1 = c.file := (Prod.mk.inj (List.cons.inj hlast).1).1
        have hbelow := (List.pairwise_append.mp hsorted).2.2 (c.file, g₁) (by simp [hlisting₁]) (t.length + 1, f)
          (by simp)
        simp only at hbelow
        omega

/-- The newest segment with the first `n` bytes of some frames behind it. -/
theorem Listed.write {pre : List (ℕ × FileData)} {a : ℕ} {f : FileData} {frames : List Frame} {epoch : UInt64}
    {s : JStore} (h : Listed s t pre a f) (hwhole : f.combined = segmentBytes t a t.length epoch)
    (hmore : SeqRun (t.length + 1) frames) (hlen : t.length + frames.length + 1 < 2 ^ 64) (n : ℕ) :
    Listed (s.withDisk (s.disk.put (segName a) (f.write ((encodeAll frames).take n)))) (t ++ frames) pre a
        (f.write ((encodeAll frames).take n)) ∧
      segmentBytes (t ++ frames) a (t ++ frames).length epoch = f.combined ++ encodeAll frames := by
  have hle := h.le
  have hlength : (t ++ frames).length = t.length + frames.length := List.length_append
  refine ⟨⟨?_, filesOf_put h.listing _, h.sealed.congr ?_, h.pos, by omega, by omega⟩, ?_⟩
  · exact SeqRun.append.mpr ⟨h.run, by rw [Nat.add_comm]; exact hmore⟩
  · rw [List.take_append_of_le_length (by omega)]
  · rw [← segmentBytes_append (k := t.length) hle (by omega), segmentBytes_extend (Nat.le_refl _), hwhole,
      List.drop_left]

/-- **Writing frames** behind whole frames. -/
theorem wpAt_writeFrames {frames : List Frame} (h : Tidy acked t j w.st) (hmore : SeqRun (t.length + 1) frames)
    (hlen : t.length + frames.length + 1 < 2 ^ 64)
    (hheader : j.needsRoll (encodeAll frames).length = true →
      ∀ kept, w.fates[syncCalls j + 1]? = some (.fault kept) → SEGMENT_HEADER_LEN ≤ kept) :
    wpAt (writeFrames frames (t.length + 1) (t.length + frames.length) (encodeAll frames).length)
      (fun _ j' w' => Tidy (acked ++ frames) (t ++ frames) j' w'.st)
      (fun _ j' w' => CourseInv acked j' w'.st) j w := by
  have hlength : (t ++ frames).length = t.length + frames.length := List.length_append
  apply wpAt_bind
  apply wpAt_mem
  have hroom : wpAt (Prog.when (j.needsRoll (encodeAll frames).length = true) (rollSegment (t.length + 1)))
      (fun _ j' w' => Tidy acked t j' w'.st ∧ j'.current ≠ none) (fun _ j' w' => CourseInv acked j' w'.st)
      j w := by
    apply wpAt_when
    · exact fun hroll => wpAt_rollSegment h (hheader hroll)
    · refine fun hstay => ⟨h, fun hnone => ?_⟩
      simp [needsRoll, hnone] at hstay
  apply wpAt_seq hroom
  rintro _ j₁ w₁ ⟨h₁, hopen⟩
  apply wpAt_bind
  apply wpAt_mem
  cases hcur : j₁.current with
  | none => exact absurd hcur hopen
  | some c =>
    obtain ⟨pre, f, epoch, hlist, hwhole, hheld⟩ := h₁.serves.file hcur
    have hwritten := hlist.write hwhole (show SeqRun _ frames from hmore) hlen
    have hsize := h₁.counted c f hcur hlist.get
    apply wpAt_bind
    apply wpAt_mapErr
    apply wpAt_writeAll hlist.get
    · intro kept _
      by_cases hnone : (encodeAll frames).take kept = []
      · -- nothing was written
        have hsame : f.write ((encodeAll frames).take kept) = f := by
          rw [hnone, FileData.write, List.append_nil]
        rw [hsame]
        refine Or.inl ⟨t, h₁.serves.rewrite hcur hlist.get rfl rfl rfl rfl, ?_, ?_⟩
        · intro c' g hc' hg
          obtain rfl : c = c' := Option.some.inj (hcur.symm.trans hc')
          rw [Store.withDisk_disk, Disk.get_put_self] at hg
          rw [← Option.some.inj hg, hsize]
        · refine h₁.flush.imp_right fun hclean c' g hc' hg => ?_
          obtain rfl : c = c' := Option.some.inj (hcur.symm.trans hc')
          rw [Store.withDisk_disk, Disk.get_put_self] at hg
          rw [← Option.some.inj hg]
          exact hclean c f hcur hlist.get
      · obtain ⟨hlisted, hbytes⟩ := hwritten kept
        have hcombined : (f.write ((encodeAll frames).take kept)).combined =
            f.combined ++ (encodeAll frames).take kept := (List.append_assoc ..).symm
        refine Or.inr ⟨Or.inr ⟨t ++ frames, pre, c.file, _, epoch, t.length, hlisted, Or.inl ?_, hlist.le, by omega,
          ?_, hheld.extend frames⟩, ?_⟩
        · rw [hbytes, hcombined]
          exact (List.prefix_append_right_inj _).mpr (List.take_prefix kept _)
        · rw [segmentBytes_extend (Nat.le_refl _), ← hwhole, hcombined]
          exact List.prefix_append _ _
        · -- the file is longer than the writer counts
          unfold Clean
          rw [hcur]
          rintro ⟨pre', g, hlisting, hsize'⟩
          rw [hlisted.listing] at hlisting
          obtain ⟨-, hlast⟩ := List.append_inj' hlisting rfl
          obtain ⟨-, rfl⟩ := Prod.mk.inj (List.cons.inj hlast).1
          rw [hcombined, List.length_append] at hsize'
          have := List.length_pos_iff.mpr hnone
          omega
    · obtain ⟨hlisted, hbytes⟩ := hwritten (encodeAll frames).length
      rw [List.take_length] at hlisted
      have hcombined : (f.write (encodeAll frames)).combined = f.combined ++ encodeAll frames :=
        (List.append_assoc ..).symm
      apply wpAt_bind
      apply wpAt_note
      apply wpAt_bind
      apply wpAt_update
      have htidy : Tidy (acked ++ frames) (t ++ frames)
          { j₁ with
            current := some { c with
              size := c.size + (encodeAll frames).length, frames := c.frames + frames.length }
            lastSeq := t.length + frames.length
            dirty := true }
          (w₁.st.withDisk (w₁.st.disk.put (segName c.file) (f.write (encodeAll frames)))) := by
        refine ⟨⟨hlisted.run, hlength.symm, hlisted.lt, ?_⟩, ?_, Or.inl rfl⟩
        · refine ⟨pre, _, epoch, hlisted, hcombined.trans hbytes.symm, ?_, fun hcov => by cases hcov⟩
          intro g hg
          rcases List.mem_append.mp hg with hg | hg
          · obtain ⟨hmem, hlow, hhigh⟩ := hheld g hg
            exact ⟨List.mem_append_left _ hmem, hlow, by omega⟩
          · have hbounds := hmore.bounds hg
            have hstart : startOf pre c.file ≤ c.file := hlist.sealed.startOf_le
            have hle := hlist.le
            exact ⟨List.mem_append_right _ hg, show startOf pre c.file ≤ g.seq by omega, by omega⟩
        · intro c' g hc' hg
          cases hc'
          obtain rfl := Option.some.inj (hlisted.get.symm.trans hg)
          rw [hcombined, List.length_append, hsize]
      have hdone : ∀ {s' : JStore}, s'.disk = w₁.st.disk.put (segName c.file) (f.write (encodeAll frames)) →
          Tidy (acked ++ frames) (t ++ frames) _ s' := fun hdisk => htidy.congr hdisk rfl rfl rfl
      apply wpAt_mono wpAt_maybeSync
      · intro _ j' w' hsynced
        rcases hsynced with ⟨hj, hst⟩ | ⟨hplace, hsynced⟩
        · rw [hj, hst]
          exact hdone rfl
        · refine (Tidy.synced (hdone ?_) hplace hsynced).1
          rfl
      · rintro _ j' w' ⟨hj, hst⟩
        rw [hj, hst]
        refine Or.inl ⟨_, (hdone ?_).mono (List.subset_append_left _ _)⟩
        rfl

theorem wpAt_nextSeq {E : JournalError → Journal → World JStore → Prop} {n : ℕ}
    {Q : ℕ → Journal → World JStore → Prop} (hok : n + 1 < 2 ^ 64 → Q (n + 1) j w) : wpAt (nextSeq n) Q E j w := by
  unfold nextSeq seqNext
  by_cases h : n + 1 < 2 ^ 64
  · rw [if_pos h]
    exact wpAt_pure (hok h)
  · rw [if_neg h]
    exact wpAt_panic

theorem wpAt_checkBatch {E : JournalError → Journal → World JStore → Prop} {frames : List Frame} {expected : ℕ}
    {Q : Unit → Journal → World JStore → Prop} (hok : SeqRun expected frames → Q () j w)
    (herr : ∀ e, E e j w) : wpAt (checkBatch expected frames) Q E j w := by
  induction frames generalizing expected with
  | nil => exact wpAt_pure (hok trivial)
  | cons f fs ih =>
    rw [checkBatch]
    by_cases hseq : f.seq = expected
    · rw [if_neg (not_not_intro hseq)]
      apply wpAt_bind
      apply wpAt_nextSeq
      intro _
      rw [hseq]
      exact ih fun hrun => hok ⟨hseq, hrun⟩
    · rw [if_pos hseq]
      exact wpAt_fail (herr _)

/-- A call that writes nothing, or is out of order, does nothing. -/
theorem wpAt_write {E : JournalError → Journal → World JStore → Prop} {Q : Unit → Journal → World JStore → Prop}
    {call : Write} (hnil : call.frames = [] → Q () j w) (herr : ∀ e, E e j w)
    (h : call.frames ≠ [] → SeqRun (j.lastSeq + 1) call.frames →
      wpAt (writeFrames call.frames (j.lastSeq + 1) (j.lastSeq + call.frames.length) (encodeAll call.frames).length)
        Q E j w) : wpAt call.run Q E j w := by
  cases call with
  | one frame =>
    apply wpAt_bind
    apply wpAt_mem
    apply wpAt_bind
    apply wpAt_nextSeq
    intro _
    by_cases hseq : frame.seq = j.lastSeq + 1
    · rw [if_neg (not_not_intro hseq), hseq]
      simpa [Write.frames] using h (by simp [Write.frames]) ⟨hseq, trivial⟩
    · rw [if_pos hseq]
      exact wpAt_fail (herr _)
  | batch frames =>
    cases frames with
    | nil => exact wpAt_pure (hnil rfl)
    | cons frame rest =>
      apply wpAt_bind
      apply wpAt_mem
      apply wpAt_bind
      apply wpAt_nextSeq
      intro _
      apply wpAt_bind
      apply wpAt_checkBatch
      · intro hrun
        have hlast := hrun.getLast_seq (List.cons_ne_nil frame rest)
        have hseq : frame.seq = j.lastSeq + 1 := hrun.1
        rw [hseq, show ((frame :: rest).getLast (by simp)).seq = j.lastSeq + (frame :: rest).length by omega]
        exact h (by simp [Write.frames]) hrun
      · exact herr

/-- **Step lemma**: a request that meets the condition. -/
theorem wpAt_request (h : CourseInv acked j w.st) (request : Request) (hsafe : request.Safe j w) :
    wpAt request.run (fun _ j' w' => CourseInv (acked ++ request.frames) j' w'.st)
      (fun _ j' w' => CourseInv acked j' w'.st) j w := by
  cases request with
  | write call =>
    apply wpAt_write
    · intro hnil
      rw [Request.frames, hnil, List.append_nil]
      exact h
    · exact fun _ => h
    · intro hne hrun
      obtain ⟨hclean, hover, hheader⟩ := hsafe hne hrun
      rcases h with ⟨t, h⟩ | ⟨-, hdirt⟩
      · rw [h.serves.last] at hrun hover ⊢
        apply wpAt_mono (wpAt_writeFrames h hrun hover hheader)
        · exact fun _ _ _ h => Or.inl ⟨_, h⟩
        · exact fun _ _ _ h => h
      · exact absurd hclean hdirt
  | sync =>
    apply wpAt_mono wpAt_sync
    · rintro _ j' w' ⟨hplace, hsynced, _⟩
      rw [Request.frames, List.append_nil]
      rcases h with ⟨t, h⟩ | ⟨hkept, hdirt⟩
      · exact Or.inl ⟨t, (h.synced hplace hsynced).1⟩
      · obtain ⟨hkept', hclean⟩ := hkept.synced hplace hsynced
        exact Or.inr ⟨hkept', mt hclean hdirt⟩
    · rintro _ j' w' ⟨hj, hst⟩
      rw [hj, hst]
      exact h

end Steps

/-! ## Opening -/

section Opening

variable {acked : List Frame} {j : Journal} {s : JStore}

/-- **What a run starts from.** -/
theorem tidy_of_opened {w w' : World JStore} {r : Recovered} {config : JournalConfig} (hdir : Readable w.st)
    (hw : w.Benign) (hopen : openWith config () w = .ok r () w') : ∃ t, Tidy [] t r.journal w'.st := by
  obtain ⟨hsettled, hdir⟩ := hdir
  rcases hdir with hnil | ⟨t, pre, a, f, q, hrun, hreads, hq⟩
  · obtain ⟨-, ⟨now, rfl⟩, hst⟩ := wp_ok (wp_openWith_empty (E := fun _ _ _ => True) (C := fun _ => True)
      benign_no_fault (fun _ => trivial) hnil config) hw hopen
    rw [hst]
    exact ⟨[], ⟨trivial, rfl, by decide, hnil, rfl, rfl⟩, by simp, Or.inr (by simp)⟩
  · obtain ⟨-, hr⟩ := wp_ok (wp_openWith_reads (E := fun _ _ _ => True) (C := fun _ => True) benign_no_fault hreads
      (fun _ => trivial) (fun _ _ => trivial) hrun (fun _ => trivial) hq config) hw hopen
    have hlt := wp_ok (wp_openWith_lastSeq config) (fun _ _ => trivial) hopen
    have hsize := wp_ok (wp_openWith_size config) (fun _ _ => trivial) hopen
    rw [hr.last] at hlt
    have hserves : Tidy r.frames t r.journal w'.st := by
      refine ⟨hr.serves hreads hrun hlt, ?_, Or.inr ?_⟩
      · intro c f hc hf
        obtain ⟨f', hf', hlen⟩ := hsize c hc
        obtain rfl := Option.some.inj (hf.symm.trans hf')
        exact hlen.symm
      · intro c g hc hg
        by_cases hnil : q = []
        · rw [hr.same hnil] at hg
          exact hsettled _ _ hg
        · obtain ⟨size, frames, hcur⟩ := hr.current
          cases hcur.symm.trans hc
          rw [hr.truncated hnil, Disk.get_put_self] at hg
          rw [← Option.some.inj hg]
          rfl
    exact ⟨t, hserves.mono (List.nil_subset _)⟩

/-- **What is kept is returned.** -/
theorem wp_openWith_kept (h : Kept acked s) (config : JournalConfig) :
    wp Fate.calm (openWith config) (fun r _ _ => ∀ g ∈ acked, g ∈ r.frames) (fun _ _ _ => False)
      (fun _ => False) () s := by
  rcases h with ⟨hnil, rfl⟩ | ⟨t, pre, a, f, epoch, k, hlist, hleft, ha, hk, hwhole, hheld⟩
  · apply wp_mono (wp_openWith_empty (E := fun _ _ _ => False) (C := fun _ => False) calm_no_fault
      (fun hc => calm_no_cut hc) hnil config)
    · intro _ _ _ _ g hg
      cases hg
    · exact fun _ _ _ h => h
    · exact fun _ h => h
  · have hlt := hlist.lt
    obtain ⟨n, q, hn, hnt, hreads, hq⟩ := hlist.reads hleft.torn ha hk hwhole
    have hlength : (t.take n).length = n := by
      rw [List.length_take]
      omega
    apply wp_mono (wp_openWith_reads (E := fun _ _ _ => False) (C := fun _ => False) calm_no_fault hreads
      (fun hc => calm_no_cut hc) (fun hc => absurd hc calm_no_cut) (hlist.run.take n)
      (fun hover => by omega) hq config)
    · rintro r - s' ⟨-, hopened⟩ g hg
      obtain ⟨hmem, hlow, hhigh⟩ := hheld g hg
      rw [hopened.frames, hopened.first]
      have hspan : g ∈ span t (startOf pre a) (n + 1) :=
        (mem_span hlist.run (hlist.sealed.startOf_pos hlist.pos)).mpr ⟨hmem, hlow, by omega⟩
      exact hspan
    · exact fun _ _ _ h => h
    · exact fun _ h => h

end Opening

/-! ## The theorem -/

/-- **Run lemma**: in every state of every run whose requests meet the condition. -/
theorem course_inv {j : Journal} {s : JStore} {acked : List Frame} (h : Course Request.Safe j s acked) :
    CourseInv acked j s := by
  induction h with
  | opened config hdir hw hrun => exact Or.inl (tidy_of_opened hdir hw hrun)
  | done request _ hsafe hrun ih => exact wpAt_ok (wpAt_request ih request hsafe) hrun
  | failed request _ hsafe hrun ih => exact wpAt_err (wpAt_request ih request hsafe) hrun

/-- **Acknowledged frames are returned**, byte for byte, by every opening that meets no fault, however many requests
failed before, during and after they were written. -/
theorem acknowledged_frames_survive {j : Journal} {s : JStore} {acked : List Frame}
    (h : Course Request.Safe j s acked) {w : World JStore} (hw : w.st = s) (hcalm : w.Calm)
    (config : JournalConfig) :
    ∃ r w', openWith config () w = .ok r () w' ∧ ∀ g ∈ acked, g ∈ r.frames := by
  have hkept : Kept acked w.st := hw ▸ (course_inv h).kept
  obtain ⟨r, _, w', hrun, -, hserved⟩ := wp_total (wp_openWith_kept hkept config) hcalm (ends_openWith _)
  exact ⟨r, w', hrun, hserved⟩

/-- What a request to append a first frame, which fails, a second try and a sync lead to. -/
structure Retried where
  fresh : Journal
  opened : JStore
  failed : Journal
  left : JStore
  done : Journal
  written : JStore
  synced : JStore

/-- The fates of an append that starts the first segment and fails when `kept` bytes of the frame are written. -/
def failing (kept : ℕ) : List Fate := [.ok, .ok, .ok, .ok, .fault kept]

/-- The request. -/
def retry : Request := .write (.one ⟨1, 0, 1, .tick, [], one_lt_seqs, nil_payload_le⟩)

def retried (kept : ℕ) : Option Retried := do
  let opening : Prog Unit JStore JournalError Recovered := openWith ⟨1024, .never⟩
  let (r, _, w) ← (opening () (.healthy ⟨Disk.empty, History.fresh⟩)).returned
  let (_, j, w₁) ← (retry.run r.journal ⟨w.st, failing kept, fun _ => 0⟩).failed
  let (_, j', w₂) ← (retry.run j (.healthy w₁.st)).returned
  let (_, _, w₃) ← (Request.sync.run j' (.healthy w₂.st)).returned
  pure ⟨r.journal, w.st, j, w₁.st, j', w₂.st, w₃.st⟩

theorem course_retried {G : Journal → World JStore → Request → Prop} {kept : ℕ} {h : Retried}
    (hrun : retried kept = some h) (hfirst : G h.fresh ⟨h.opened, failing kept, fun _ => 0⟩ retry)
    (hsecond : G h.failed (.healthy h.left) retry) :
    Course G h.done h.written retry.frames ∧
      ∃ j w, Request.sync.run h.done (.healthy h.written) = .ok () j w ∧ w.st = h.synced := by
  simp only [retried, bind, Option.bind_eq_some_iff] at hrun
  obtain ⟨⟨r, _, w⟩, hopen, ⟨e, j, w₁⟩, hfail, ⟨_, j', w₂⟩, hdone, ⟨_, j'', w₃⟩, hsync, heq⟩ := hrun
  cases heq
  rw [Outcome.returned_eq_some] at hopen hdone hsync
  rw [Outcome.failed_eq_some] at hfail
  have hreadable : Readable (⟨Disk.empty, History.fresh⟩ : JStore) := by
    refine ⟨fun k f hf => ?_, Or.inl (filesOf_eq .nil (by simp))⟩
    simp at hf
  have h₀ := Course.opened (G := G) (w := .healthy _) _ hreadable (fun f hf => by cases hf) hopen
  have h₁ := Course.failed (w := ⟨w.st, failing kept, fun _ => 0⟩) retry h₀ hfirst hfail
  have h₂ := Course.done (w := .healthy w₁.st) retry h₁ hsecond hdone
  exact ⟨h₂, j'', w₃, hsync, rfl⟩

/-- The failed append had written nothing of the frame. -/
theorem acknowledged_frames_survive_of_retry : ∃ (s : JStore) (acked : List Frame), acked ≠ [] ∧
    ∃ r w', openWith ⟨1024, .never⟩ () (World.healthy s) = .ok r () w' ∧ ∀ g ∈ acked, g ∈ r.frames := by
  have hrun : (retried 0).any (fun h => decide (h.fresh.current = none ∧ h.fresh.lastSeq = 0 ∧ segs h.opened = [] ∧
      h.failed.lastSeq = 0 ∧ h.failed.current = some ⟨1, SEGMENT_HEADER_LEN, 0⟩ ∧
      segs h.left = [(1, ⟨segmentHeaderBytes 1 h.failed.epoch, []⟩)])) = true := by decide +kernel
  obtain ⟨h, hrun, hvals⟩ := (Option.any_eq_true _ _).mp hrun
  obtain ⟨hcur, hlast, hsegs, hlast', hcur', hsegs'⟩ := of_decide_eq_true hvals
  have hfirst : Request.Safe h.fresh ⟨h.opened, failing 0, fun _ => 0⟩ retry := by
    intro _ _
    refine ⟨?_, by rw [hlast]; decide, fun _ kept hfate => ?_⟩
    · unfold Clean
      rw [hcur]
      exact hsegs
    · simp [syncCalls, hcur, failing] at hfate
  have hsecond : Request.Safe h.failed (.healthy h.left) retry := by
    intro _ _
    refine ⟨?_, by rw [hlast']; decide, fun _ kept hfate => ?_⟩
    · unfold Clean
      rw [hcur']
      exact ⟨[], _, hsegs', by rw [FileData.combined, List.append_nil, segmentHeaderBytes_length]⟩
    · simp [World.healthy] at hfate
  obtain ⟨hcourse, -⟩ := course_retried hrun hfirst hsecond
  exact ⟨h.written, retry.frames, by simp [retry, Request.frames, Write.frames],
    acknowledged_frames_survive hcourse rfl (fun f hf => by cases hf) _⟩

/-- **A frame behind the bytes of a failed append** is acknowledged and synced, and is not returned. -/
theorem retried_frame_lost : ∃ (j j' : Journal) (w w' : World JStore) (acked : List Frame),
    Course (fun _ _ _ => True) j w.st acked ∧ Request.sync.run j w = .ok () j' w' ∧ acked ≠ [] ∧
    ¬∃ r w'', openWith ⟨1024, .never⟩ () (World.healthy w'.st) = .ok r () w'' ∧ ∀ g ∈ acked, g ∈ r.frames := by
  have hrun : (retried 5).map (fun h => (openWith ⟨1024, .never⟩ () (World.healthy h.synced)).returned.map
      (·.1.frames.length)) = some (some 0) := by decide +kernel
  obtain ⟨h, hrun, hreopened⟩ := Option.map_eq_some_iff.mp hrun
  obtain ⟨hcourse, j', w', hsync, hst⟩ := course_retried (G := fun _ _ _ => True) hrun trivial trivial
  refine ⟨h.done, j', .healthy h.written, w', retry.frames, hcourse, hsync, by simp [retry, Request.frames,
    Write.frames], ?_⟩
  rintro ⟨r, w'', hopen, hall⟩
  rw [← hst, hopen] at hreopened
  have hnil : r.frames = [] := List.eq_nil_of_length_eq_zero (Option.some.inj hreopened)
  have hgone := hall ⟨1, 0, 1, .tick, [], one_lt_seqs, nil_payload_le⟩ (by simp [retry, Request.frames, Write.frames])
  rw [hnil] at hgone
  cases hgone

end Ticktape.Journal
