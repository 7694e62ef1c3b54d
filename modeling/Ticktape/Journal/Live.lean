import Ticktape.Journal.Recovery

/-!
# Opening a journal that nobody lost

`Journal::open_with` on segments whose bytes are all readable, synced or not: after a clean close, after a
process was killed, or next to a writer that is still at work. What it returns depends only on what
a reader sees (`wp_openWith_reads`). It changes the directory only if the newest segment ends
in bytes that are no whole frame: these it truncates.
-/

namespace Ticktape.Journal

open Ticktape.Lib Ticktape.Core

/-! ## Every journal operation ends -/

section Ends

variable {μ : Type}

theorem ends_io {α : Type} {p : Io μ History α} (h : Ends p) : Ends (io p) := ends_mapErr h

theorem ends_diskCall {α : Type} (act : Disk FileName → Except IoError α × Disk FileName) :
    Ends (io (diskCall act) : Prog μ JStore JournalError α) := ends_io (ends_call _ _ _)

theorem ends_nextSeq {ε : Type} (n : ℕ) : Ends (nextSeq n : Prog μ JStore ε ℕ) := by
  unfold nextSeq
  split
  · exact ends_pure _
  · exact ends_panic

theorem ends_sync : Ends sync := by
  refine ends_bind (ends_bind ends_mem fun j => ?_) fun _ => ?_
  · split
    · exact ends_when (ends_bind (ends_diskCall _) fun _ => ends_update _)
    · exact ends_pure _
  · exact ends_bind ends_instant fun _ => ends_bind (ends_update _) fun _ =>
      ends_bind ends_mem fun _ => ends_note _

theorem ends_maybeSync : Ends maybeSync := by
  refine ends_bind ends_mem fun j => ?_
  split
  · exact ends_sync
  · exact ends_bind ends_instant fun _ => ends_when ends_sync
  · exact ends_pure _

theorem ends_rollSegment (first : ℕ) : Ends (rollSegment first) := by
  refine ends_bind ends_sync fun _ => ends_bind ends_mem fun j => ?_
  exact ends_bind (ends_diskCall _) fun _ => ends_bind (ends_note _) fun _ =>
    ends_bind (ends_io (ends_call _ _ _)) fun _ => ends_bind (ends_diskCall _) fun _ =>
    ends_bind (ends_note _) fun _ => ends_bind (ends_diskCall _) fun _ => ends_update _

theorem ends_writeFrames (frames : List Frame) (first last len : ℕ) :
    Ends (writeFrames frames first last len) := by
  refine ends_bind ends_mem fun _ => ends_bind (ends_when (ends_rollSegment _)) fun _ => ?_
  refine ends_bind ends_mem fun j => ?_
  split
  · exact ends_panic
  · exact ends_bind (ends_io (ends_call _ _ _)) fun _ => ends_bind (ends_note _) fun _ =>
      ends_bind (ends_update _) fun _ => ends_maybeSync

theorem ends_append (frame : Frame) : Ends (append frame) := by
  refine ends_bind ends_mem fun j => ends_bind (ends_nextSeq _) fun expected => ?_
  split
  · exact ends_fail _
  · exact ends_writeFrames _ _ _ _

theorem ends_checkBatch (expected : ℕ) (frames : List Frame) : Ends (checkBatch expected frames) := by
  induction frames generalizing expected with
  | nil => exact ends_pure _
  | cons f fs ih =>
    rw [checkBatch]
    split
    · exact ends_fail _
    · exact ends_bind (ends_nextSeq _) fun _ => ih _

theorem ends_appendBatch (frames : List Frame) : Ends (appendBatch frames) := by
  cases frames with
  | nil => exact ends_pure _
  | cons f fs =>
    exact ends_bind ends_mem fun _ => ends_bind (ends_nextSeq _) fun _ =>
      ends_bind (ends_checkBatch _ _) fun _ => ends_writeFrames _ _ _ _

theorem ends_removeBelow (bound : ℕ) (l : List ℕ) : Ends (removeBelow bound l) := by
  induction l with
  | nil => exact ends_pure _
  | cons a l ih =>
    cases l with
    | nil => exact ends_pure _
    | cons b l =>
      rw [removeBelow]
      split
      · exact ends_bind (ends_diskCall _) fun _ => ends_bind ih fun _ => ends_pure _
      · exact ends_pure _

theorem ends_compactBelow (cutoff : ℕ) : Ends (compactBelow cutoff) := by
  refine ends_bind (ends_note _) fun _ => ends_bind (ends_diskCall _) fun names => ?_
  split
  · exact ends_pure _
  · exact ends_bind (ends_nextSeq _) fun _ => ends_bind (ends_removeBelow _ _) fun _ =>
      ends_bind (ends_when (ends_diskCall _)) fun _ => ends_pure _

theorem ends_endSegment (isLast : Bool) (first len : ℕ) (epoch : UInt64) (acc : Scan)
    (scanned : List Frame × ℕ × ScanEnd) :
    Ends (endSegment isLast first len epoch acc scanned : Prog μ JStore JournalError Scan) := by
  unfold endSegment
  split
  · exact ends_pure _
  · split
    · exact ends_bind (ends_diskCall _) fun _ => ends_pure _
    · exact ends_fail _
  · exact ends_fail _
  · exact ends_panic

theorem ends_scanSegment (isFirst isLast : Bool) (first : ℕ) (acc : Scan) :
    Ends (scanSegment isFirst isLast first acc : Prog μ JStore JournalError Scan) := by
  refine ends_bind (ends_diskCall _) fun bytes => ends_bind (ends_ofExcept _) fun header => ?_
  generalize (if isFirst = true then header.firstSeq else acc.expectedNext) = expected
  simp only
  split
  · exact ends_fail _
  · exact ends_endSegment _ _ _ _ _ _

theorem ends_scanSegments (isFirst : Bool) (l : List ℕ) (acc : Scan) :
    Ends (scanSegments isFirst l acc : Prog μ JStore JournalError Scan) := by
  induction l generalizing isFirst acc with
  | nil => exact ends_pure _
  | cons a l ih =>
    cases l with
    | nil => exact ends_scanSegment _ _ _ _
    | cons b l => exact ends_bind (ends_scanSegment _ _ _ _) fun _ => ih _ _

theorem ends_openWith (config : JournalConfig) :
    Ends (openWith config : Prog μ JStore JournalError Recovered) := by
  refine ends_bind (ends_diskCall _) fun _ => ends_bind (ends_diskCall _) fun names => ?_
  refine ends_bind (ends_scanSegments _ _ _) fun acc => ends_bind ?_ fun _ =>
    ends_bind ends_instant fun _ => ends_bind (ends_note _) fun _ => ends_pure _
  unfold reopenLast
  split
  · exact ends_pure _
  · exact ends_bind (ends_diskCall _) fun _ => ends_bind (ends_diskCall _) fun _ => ends_pure _

end Ends

/-! ## What a reader sees -/

/-- A reader sees the frames `t`, from the first segment on, and behind them the bytes `q`: the
segments are `pre`, sealed, and a last one, whose bytes need not be synced. -/
structure ReadsAs (s : JStore) (t : List Frame) (pre : List (ℕ × FileData)) (a : ℕ) (f : FileData)
    (q : Bytes) : Prop where
  listing : segs s = pre ++ [(a, f)]
  sealed : Sealed t pre a
  pos : 1 ≤ a
  le : a ≤ t.length + 1
  lt : a < 2 ^ 64
  bytes : ∃ epoch, f.combined =
    segmentHeaderBytes a epoch ++ (encodeAll (span t a (t.length + 1)) ++ q)

/-- An open journal with a segment shows its frames. -/
theorem JInv.readsAs {t : List Frame} {j : Journal} {s : JStore} {c : OpenSegment}
    (h : JInv t j s) (hcur : j.current = some c) : ∃ pre f, ReadsAs s t pre c.file f [] ∧
      startOf pre c.file ≤ s.ghost.cutoff + 1 := by
  have hholds := h.holds
  unfold Holds at hholds
  rw [hcur] at hholds
  obtain ⟨pre, a, f, k, hsegs, rfl, hchain, hu, -, hfloor, -⟩ := hholds
  have hle := hchain.le
  have hbound := hchain.bound
  refine ⟨pre, f, ⟨hsegs, hchain.sealed, hchain.pos, by omega, hchain.lt, ?_⟩, hfloor⟩
  obtain ⟨epoch, hbytes⟩ := hchain.bytes
  refine ⟨epoch, ?_⟩
  rw [FileData.combined, hbytes, hu, List.append_nil, List.append_nil, List.append_assoc,
    ← encodeAll_append, ← span_to_end, span_append hle (by omega)]

/-- What opening returns on segments that read as the frames `t`. -/
structure ReopenedAs (config : JournalConfig) (s : JStore) (t : List Frame)
    (pre : List (ℕ × FileData)) (a : ℕ) (f : FileData) (q : Bytes) (r : Recovered) (s' : JStore) :
    Prop where
  config : r.journal.config = config
  last : r.journal.lastSeq = t.length
  clean : r.journal.dirty = false
  current : ∃ size frames, r.journal.current = some ⟨a, size, frames⟩
  frames : r.frames = t.drop (r.firstSeq - 1)
  first : r.firstSeq = startOf pre a
  torn : r.truncatedTornTail = decide (q ≠ [])
  ghost : s'.ghost = { s.ghost with window := .none }
  same : q = [] → s'.disk = s.disk
  truncated : q ≠ [] →
    s'.disk = s.disk.put (segName a) (f.truncate (f.combined.length - q.length))

section Opening

variable {μ : Type} {F : Fate → Prop} {E : JournalError → μ → JStore → Prop} {C : JStore → Prop}
  {m : μ} {s : JStore} {t : List Frame} {pre : List (ℕ × FileData)} {a : ℕ} {f : FileData} {q : Bytes}

/-- **Opening what can be read.** The scan panics behind the largest seq. -/
theorem wp_openWith_reads (hF : ∀ k, ¬F (.fault k)) (h : ReadsAs s t pre a f q) (hcut : F .cut → C s)
    (hcut' : F .cut → q ≠ [] →
      C (s.withDisk (s.disk.put (segName a) (f.truncate (f.combined.length - q.length)))))
    (hrun : SeqRun 1 t) (hover : 2 ^ 64 ≤ t.length + 1 → C s)
    (hq : q = [] ∨ ∃ e, Frame.readFrom q = .error e) (config : JournalConfig) :
    wp F (openWith config) (fun r m' s' => m' = m ∧ ReopenedAs config s t pre a f q r s')
      E C m s := by
  have hmem : ∀ p ∈ pre ++ [(a, f)], s.disk.get (segName p.1) = some p.2 := by
    rw [← h.listing]
    exact fun p hp => mem_filesOf.mp hp
  have hpos := h.pos
  have hle := h.le
  obtain ⟨epoch, hbytes⟩ := h.bytes
  have hspan : a + (span t a (t.length + 1)).length = t.length + 1 := by
    rw [span_length (by omega)]
    omega
  have hstart := h.sealed.startOf_le
  refine wp_bind (wp_io (wp_createDirAll hcut (fun k hk => absurd hk (hF k)) ?_))
  refine wp_bind (wp_io (wp_listDir hcut (fun k hk => absurd hk (hF k)) ?_))
  simp only [sortedNumbers_names]
  rw [show filesOf .seg s.disk = pre ++ [(a, f)] from h.listing]
  refine wp_bind (wp_scanSegments hF hrun h.sealed (by omega) h.lt
    (fun p hp => hmem p (by simp [hp])) (Or.inl rfl) hcut ?_)
  intro isFirst' acc' hcase
  have hframes : acc'.frames ++ span t a (t.length + 1) = span t (startOf pre a) (t.length + 1) := by
    rcases hcase with ⟨-, rfl, rfl⟩ | ⟨-, -, -, hfs⟩
    · rfl
    · rw [hfs]
      show [] ++ _ ++ _ = _
      rw [List.nil_append, span_append hstart hle]
  have htruncated : acc'.truncated = false := by
    rcases hcase with ⟨-, -, rfl⟩ | ⟨-, -, htrunc, -⟩
    · rfl
    · exact htrunc
  -- the end of `open_with`, once everything was scanned into `acc`
  have hend : ∀ (acc : Scan) (d : Disk FileName), acc.expectedNext = t.length + 1 →
      acc.frames = span t (startOf pre a) (t.length + 1) → acc.truncated = decide (q ≠ []) →
      (q = [] → d = s.disk) →
      (q ≠ [] → d = s.disk.put (segName a) (f.truncate (f.combined.length - q.length))) →
      (filesOf .seg d).map Prod.fst = (pre ++ [(a, f)]).map Prod.fst →
      wp F (do
        let current ← reopenLast ((pre ++ [(a, f)]).map Prod.fst) acc.frames.length
        let now ← Prog.instant
        record fun h => { h with window := .none }
        pure {
          journal := ⟨config, current, acc.expectedNext - 1, acc.epoch, now, false⟩
          frames := acc.frames
          firstSeq := acc.firstSeq
          truncatedTornTail := acc.truncated })
        (fun r m' s' => m' = m ∧ ReopenedAs config s t pre a f q r s') E C m (s.withDisk d) := by
    intro acc d hnext hfs htorn hsame hput hnames
    have hcutd : F .cut → C (s.withDisk d) := by
      intro hc
      rcases Classical.em (q = []) with hnil | hne
      · rw [hsame hnil]
        exact hcut hc
      · rw [hput hne]
        exact hcut' hc hne
    have hfirst : acc.firstSeq = startOf pre a :=
      Scan.firstSeq_eq hrun (h.sealed.startOf_pos hpos) (by omega) (Nat.le_refl _) hfs hnext
    refine wp_bind (wp_reopenLast hF hnames hcutd (fun hnil => ?_) ?_)
    · simp at hnil
    · intro pre' a' f' size heq
      obtain ⟨-, hlast⟩ := List.append_inj' heq rfl
      obtain ⟨rfl, rfl⟩ := Prod.mk.inj (List.cons.inj hlast).1
      refine wp_bind (wp_instant fun now => wp_bind (wp_record (wp_pure ⟨rfl, ?_⟩)))
      refine ⟨rfl, ?_, rfl, ⟨size, _, rfl⟩, ?_, hfirst, htorn, rfl, hsame, hput⟩
      · show acc.expectedNext - 1 = t.length
        rw [hnext, Nat.add_sub_cancel]
      · show acc.frames = t.drop (acc.firstSeq - 1)
        rw [hfs, hfirst, span, Nat.add_sub_cancel, List.take_length]
  refine wp_scanSegment hF epoch (span t a (t.length + 1)) (hmem (a, f) (by simp)) hbytes h.lt
    (span_run hrun hpos (by omega)) hq (fun _ hlast => absurd hlast (by decide)) ?_ hcut (fun hmax => ?_) ?_ ?_
  · rcases hcase with ⟨rfl, -, -⟩ | ⟨-, hnext, -, -⟩
    · exact Or.inl rfl
    · exact Or.inr hnext
  · rw [hspan] at hmax
    exact hover hmax
  · intro hnil
    refine hend ⟨_, _, _, _⟩ s.disk hspan hframes ?_ (fun _ => rfl) (fun hne => absurd hnil hne) ?_
    · rw [htruncated, hnil]
      rfl
    · rw [show filesOf .seg s.disk = pre ++ [(a, f)] from h.listing]
  · intro hne _
    refine hend ⟨_, _, _, _⟩ _ hspan hframes ?_ (fun hnil => absurd hnil hne) (fun _ => rfl) ?_
    · exact (decide_eq_true hne).symm
    · rw [filesOf_put h.listing, List.map_append, List.map_append]
      rfl

/-- A segment whose header does not parse is refused, whatever follows it, and nothing changes. -/
theorem wp_openWith_headless {b : ℕ} {rest : List (ℕ × FileData)} (hF : ∀ k, ¬F (.fault k)) (hcut : F .cut → C s)
    (hrun : SeqRun 1 t) (hsegs : segs s = pre ++ (a, f) :: rest) (hsealed : Sealed t pre b)
    (hb : b - 1 ≤ t.length) (hlen : b < 2 ^ 64)
    (hbad : ∃ e, parseSegmentHeader (segName a) f.combined = .error e) (config : JournalConfig) :
    wp F (openWith config) (fun _ _ _ => False) (fun _ m' s' => m' = m ∧ s' = s) C m s := by
  have hmem : ∀ p ∈ pre ++ (a, f) :: rest, s.disk.get (segName p.1) = some p.2 := by
    rw [← hsegs]
    exact fun p hp => mem_filesOf.mp hp
  refine wp_bind (wp_io (wp_createDirAll hcut (fun k hk => absurd hk (hF k)) ?_))
  refine wp_bind (wp_io (wp_listDir hcut (fun k hk => absurd hk (hF k)) ?_))
  simp only [sortedNumbers_names]
  rw [show filesOf .seg s.disk = pre ++ (a, f) :: rest from hsegs]
  refine wp_bind (wp_scanSealed hF (List.cons_ne_nil _ _) hrun hsealed hb hlen (fun p hp => hmem p (by simp [hp]))
    (Or.inl rfl) hcut fun isFirst' acc' _ => ?_)
  have hscan : ∀ {isLast : Bool} {Q : Scan → μ → JStore → Prop}, wp F (scanSegment isFirst' isLast a acc') Q
      (fun _ m' s' => m' = m ∧ s' = s) C m s := fun {isLast Q} =>
    wp_scanSegment_headless hF (hmem (a, f) (by simp)) hbad hcut fun _ => ⟨rfl, rfl⟩
  cases rest with
  | nil => exact hscan
  | cons next rest => exact wp_bind hscan

/-- A segment that is not the newest, with bytes behind its frames that no reader accepts. -/
theorem wp_openWith_corrupt {epoch : UInt64} {fs : List Frame} {next : ℕ × FileData} {rest : List (ℕ × FileData)}
    (hF : ∀ k, ¬F (.fault k)) (hcut : F .cut → C s) (hrun : SeqRun 1 t)
    (hsegs : segs s = pre ++ (a, f) :: next :: rest) (hsealed : Sealed t pre a) (hb : a - 1 ≤ t.length)
    (hbytes : f.combined = segmentHeaderBytes a epoch ++ (encodeAll fs ++ q)) (hfs : SeqRun a fs)
    (hlen : a + fs.length < 2 ^ 64) (hne : q ≠ []) (hq : ∃ e, Frame.readFrom q = .error e) (config : JournalConfig) :
    wp F (openWith config) (fun _ _ _ => False) (fun _ m' s' => m' = m ∧ s' = s) C m s := by
  have hmem : ∀ p ∈ pre ++ (a, f) :: next :: rest, s.disk.get (segName p.1) = some p.2 := by
    rw [← hsegs]
    exact fun p hp => mem_filesOf.mp hp
  refine wp_bind (wp_io (wp_createDirAll hcut (fun k hk => absurd hk (hF k)) ?_))
  refine wp_bind (wp_io (wp_listDir hcut (fun k hk => absurd hk (hF k)) ?_))
  simp only [sortedNumbers_names]
  rw [show filesOf .seg s.disk = pre ++ (a, f) :: next :: rest from hsegs]
  refine wp_bind (wp_scanSealed hF (List.cons_ne_nil _ _) hrun hsealed hb (by omega)
    (fun p hp => hmem p (by simp [hp])) (Or.inl rfl) hcut fun isFirst' acc' hcase => ?_)
  refine wp_bind (wp_scanSegment hF epoch fs (hmem (a, f) (by simp)) hbytes (by omega) hfs (Or.inr hq)
    (fun _ _ _ => ⟨rfl, rfl⟩) ?_ hcut (fun hmax => absurd hlen (Nat.not_lt.mpr hmax)) (fun hnil => absurd hnil hne)
    fun _ hlast => absurd hlast (by decide))
  rcases hcase with ⟨rfl, -, -⟩ | ⟨-, hnext, -, -⟩
  · exact Or.inl rfl
  · exact Or.inr hnext

/-- An empty directory. -/
theorem wp_openWith_empty (hF : ∀ k, ¬F (.fault k)) (hcut : F .cut → C s) (hsegs : segs s = [])
    (config : JournalConfig) :
    wp F (openWith config) (fun r m' s' => m' = m ∧ (∃ now, r =
        ⟨⟨config, none, 0, 0, now, false⟩, [], 1, false⟩) ∧
        s' = { s with ghost := { s.ghost with window := .none } }) E C m s := by
  refine wp_bind (wp_io (wp_createDirAll hcut (fun k hk => absurd hk (hF k)) ?_))
  refine wp_bind (wp_io (wp_listDir hcut (fun k hk => absurd hk (hF k)) ?_))
  simp only [sortedNumbers_names]
  rw [show filesOf .seg s.disk = [] from hsegs]
  refine wp_bind (wp_pure (wp_bind (wp_pure (wp_bind (wp_instant fun now => ?_)))))
  exact wp_bind (wp_record (wp_pure ⟨rfl, ⟨now, rfl⟩, rfl⟩))

/-- The size of the reopened segment is the length of its file. -/
theorem wp_openWith_size (config : JournalConfig) :
    wp (fun _ => True) (openWith config)
      (fun r _ s' => ∀ c, r.journal.current = some c →
        ∃ f, s'.disk.get (segName c.file) = some f ∧ c.size = f.combined.length)
      (fun _ _ _ => True) (fun _ => True) m s := by
  apply wp_seq (wp_trivial fun _ => trivial)
  intro _ m₁ s₁ _
  apply wp_seq (wp_trivial fun _ => trivial)
  intro names m₂ s₂ _
  apply wp_seq (wp_trivial fun _ => trivial)
  intro acc m₃ s₃ _
  have hreopen : wp (fun _ => True) (reopenLast (sortedNumbers .seg names) acc.frames.length)
      (fun current _ s' => ∀ c, current = some c →
        ∃ f, s'.disk.get (segName c.file) = some f ∧ c.size = f.combined.length)
      (fun _ _ _ => True) (fun _ => True) m₃ s₃ := by
    unfold reopenLast
    split
    · exact wp_pure fun c hc => by cases hc
    · apply wp_seq (wp_trivial fun _ => trivial)
      intro _ m₄ s₄ _
      apply wp_bind
      apply wp_io
      apply wp_ofFile (fun _ => trivial) (fun _ _ => trivial) ?_ (fun _ => trivial)
      intro f hf
      refine wp_pure fun c hc => ?_
      cases hc
      exact ⟨f, hf, rfl⟩
  apply wp_seq hreopen
  intro current m₄ s₄ hcurrent
  apply wp_bind
  apply wp_instant
  intro now
  apply wp_bind
  apply wp_record
  exact wp_pure hcurrent

end Opening

end Ticktape.Journal
