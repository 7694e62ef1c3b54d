import Ticktape.Journal.Segment

/-!
# The journal

The segmented append-only log (`ticktape-journal/src/lib.rs`): opening, appending one frame or a
batch, syncing, rolling to a new segment, compaction and reseating. Each operation is a program
over the store; what `&mut self` reaches is its memory.

The history variables in `History` record what the operations did. They are written by
`Prog.note`, which is not a storage call, and nothing reads them.
-/

namespace Ticktape.Journal

open Ticktape.Lib Ticktape.Core

/-! ## Configuration and state -/

/-- When the journal syncs. -/
inductive FsyncPolicy where
  /-- After every appended frame. -/
  | everyFrame
  /-- At most once per window of so many microseconds. -/
  | micros (window : ℕ)
  | never
  deriving DecidableEq, Repr

/-- `JournalConfig`; the directory is the store itself. -/
structure JournalConfig where
  segmentBytes : ℕ
  fsync : FsyncPolicy

/-- The open segment writer; `file` is the seq its file is named after. -/
structure OpenSegment where
  file : ℕ
  size : ℕ
  frames : ℕ
  deriving DecidableEq

end Ticktape.Journal

/-- The append-only writer. -/
structure Ticktape.Journal where
  config : Journal.JournalConfig
  current : Option Journal.OpenSegment
  lastSeq : ℕ
  epoch : UInt64
  lastSync : ℕ
  dirty : Bool

namespace Ticktape.Journal

open Ticktape.Lib Ticktape.Core

/-- Where an operation stands that leaves the segment files incomplete for a while. -/
inductive Window where
  | none
  /-- `roll_segment` created a file whose header is not yet synced. -/
  | header
  /-- `reseat_to` created a file and has not yet removed every older segment. -/
  | reseat
  deriving DecidableEq, Repr

/-- History variables. -/
structure History where
  /-- Every frame written to the journal, in order; cut back to the recovered tip at each
  reopening. -/
  tape : List Frame
  /-- `last_seq` at the last sync that returned. -/
  durable : ℕ
  /-- The largest cutoff a compaction was asked for. -/
  cutoff : ℕ
  window : Window
  /-- Some snapshot payload did not fit its `u32` length field. -/
  oversize : Bool

/-- No history yet. -/
def History.fresh : History := ⟨[], 0, 0, .none, false⟩

/-- The store of a journal. -/
abbrev JStore := Store History

/-- Journal operations. -/
abbrev JProg (α : Type) := Prog Journal JStore JournalError α

/-- A storage call inside a journal operation. -/
def io {μ α : Type} (p : Io μ History α) : Prog μ JStore JournalError α := Prog.mapErr .io p

/-- Update a history variable. -/
def record {μ ε : Type} (f : History → History) : Prog μ JStore ε Unit :=
  Prog.note fun s => { s with ghost := f s.ghost }

/-- `Seq::next`, panicking on overflow. -/
def nextSeq {μ σ ε : Type} (seq : ℕ) : Prog μ σ ε ℕ :=
  match seqNext seq with
  | some next => pure next
  | none => Prog.panic

/-- The path of a segment. -/
abbrev segName (first : ℕ) : FileName := .numbered .seg first

/-! ## Syncing -/

/-- Sync the open segment if anything was written since the last sync. -/
def flush : JProg Unit := do
  let j ← Prog.mem
  match j.current with
  | some seg => Prog.when (j.dirty = true) do
      io (syncData (segName seg.file))
      Prog.update fun j => { j with dirty := false }
  | none => pure ()

/-- Force outstanding appends to stable storage. -/
def sync : JProg Unit := do
  flush
  let now ← Prog.instant
  Prog.update fun j => { j with lastSync := now }
  let j ← Prog.mem
  record fun h => { h with durable := j.lastSeq }

/-- Apply the configured fsync policy after a write. -/
def maybeSync : JProg Unit := do
  let j ← Prog.mem
  match j.config.fsync with
  | .everyFrame => sync
  | .micros window => do
    let now ← Prog.instant
    Prog.when (window * 1000 ≤ now - j.lastSync) sync
  | .never => pure ()

/-! ## Appending -/

/-- Create the segment that starts at `firstSeq` and make it the open one: the common part of
`roll_segment` and `reseat_to`. The history records `during` while the header is not synced and
`after` from then on. -/
def startSegment (firstSeq : ℕ) (during after : Window) : JProg Unit := do
  let j ← Prog.mem
  io (createNew (segName firstSeq))
  record fun h => { h with window := during }
  io (writeAll (segName firstSeq) (segmentHeaderBytes firstSeq j.epoch))
  io (syncData (segName firstSeq))
  record fun h => { h with window := after }
  io syncDir
  Prog.update fun j => { j with current := some ⟨firstSeq, SEGMENT_HEADER_LEN, 0⟩ }

/-- Seal the open segment and start a new one. -/
def rollSegment (firstSeq : ℕ) : JProg Unit := do
  sync
  startSegment firstSeq .header .none

/-- Whether `len` more bytes call for a new segment. -/
def needsRoll (j : Journal) (len : ℕ) : Bool :=
  match j.current with
  | none => true
  | some seg => seg.frames > 0 && seg.size + len > j.config.segmentBytes

/-- The common part of `append` and `append_batch`: roll if the open segment cannot hold `len`
more bytes, write all frames with one call, and apply the fsync policy once. -/
def writeFrames (frames : List Frame) (firstSeq lastSeq len : ℕ) : JProg Unit := do
  let j ← Prog.mem
  Prog.when (j.needsRoll len = true) (rollSegment firstSeq)
  let j ← Prog.mem
  match j.current with
  | none => Prog.panic
  | some seg => do
    io (writeAll (segName seg.file) (encodeAll frames))
    record fun h => { h with tape := h.tape ++ frames }
    Prog.update fun j => { j with
      current := some { seg with
        size := seg.size + (encodeAll frames).length
        frames := seg.frames + frames.length }
      lastSeq := lastSeq
      dirty := true }
    maybeSync

/-- Append one frame; its seq must be exactly `last_seq + 1`. -/
def append (frame : Frame) : JProg Unit := do
  let j ← Prog.mem
  let expected ← nextSeq j.lastSeq
  if frame.seq ≠ expected then Prog.fail (.outOfOrderAppend expected frame.seq)
  else writeFrames [frame] frame.seq frame.seq frame.encodedLen

/-- The contiguity check of `append_batch`. -/
def checkBatch : ℕ → List Frame → JProg Unit
  | _, [] => pure ()
  | expected, frame :: rest =>
    if frame.seq ≠ expected then Prog.fail (.outOfOrderAppend expected frame.seq)
    else do
      let next ← nextSeq frame.seq
      checkBatch next rest

/-- Append a run of contiguous frames with one write and one sync decision. -/
def appendBatch : List Frame → JProg Unit
  | [] => pure ()
  | frame :: rest => do
    let j ← Prog.mem
    let expected ← nextSeq j.lastSeq
    checkBatch expected (frame :: rest)
    writeFrames (frame :: rest) frame.seq ((frame :: rest).getLast (by simp)).seq
      (encodeAll (frame :: rest)).length

/-! ## Compaction and reseating -/

/-- The removal loop of `compact_below`: a segment goes as long as its successor starts at or
below `bound`. Returns how many went. -/
def removeBelow (bound : ℕ) : List ℕ → JProg ℕ
  | a :: b :: rest =>
    if b ≤ bound then do
      io (remove (segName a))
      let removed ← removeBelow bound (b :: rest)
      pure (removed + 1)
    else pure 0
  | _ => pure 0

/-- Delete every segment whose frames are all at or below `cutoff`; the last one stays. -/
def compactBelow (cutoff : ℕ) : JProg ℕ := do
  record fun h => { h with cutoff := max h.cutoff cutoff }
  let names ← io listDir
  if (sortedNumbers .seg names).length ≤ 1 then pure 0
  else do
    let bound ← nextSeq cutoff
    let removed ← removeBelow bound (sortedNumbers .seg names)
    Prog.when (removed > 0) (io syncDir)
    pure removed

/-- Resume at `nextSeq` in a fresh segment and drop the older ones. -/
def reseatTo (nextSeq : ℕ) : JProg Unit := do
  record fun h => { h with cutoff := max h.cutoff (nextSeq - 1) }
  sync
  startSegment nextSeq .reseat .reseat
  Prog.update fun j => { j with lastSeq := nextSeq - 1 }
  let _ ← compactBelow (nextSeq - 1)
  record fun h => { h with window := .none }

/-! ## Opening -/

/-- What the segment scan has accumulated. -/
structure Scan where
  expectedNext : ℕ
  epoch : UInt64
  frames : List Frame
  truncated : Bool

/-- Before the first segment. -/
def Scan.start : Scan := ⟨1, 0, [], false⟩

variable {μ : Type}

/-- What the scan of the frames of one segment of `len` bytes leads to. A torn tail is truncated in
the last segment and an error in any other. -/
def endSegment (isLast : Bool) (first len : ℕ) (epoch : UInt64) (acc : Scan) :
    List Frame × ℕ × ScanEnd → Prog μ JStore JournalError Scan
  | (frames, next, .clean) => pure ⟨next, epoch, acc.frames ++ frames, acc.truncated⟩
  | (frames, next, .bad err left) =>
    if isLast then do
      io (truncate (segName first) (len - left))
      pure ⟨next, epoch, acc.frames ++ frames, true⟩
    else Prog.fail (.corrupt (segName first) (len - left) err.toText)
  | (_, next, .gap found) => Prog.fail (.nonContiguousSeq (segName first) next found)
  | (_, _, .overflow) => Prog.panic

/-- Scan one segment. Compaction may have removed leading segments, so history starts where the
first one does. -/
def scanSegment (isFirst isLast : Bool) (first : ℕ) (acc : Scan) :
    Prog μ JStore JournalError Scan := do
  let bytes ← io (read (segName first))
  let header ← Prog.ofExcept (parseSegmentHeader (segName first) bytes)
  let expected := if isFirst then header.firstSeq else acc.expectedNext
  if header.firstSeq ≠ expected then
    Prog.fail (.nonContiguousSeq (segName first) expected header.firstSeq)
  else
    endSegment isLast first bytes.length header.epoch acc
      (scanFrames bytes.length (bytes.drop SEGMENT_HEADER_LEN) expected)

/-- Scan all segments in order. -/
def scanSegments : Bool → List ℕ → Scan → Prog μ JStore JournalError Scan
  | _, [], acc => pure acc
  | isFirst, [first], acc => scanSegment isFirst true first acc
  | isFirst, first :: next :: rest, acc => do
    let acc ← scanSegment isFirst false first acc
    scanSegments false (next :: rest) acc

/-- The seq of the first frame, or the one that would come next. -/
def Scan.firstSeq (acc : Scan) : ℕ :=
  match acc.frames with
  | [] => acc.expectedNext - 1 + 1
  | frame :: _ => frame.seq

/-- Re-open the last segment for appending, if any. `frames` counts every recovered frame. -/
def reopenLast (segments : List ℕ) (frames : ℕ) :
    Prog μ JStore JournalError (Option OpenSegment) :=
  match segments.getLast? with
  | none => pure none
  | some first => do
    io (openAppend (segName first))
    let size ← io (fileLen (segName first))
    pure (some ⟨first, size, frames⟩)

/-- Result of opening a journal. -/
structure Recovered where
  journal : Journal
  frames : List Frame
  firstSeq : ℕ
  truncatedTornTail : Bool

/-- Open the journal: validate every segment, truncate a torn tail, resume at the end. -/
def openWith (config : JournalConfig) : Prog μ JStore JournalError Recovered := do
  io createDirAll
  let names ← io listDir
  let acc ← scanSegments true (sortedNumbers .seg names) Scan.start
  let current ← reopenLast (sortedNumbers .seg names) acc.frames.length
  let now ← Prog.instant
  record fun h => { h with window := .none }
  pure {
    journal := {
      config := config
      current := current
      lastSeq := acc.expectedNext - 1
      epoch := acc.epoch
      lastSync := now
      dirty := false }
    frames := acc.frames
    firstSeq := acc.firstSeq
    truncatedTornTail := acc.truncated }

end Ticktape.Journal
