import Ticktape.Lib.Alike
import Ticktape.Journal.Journal

/-!
# Streaming recovery

`Journal::replay_open` (`ticktape-journal/src/lib.rs`): the scan of `open_with`, handing each frame to a
callback as it is read. In the source both are `open_inner` with different callbacks; here the two are shown to
make the same storage calls and to report the same (`replayOpen_alike`).
-/

namespace Ticktape.Journal

open Ticktape.Lib Ticktape.Core

/-- The local variables of the scan. -/
structure Stream where
  expectedNext : ℕ
  epoch : UInt64
  count : ℕ
  firstSeq : Option ℕ
  truncated : Bool

/-- Before the first segment. -/
def Stream.start : Stream := ⟨1, 0, 0, none, false⟩

/-- What replaying reports. -/
structure ReplayMeta where
  firstSeq : ℕ
  lastSeq : ℕ
  truncatedTornTail : Bool
  deriving DecidableEq

variable {δ : Type}

/-- Call the callback on each frame; its state is the memory. -/
def handOver {ε : Type} (onFrame : Frame → δ → δ) (frames : List Frame) : Prog δ JStore ε Unit :=
  Prog.update fun d => frames.foldl (fun d frame => onFrame frame d) d

/-- The variables after the frames of a segment. -/
def Stream.see (stream : Stream) (epoch : UInt64) (frames : List Frame) (next : ℕ) : Stream :=
  { stream with
    expectedNext := next
    epoch := epoch
    count := stream.count + frames.length
    firstSeq := stream.firstSeq.or (frames.head?.map (·.seq)) }

/-- How the scan of a segment ends: as in `endSegment`, the frames having been handed over. -/
def replayEnd (isLast : Bool) (first len : ℕ) (stream : Stream) : ScanEnd → Prog δ JStore JournalError Stream
  | .clean => pure stream
  | .bad err left =>
    if isLast then do
      io (truncate (segName first) (len - left))
      pure { stream with truncated := true }
    else Prog.fail (.corrupt (segName first) (len - left) err.toText)
  | .gap found => Prog.fail (.nonContiguousSeq (segName first) stream.expectedNext found)
  | .overflow => Prog.panic

/-- Scan one segment. -/
def replaySegment (onFrame : Frame → δ → δ) (isFirst isLast : Bool) (first : ℕ) (stream : Stream) :
    Prog δ JStore JournalError Stream := do
  let bytes ← io (read (segName first))
  let header ← Prog.ofExcept (parseSegmentHeader (segName first) bytes)
  let expected := if isFirst then header.firstSeq else stream.expectedNext
  if header.firstSeq ≠ expected then
    Prog.fail (.nonContiguousSeq (segName first) expected header.firstSeq)
  else do
    let scanned := scanFrames bytes.length (bytes.drop SEGMENT_HEADER_LEN) expected
    handOver onFrame scanned.1
    replayEnd isLast first bytes.length (stream.see header.epoch scanned.1 scanned.2.1) scanned.2.2

/-- Scan all segments in order. -/
def replaySegments (onFrame : Frame → δ → δ) :
    Bool → List ℕ → Stream → Prog δ JStore JournalError Stream
  | _, [], stream => pure stream
  | isFirst, [first], stream => replaySegment onFrame isFirst true first stream
  | isFirst, first :: next :: rest, stream => do
    let stream ← replaySegment onFrame isFirst false first stream
    replaySegments onFrame false (next :: rest) stream

/-- `replay_open`: the journal, and what the scan met. -/
def replayOpen (config : JournalConfig) (onFrame : Frame → δ → δ) :
    Prog δ JStore JournalError (Journal × ReplayMeta) := do
  io createDirAll
  let names ← io listDir
  let stream ← replaySegments onFrame true (sortedNumbers .seg names) Stream.start
  let current ← reopenLast (sortedNumbers .seg names) stream.count
  let now ← Prog.instant
  record fun h => { h with window := .none }
  pure ({
    config := config
    current := current
    lastSeq := stream.expectedNext - 1
    epoch := stream.epoch
    lastSync := now
    dirty := false },
    ⟨stream.firstSeq.getD (stream.expectedNext - 1 + 1), stream.expectedNext - 1, stream.truncated⟩)

/-! ## The same as collecting -/

section Alike

variable {ν α : Type} {onFrame : Frame → δ → δ} {d₀ d : δ} {u : ν} {acc : Scan} {stream : Stream}

/-- The callback has been called on the frames collected so far, and the counters count them. -/
structure Streams (onFrame : Frame → δ → δ) (d₀ : δ) (stream : Stream) (d : δ) (acc : Scan) : Prop where
  next : stream.expectedNext = acc.expectedNext
  epoch : stream.epoch = acc.epoch
  count : stream.count = acc.frames.length
  first : stream.firstSeq = acc.frames.head?.map (·.seq)
  truncated : stream.truncated = acc.truncated
  state : d = acc.frames.foldl (fun d frame => onFrame frame d) d₀

theorem Streams.see (h : Streams onFrame d₀ stream d acc) (epoch : UInt64) (frames : List Frame) (next : ℕ) :
    Streams onFrame d₀ (stream.see epoch frames next) (frames.foldl (fun d frame => onFrame frame d) d)
      ⟨next, epoch, acc.frames ++ frames, acc.truncated⟩ := by
  refine ⟨rfl, rfl, ?_, ?_, h.truncated, ?_⟩
  · simp [Stream.see, h.count]
  · simp [Stream.see, h.first, List.head?_append, Option.map_or]
  · simp [h.state]

theorem alike_diskCall (act : Disk FileName → Except IoError α × Disk FileName) :
    Alike (Same d u) (io (diskCall act) : Prog δ JStore JournalError α) (io (diskCall act)) d u :=
  alike_mapErr (alike_call _ _ _)

/-- What relates the two scans: the memory of the collecting one is not touched. -/
def Related (onFrame : Frame → δ → δ) (d₀ : δ) (u : ν) (stream : Stream) (d : δ) (acc : Scan) (u' : ν) : Prop :=
  Streams onFrame d₀ stream d acc ∧ u' = u

theorem replaySegment_alike (h : Streams onFrame d₀ stream d acc) (isFirst isLast : Bool) (first : ℕ) :
    Alike (Related onFrame d₀ u) (replaySegment onFrame isFirst isLast first stream)
      (scanSegment isFirst isLast first acc) d u := by
  refine alike_bind_same (alike_diskCall _) fun bytes => ?_
  refine alike_bind_same (alike_ofExcept _) fun header => ?_
  rw [h.next]
  generalize (if isFirst = true then header.firstSeq else acc.expectedNext) = expected
  simp only
  split
  · exact alike_fail _
  · generalize scanFrames bytes.length (bytes.drop SEGMENT_HEADER_LEN) expected = scanned
    obtain ⟨frames, next, fin⟩ := scanned
    refine alike_update_bind ?_
    have hsee := h.see header.epoch frames next
    cases fin with
    | clean => exact alike_pure ⟨hsee, rfl⟩
    | bad err left =>
      simp only [replayEnd, endSegment]
      split
      · refine alike_bind_same (alike_diskCall _) fun _ => ?_
        exact alike_pure ⟨⟨hsee.next, hsee.epoch, hsee.count, hsee.first, rfl, hsee.state⟩, rfl⟩
      · exact alike_fail _
    | gap found => exact alike_fail _
    | overflow => exact alike_panic

theorem replaySegments_alike (h : Streams onFrame d₀ stream d acc) (isFirst : Bool) (l : List ℕ) :
    Alike (Related onFrame d₀ u) (replaySegments onFrame isFirst l stream) (scanSegments isFirst l acc) d u := by
  induction l generalizing isFirst stream d acc with
  | nil => exact alike_pure ⟨h, rfl⟩
  | cons first l ih =>
    cases l with
    | nil => exact replaySegment_alike h _ _ _
    | cons next rest =>
      refine alike_bind (replaySegment_alike h isFirst false first) ?_
      rintro stream' d' acc' _ ⟨h', rfl⟩
      exact ih h' false

theorem reopenLast_alike (segments : List ℕ) (count : ℕ) :
    Alike (Same d u) (reopenLast segments count) (reopenLast segments count) d u := by
  unfold reopenLast
  split
  · exact alike_pure ⟨rfl, rfl, rfl⟩
  · refine alike_bind_same (alike_diskCall _) fun _ => alike_bind_same (alike_diskCall _) fun size => ?_
    exact alike_pure ⟨rfl, rfl, rfl⟩

/-- **Streaming recovery** makes the calls of `openWith`, ends as it does, and where both return it has called
the callback on the same frames in the same order, and reports the same. -/
theorem replayOpen_alike (config : JournalConfig) (onFrame : Frame → δ → δ) (d : δ) (u : ν) :
    Alike (fun p d' r _ => p.1 = r.journal ∧ p.2 = ⟨r.firstSeq, r.journal.lastSeq, r.truncatedTornTail⟩ ∧
        d' = r.frames.foldl (fun d frame => onFrame frame d) d)
      (replayOpen config onFrame) (openWith config) d u := by
  refine alike_bind_same (alike_diskCall _) fun _ => alike_bind_same (alike_diskCall _) fun names => ?_
  have hstart : Streams onFrame d Stream.start d Scan.start := ⟨rfl, rfl, rfl, rfl, rfl, rfl⟩
  refine alike_bind (replaySegments_alike hstart true _) ?_
  rintro stream d' acc _ ⟨h, rfl⟩
  rw [h.count]
  refine alike_bind_same (reopenLast_alike _ _) fun current => ?_
  refine alike_bind_same alike_instant fun now => alike_bind_same (alike_note _) fun _ => ?_
  refine alike_pure ⟨?_, ?_, h.state⟩
  · rw [h.next, h.epoch]
  · have hfirst : stream.firstSeq.getD (stream.expectedNext - 1 + 1) = acc.firstSeq := by
      rw [h.first, h.next, Scan.firstSeq]
      cases acc.frames <;> rfl
    rw [hfirst, h.next, h.truncated]

end Alike

end Ticktape.Journal
