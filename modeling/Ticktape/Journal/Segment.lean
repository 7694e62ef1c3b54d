import Ticktape.Core.Frame
import Ticktape.Journal.Storage

/-!
# Segments

The on-disk form of a journal segment (`ticktape-journal/src/lib.rs`): a 28-byte header that
names the first sequence number, then back-to-back frames. `scanFrames` is the loop of
`open_inner` over the frames of one segment.
-/

namespace Ticktape.Journal

open Ticktape.Lib Ticktape.Core

/-- Why a journal operation failed. -/
inductive JournalError where
  | io (e : IoError)
  /-- A sealed (non-final) segment failed validation. -/
  | corrupt (segment : FileName) (offset : ℕ) (reason : String)
  /-- A segment header was malformed or version-incompatible. -/
  | badSegmentHeader (segment : FileName) (reason : String)
  /-- Sequence numbers on disk are not gapless. -/
  | nonContiguousSeq (segment : FileName) (expected found : ℕ)
  /-- `append` was called with a seq that is not `last_seq + 1`. -/
  | outOfOrderAppend (expected found : ℕ)
  deriving DecidableEq

/-! ## Headers -/

/-- `b"TKTJ"`. -/
def SEGMENT_MAGIC : Bytes := [0x54, 0x4B, 0x54, 0x4A]

/-- The version of both the segment and the snapshot format. -/
def FORMAT_VERSION : ℕ := 1

/-- magic(4) + version(4) + first_seq(8) + epoch(8) + crc(4). -/
def SEGMENT_HEADER_LEN : ℕ := 28

/-- The fields of a segment header. -/
structure SegmentHeader where
  firstSeq : ℕ
  epoch : UInt64
  deriving DecidableEq

/-- The checksummed part of a segment header. -/
def segmentHeaderFields (firstSeq : ℕ) (epoch : UInt64) : Bytes :=
  SEGMENT_MAGIC ++ (leBytes 4 FORMAT_VERSION ++ (leBytes 8 firstSeq ++ leBytes 8 epoch.toNat))

/-- An encoded segment header. -/
def segmentHeaderBytes (firstSeq : ℕ) (epoch : UInt64) : Bytes :=
  withCrc (segmentHeaderFields firstSeq epoch)

/-- Validate the header of a segment. -/
def parseSegmentHeader (segment : FileName) (bytes : Bytes) : Except JournalError SegmentHeader :=
  if bytes.length < SEGMENT_HEADER_LEN then
    .error (.badSegmentHeader segment "file shorter than segment header")
  else if slice bytes 0 4 ≠ SEGMENT_MAGIC then .error (.badSegmentHeader segment "bad magic")
  else if leNat (slice bytes 4 4) ≠ FORMAT_VERSION then
    .error (.badSegmentHeader segment
      ("unsupported format version " ++ toString (leNat (slice bytes 4 4))))
  else if (crc32c (slice bytes 0 24)).toNat ≠ leNat (slice bytes 24 4) then
    .error (.badSegmentHeader segment "header CRC mismatch")
  else
    .ok { firstSeq := leNat (slice bytes 8 8), epoch := UInt64.ofNat (leNat (slice bytes 16 8)) }

@[simp] theorem segmentHeaderFields_length (firstSeq : ℕ) (epoch : UInt64) :
    (segmentHeaderFields firstSeq epoch).length = 24 := by
  simp [segmentHeaderFields, SEGMENT_MAGIC]

@[simp] theorem segmentHeaderBytes_length (firstSeq : ℕ) (epoch : UInt64) :
    (segmentHeaderBytes firstSeq epoch).length = SEGMENT_HEADER_LEN := by
  simp [segmentHeaderBytes, SEGMENT_HEADER_LEN]

/-- A whole header is read back, whatever follows it. -/
theorem parseSegmentHeader_bytes {firstSeq : ℕ} (h : firstSeq < 2 ^ 64) (epoch : UInt64)
    (segment : FileName) (rest : Bytes) :
    parseSegmentHeader segment (segmentHeaderBytes firstSeq epoch ++ rest) =
      .ok ⟨firstSeq, epoch⟩ := by
  have hlen : ¬(segmentHeaderBytes firstSeq epoch ++ rest).length < SEGMENT_HEADER_LEN := by
    simp
  have hmagic : slice (segmentHeaderBytes firstSeq epoch ++ rest) 0 4 = SEGMENT_MAGIC := by
    simp only [segmentHeaderBytes, withCrc, segmentHeaderFields, List.append_assoc]
    exact slice_here _ rfl
  have hversion : slice (segmentHeaderBytes firstSeq epoch ++ rest) 4 4 =
      leBytes 4 FORMAT_VERSION := by
    simp only [segmentHeaderBytes, withCrc, segmentHeaderFields, List.append_assoc]
    exact (slice_skip _ 0 4 rfl).trans (slice_here _ (leBytes_length 4 _))
  have hfirst : slice (segmentHeaderBytes firstSeq epoch ++ rest) 8 8 = leBytes 8 firstSeq := by
    simp only [segmentHeaderBytes, withCrc, segmentHeaderFields, List.append_assoc]
    refine (slice_skip _ 4 8 rfl).trans ?_
    exact (slice_skip _ 0 8 (leBytes_length 4 _)).trans (slice_here _ (leBytes_length 8 _))
  have hepoch : slice (segmentHeaderBytes firstSeq epoch ++ rest) 16 8 =
      leBytes 8 epoch.toNat := by
    simp only [segmentHeaderBytes, withCrc, segmentHeaderFields, List.append_assoc]
    refine (slice_skip _ 12 8 rfl).trans ?_
    refine (slice_skip _ 8 8 (leBytes_length 4 _)).trans ?_
    exact (slice_skip _ 0 8 (leBytes_length 8 _)).trans (slice_here _ (leBytes_length 8 _))
  have hdata : slice (segmentHeaderBytes firstSeq epoch ++ rest) 0 24 =
      segmentHeaderFields firstSeq epoch := by
    rw [segmentHeaderBytes, withCrc, List.append_assoc]
    exact slice_here _ (segmentHeaderFields_length ..)
  have hstored : slice (segmentHeaderBytes firstSeq epoch ++ rest) 24 4 =
      leBytes 4 (crc32c (segmentHeaderFields firstSeq epoch)).toNat := by
    rw [segmentHeaderBytes, withCrc, List.append_assoc]
    exact (slice_skip _ 0 4 (segmentHeaderFields_length ..)).trans (slice_here _ (leBytes_length 4 _))
  unfold parseSegmentHeader
  rw [if_neg hlen, hmagic, hversion, hdata, hstored, hfirst, hepoch, leNat_crc,
    leNat_leBytes_of_lt (show FORMAT_VERSION < 256 ^ 4 by decide),
    leNat_leBytes_of_lt (show firstSeq < 256 ^ 8 from h),
    leNat_leBytes_of_lt (show epoch.toNat < 256 ^ 8 from epoch.toNat_lt), UInt64.ofNat_toNat]
  simp

/-- A changed header is refused, whatever follows it. -/
theorem parseSegmentHeader_burst {firstSeq : ℕ} {epoch : UInt64} {q : Bytes}
    (h : BitBurst 32 (segmentHeaderBytes firstSeq epoch) q) (segment : FileName) (rest : Bytes) :
    ∃ e, parseSegmentHeader segment (q ++ rest) = .error e := by
  -- whichever check refuses first, the checksum would
  have hcrc := withCrc_rejects_burst h rest
  rw [segmentHeaderFields_length] at hcrc
  rw [parseSegmentHeader, if_pos hcrc]
  split_ifs <;> exact ⟨_, rfl⟩

/-- **Headers under damage**: the header of a segment is whole, or it is refused. -/
theorem parseSegmentHeader_damaged {firstSeq : ℕ} {epoch : UInt64} {rest q : Bytes}
    (h : Torn (segmentHeaderBytes firstSeq epoch ++ rest) q) (segment : FileName) :
    (∃ q', q = segmentHeaderBytes firstSeq epoch ++ q' ∧ Torn rest q') ∨
      ∃ e, parseSegmentHeader segment q = .error e := by
  rcases h.block with hwhole | hshort | ⟨a', q', rfl, hone⟩
  · exact Or.inl hwhole
  · rw [segmentHeaderBytes_length] at hshort
    exact Or.inr ⟨_, if_pos hshort⟩
  · exact Or.inr (parseSegmentHeader_burst (hone.bitBurst (by omega)) segment q')

/-- A damaged header with nothing behind it is refused. -/
theorem parseSegmentHeader_torn {firstSeq : ℕ} {epoch : UInt64} {q : Bytes}
    (h : Torn (segmentHeaderBytes firstSeq epoch) q) (segment : FileName) :
    q = segmentHeaderBytes firstSeq epoch ∨ ∃ e, parseSegmentHeader segment q = .error e := by
  have hblock : Torn (segmentHeaderBytes firstSeq epoch ++ []) q := by simpa using h
  refine (parseSegmentHeader_damaged hblock segment).imp_left ?_
  rintro ⟨q', rfl, hq'⟩
  rw [torn_nil] at hq'
  simp [hq']

/-! ## Sequence numbers -/

/-- `Seq::next`: an overflowing `u64` addition panics. -/
def seqNext (seq : ℕ) : Option ℕ := if seq + 1 < 2 ^ 64 then some (seq + 1) else none

/-! ## Frames of one segment -/

/-- How the scan of one segment ended. -/
inductive ScanEnd where
  /-- At the end of the file. -/
  | clean
  /-- At bytes that are not a frame; `left` bytes remain from there on. -/
  | bad (err : FrameError) (left : ℕ)
  /-- At a frame whose seq is not the expected one. -/
  | gap (found : ℕ)
  /-- Computing the next expected seq overflowed. -/
  | overflow
  deriving DecidableEq

/-- Read frames off the front of `cursor`, checking that their seqs count up from `expected`.
Returns the frames read, the next expected seq, and how the scan ended. A frame takes at least
32 bytes, so `cursor.length` is enough fuel. -/
def scanFrames : ℕ → Bytes → ℕ → List Frame × ℕ × ScanEnd
  | 0, _, expected => ([], expected, .clean)
  | fuel + 1, cursor, expected =>
    if cursor = [] then ([], expected, .clean)
    else
      match Frame.readFrom cursor with
      | .error e => ([], expected, .bad e cursor.length)
      | .ok (frame, rest) =>
        if frame.seq ≠ expected then ([], expected, .gap frame.seq)
        else
          match seqNext frame.seq with
          | none => ([frame], expected, .overflow)
          | some next =>
            let (frames, last, fin) := scanFrames fuel rest next
            (frame :: frames, last, fin)

/-- `fs` are frames with consecutive seqs from `first` on. -/
def SeqRun : ℕ → List Frame → Prop
  | _, [] => True
  | first, f :: fs => f.seq = first ∧ SeqRun (first + 1) fs

instance SeqRun.decidable : (first : ℕ) → (fs : List Frame) → Decidable (SeqRun first fs)
  | _, [] => isTrue trivial
  | first, f :: fs =>
    have := SeqRun.decidable (first + 1) fs
    inferInstanceAs (Decidable (f.seq = first ∧ SeqRun (first + 1) fs))

theorem SeqRun.append {first : ℕ} {fs gs : List Frame} :
    SeqRun first (fs ++ gs) ↔ SeqRun first fs ∧ SeqRun (first + fs.length) gs := by
  induction fs generalizing first with
  | nil => simp [SeqRun]
  | cons f fs ih =>
    simp only [List.cons_append, SeqRun, ih, List.length_cons, and_assoc]
    rw [Nat.add_assoc, Nat.add_comm 1]

theorem SeqRun.take {first : ℕ} {fs : List Frame} (h : SeqRun first fs) (n : ℕ) :
    SeqRun first (fs.take n) := by
  rw [← List.take_append_drop n fs, SeqRun.append] at h
  exact h.1

theorem SeqRun.drop {first : ℕ} {fs : List Frame} (h : SeqRun first fs) {n : ℕ}
    (hn : n ≤ fs.length) : SeqRun (first + n) (fs.drop n) := by
  rw [← List.take_append_drop n fs, SeqRun.append, List.length_take, Nat.min_eq_left hn] at h
  exact h.2

/-- Consecutive frames run into the largest seq only at their end. -/
theorem SeqRun.bound {first : ℕ} {fs : List Frame} (h : SeqRun first fs) (hne : fs ≠ []) :
    first + fs.length ≤ 2 ^ 64 := by
  induction fs generalizing first with
  | nil => exact absurd rfl hne
  | cons f fs ih =>
    obtain ⟨rfl, hrun⟩ := h
    cases fs with
    | nil => exact f.seq_lt
    | cons g fs =>
      have hrest := ih hrun (by simp)
      simp only [List.length_cons] at hrest ⊢
      omega

/-- **Scanning intact frames**: consecutive frames are read back, and what follows them decides
how the scan ends; unless a seq overflows. -/
theorem scanFrames_encodeAll {fs : List Frame} {expected : ℕ} (hrun : SeqRun expected fs)
    {q : Bytes} (hq : q = [] ∨ ∃ e, Frame.readFrom q = .error e) {fuel : ℕ}
    (hfuel : (encodeAll fs ++ q).length ≤ fuel) :
    (scanFrames fuel (encodeAll fs ++ q) expected).2.2 = .overflow ∨
    ∃ fin, scanFrames fuel (encodeAll fs ++ q) expected = (fs, expected + fs.length, fin) ∧
      (q = [] ∧ fin = .clean ∨ q ≠ [] ∧ ∃ e, fin = .bad e q.length) := by
  induction fs generalizing expected fuel with
  | nil =>
    refine Or.inr ?_
    rw [encodeAll_nil, List.nil_append] at hfuel ⊢
    cases fuel with
    | zero =>
      obtain rfl : q = [] := List.eq_nil_of_length_eq_zero (Nat.le_zero.mp hfuel)
      exact ⟨.clean, rfl, Or.inl ⟨rfl, rfl⟩⟩
    | succ fuel =>
      rcases Classical.em (q = []) with rfl | hne
      · exact ⟨.clean, by simp [scanFrames], Or.inl ⟨rfl, rfl⟩⟩
      · obtain ⟨e, he⟩ := hq.resolve_left hne
        exact ⟨.bad e q.length, by simp [scanFrames, hne, he], Or.inr ⟨hne, e, rfl⟩⟩
  | cons f fs ih =>
    obtain ⟨hseq, hrun⟩ := hrun
    have hread : Frame.readFrom (encodeAll (f :: fs) ++ q) = .ok (f, encodeAll fs ++ q) := by
      rw [encodeAll_cons, List.append_assoc, Frame.readFrom_toBytes]
    have hlen : (encodeAll (f :: fs) ++ q).length = f.encodedLen + (encodeAll fs ++ q).length := by
      rw [encodeAll_cons, List.append_assoc, List.length_append, Frame.toBytes_length]
    have hpos : 0 < f.encodedLen := by simp only [Frame.encodedLen]; omega
    have hne : encodeAll (f :: fs) ++ q ≠ [] := by
      intro h
      rw [h] at hlen
      simp only [List.length_nil] at hlen
      omega
    cases fuel with
    | zero => rw [hlen] at hfuel; omega
    | succ fuel =>
      simp only [scanFrames, hne, hread, hseq, if_false, ne_eq, not_true_eq_false]
      cases hnext : seqNext expected with
      | none => exact Or.inl rfl
      | some next =>
        have hval : next = expected + 1 := by
          unfold seqNext at hnext
          split at hnext
          · exact (Option.some.inj hnext).symm
          · cases hnext
        subst hval
        rcases ih hrun (show _ ≤ fuel by omega) with hover | ⟨fin, heq, hfin⟩
        · exact Or.inl hover
        · refine Or.inr ⟨fin, ?_, hfin⟩
          simp only [heq, List.length_cons]
          rw [Nat.add_assoc, Nat.add_comm 1]

/-- Below the largest seq the scan does not overflow. -/
theorem scanFrames_no_overflow {fs : List Frame} {expected : ℕ} (hrun : SeqRun expected fs)
    (hmax : expected + fs.length < 2 ^ 64) {q : Bytes}
    (hq : q = [] ∨ ∃ e, Frame.readFrom q = .error e) (fuel : ℕ) :
    (scanFrames fuel (encodeAll fs ++ q) expected).2.2 ≠ .overflow := by
  induction fs generalizing expected fuel with
  | nil =>
    rw [encodeAll_nil, List.nil_append]
    cases fuel with
    | zero => simp [scanFrames]
    | succ fuel =>
      rcases Classical.em (q = []) with rfl | hne
      · simp [scanFrames]
      · obtain ⟨e, he⟩ := hq.resolve_left hne
        simp [scanFrames, hne, he]
  | cons f fs ih =>
    obtain ⟨hseq, hrun⟩ := hrun
    rw [List.length_cons] at hmax
    cases fuel with
    | zero => simp [scanFrames]
    | succ fuel =>
      have hread : Frame.readFrom (encodeAll (f :: fs) ++ q) = .ok (f, encodeAll fs ++ q) := by
        rw [encodeAll_cons, List.append_assoc, Frame.readFrom_toBytes]
      have hne : encodeAll (f :: fs) ++ q ≠ [] := by
        rw [encodeAll_cons, List.append_assoc]
        intro h
        exact f.toBytes_ne_nil (List.append_eq_nil_iff.mp h).1
      have hnext : seqNext expected = some (expected + 1) := if_pos (by omega)
      simp only [scanFrames, hne, hread, hseq, if_false, ne_eq, not_true_eq_false, hnext]
      exact ih hrun (by omega) fuel

end Ticktape.Journal
