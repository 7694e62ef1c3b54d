import Ticktape.Core.Crc32c

/-!
# Frames

The record layout shared by the wire and the journal (`ticktape-core/src/frame.rs`): a
28-byte little-endian header ending in its checksum, the payload, and the payload's
checksum. Besides the round trip, the journal needs to know what reading does on damaged
bytes: `readFrom_torn` says a frame is either read back exactly or refused.
-/

namespace Ticktape.Core

open Ticktape.Lib

/-- Size of the fixed frame header. -/
def FRAME_HEADER_LEN : ℕ := 28

/-- Hard cap on payload size (64 MiB). -/
def MAX_PAYLOAD_LEN : ℕ := 64 * 1024 * 1024

/-- What a frame carries. -/
inductive FrameKind where
  | input
  | output
  | tick
  | timerFired
  | sessionOpen
  | sessionClose
  | snapshotMark
  | epochChange
  | heartbeat
  deriving DecidableEq, Repr

/-- The stable wire constant of a kind. -/
def FrameKind.toU16 : FrameKind → ℕ
  | .input => 0x0001
  | .output => 0x0002
  | .tick => 0x0010
  | .timerFired => 0x0013
  | .sessionOpen => 0x0011
  | .sessionClose => 0x0012
  | .snapshotMark => 0x0020
  | .epochChange => 0x0030
  | .heartbeat => 0x00FF

/-- The kind of a wire constant. -/
def FrameKind.fromU16 (v : ℕ) : Option FrameKind :=
  match v with
  | 0x0001 => some .input
  | 0x0002 => some .output
  | 0x0010 => some .tick
  | 0x0013 => some .timerFired
  | 0x0011 => some .sessionOpen
  | 0x0012 => some .sessionClose
  | 0x0020 => some .snapshotMark
  | 0x0030 => some .epochChange
  | 0x00FF => some .heartbeat
  | _ => none

@[simp] theorem FrameKind.fromU16_toU16 (k : FrameKind) : FrameKind.fromU16 k.toU16 = some k := by
  cases k <;> rfl

theorem FrameKind.toU16_lt (k : FrameKind) : k.toU16 < 256 ^ 2 := by
  cases k <;> decide

/-- Errors from decoding a frame. -/
inductive FrameError where
  | truncated
  | headerCrc
  | payloadCrc
  | unknownKind (kind : ℕ)
  | payloadTooLarge (len : ℕ)
  deriving DecidableEq, Repr

/-- A number in hexadecimal with four digits, as `#06x` prints a `u16`. -/
def hex4 (n : ℕ) : String :=
  "0x" ++ String.ofList ([n / 4096 % 16, n / 256 % 16, n / 16 % 16, n % 16].map Nat.digitChar)

/-- The text of a frame error. -/
def FrameError.toText : FrameError → String
  | .truncated => "truncated frame"
  | .headerCrc => "frame header CRC mismatch"
  | .payloadCrc => "frame payload CRC mismatch"
  | .unknownKind k => "unknown frame kind " ++ hex4 k
  | .payloadTooLarge n => "payload_len " ++ toString n ++ " exceeds cap"

/-- One sequenced record. `Frame::new` asserts the payload bound; sequence numbers are `u64`. -/
structure Frame where
  seq : ℕ
  timestamp : UInt64
  streamId : UInt16
  kind : FrameKind
  payload : Bytes
  seq_lt : seq < 2 ^ 64
  payload_le : payload.length ≤ MAX_PAYLOAD_LEN
  deriving DecidableEq

/-! The bounds of small frames without a payload. -/

theorem one_lt_seqs : 1 < 2 ^ 64 := by decide

theorem two_lt_seqs : 2 < 2 ^ 64 := by decide

theorem nil_payload_le : ([] : Bytes).length ≤ MAX_PAYLOAD_LEN := Nat.zero_le _

namespace Frame

/-- Header, payload and payload checksum. -/
def encodedLen (f : Frame) : ℕ := FRAME_HEADER_LEN + f.payload.length + 4

/-- The checksummed part of the header. -/
def headerBytes (f : Frame) : Bytes :=
  leBytes 8 f.seq ++ (leBytes 8 f.timestamp.toNat ++ (leBytes 2 f.streamId.toNat ++
    (leBytes 2 f.kind.toU16 ++ leBytes 4 f.payload.length)))

/-- The encoded frame, as `write_to` appends it. -/
def toBytes (f : Frame) : Bytes := withCrc f.headerBytes ++ withCrc f.payload

@[simp] theorem headerBytes_length (f : Frame) : f.headerBytes.length = 24 := by
  simp [headerBytes]

@[simp] theorem toBytes_length (f : Frame) : f.toBytes.length = f.encodedLen := by
  simp [toBytes, encodedLen, FRAME_HEADER_LEN]
  omega

theorem toBytes_ne_nil (f : Frame) : f.toBytes ≠ [] := by
  intro h
  have := congrArg List.length h
  rw [toBytes_length, encodedLen, FRAME_HEADER_LEN] at this
  simp at this

/-- Decode one frame from the front of `buf`; the rest of the buffer is returned. -/
def readFrom (buf : Bytes) : Except FrameError (Frame × Bytes) :=
  if buf.length < FRAME_HEADER_LEN then .error .truncated
  else
    let header := slice buf 0 24
    if (crc32c header).toNat ≠ leNat (slice buf 24 4) then .error .headerCrc
    else
      let payloadLen := leNat (slice header 20 4)
      if hlen : payloadLen > MAX_PAYLOAD_LEN then .error (.payloadTooLarge payloadLen)
      else
        match FrameKind.fromU16 (leNat (slice header 18 2)) with
        | none => .error (.unknownKind (leNat (slice header 18 2)))
        | some kind =>
          let total := FRAME_HEADER_LEN + payloadLen + 4
          if buf.length < total then .error .truncated
          else
            let payload := slice buf FRAME_HEADER_LEN payloadLen
            if (crc32c payload).toNat ≠ leNat (slice buf (total - 4) 4) then .error .payloadCrc
            else
              .ok ({
                seq := leNat (slice header 0 8)
                timestamp := UInt64.ofNat (leNat (slice header 8 8))
                streamId := UInt16.ofNat (leNat (slice header 16 2))
                kind := kind
                payload := payload
                seq_lt := leNat_slice_lt header 0 8
                payload_le := Nat.le_trans (slice_length_le buf FRAME_HEADER_LEN payloadLen)
                  (Nat.le_of_not_gt hlen) }, buf.drop total)

/-! ## Reading an intact header -/

section Header

variable (f : Frame) (rest : Bytes)

theorem slice_seq : slice f.headerBytes 0 8 = leBytes 8 f.seq :=
  slice_here _ (leBytes_length 8 _)

theorem slice_timestamp : slice f.headerBytes 8 8 = leBytes 8 f.timestamp.toNat := by
  rw [headerBytes, slice_skip _ 0 8 (leBytes_length 8 _)]
  exact slice_here _ (leBytes_length 8 _)

theorem slice_streamId : slice f.headerBytes 16 2 = leBytes 2 f.streamId.toNat := by
  rw [headerBytes, slice_skip _ 8 2 (leBytes_length 8 _), slice_skip _ 0 2 (leBytes_length 8 _)]
  exact slice_here _ (leBytes_length 2 _)

theorem slice_kind : slice f.headerBytes 18 2 = leBytes 2 f.kind.toU16 := by
  rw [headerBytes, slice_skip _ 10 2 (leBytes_length 8 _), slice_skip _ 2 2 (leBytes_length 8 _),
    slice_skip _ 0 2 (leBytes_length 2 _)]
  exact slice_here _ (leBytes_length 2 _)

theorem slice_payloadLen : slice f.headerBytes 20 4 = leBytes 4 f.payload.length := by
  rw [headerBytes, slice_skip _ 12 4 (leBytes_length 8 _), slice_skip _ 4 4 (leBytes_length 8 _),
    slice_skip _ 2 4 (leBytes_length 2 _), slice_skip _ 0 4 (leBytes_length 2 _), slice,
    List.drop_zero, List.take_of_length_le (by simp)]

theorem leNat_payloadLen : leNat (slice f.headerBytes 20 4) = f.payload.length := by
  rw [slice_payloadLen, leNat_leBytes_of_lt]
  have := f.payload_le
  rw [MAX_PAYLOAD_LEN] at this
  omega

theorem leNat_kind : leNat (slice f.headerBytes 18 2) = f.kind.toU16 := by
  rw [slice_kind, leNat_leBytes_of_lt f.kind.toU16_lt]

/-- The header block of a buffer that starts with an intact header. -/
theorem slice_withCrc_header : slice (withCrc f.headerBytes ++ rest) 0 24 = f.headerBytes := by
  rw [withCrc, List.append_assoc]
  exact slice_here _ f.headerBytes_length

theorem slice_withCrc_stored :
    slice (withCrc f.headerBytes ++ rest) 24 4 = leBytes 4 (crc32c f.headerBytes).toNat := by
  rw [withCrc, List.append_assoc, slice_skip _ 0 4 f.headerBytes_length]
  exact slice_here _ (leBytes_length 4 _)

theorem slice_behind_header (off len : ℕ) :
    slice (withCrc f.headerBytes ++ rest) (FRAME_HEADER_LEN + off) len = slice rest off len :=
  slice_skip rest off len (by simp [FRAME_HEADER_LEN])

end Header

/-- **Reading behind an intact header** is decided by the payload block alone. -/
theorem readFrom_header (f : Frame) (rest : Bytes) :
    readFrom (withCrc f.headerBytes ++ rest) =
      if rest.length < f.payload.length + 4 then .error .truncated
      else if (crc32c (slice rest 0 f.payload.length)).toNat ≠ leNat (slice rest f.payload.length 4)
        then .error .payloadCrc
      else .ok ({ f with
        payload := slice rest 0 f.payload.length
        payload_le := Nat.le_trans (slice_length_le rest 0 f.payload.length) f.payload_le },
        rest.drop (f.payload.length + 4)) := by
  have hlong : ¬(withCrc f.headerBytes ++ rest).length < FRAME_HEADER_LEN := by
    simp [FRAME_HEADER_LEN]
  have hcrc : ¬((crc32c f.headerBytes).toNat ≠
      leNat (leBytes 4 (crc32c f.headerBytes).toNat)) := by
    rw [leNat_crc]; simp
  have hcap : ¬f.payload.length > MAX_PAYLOAD_LEN := Nat.not_lt.mpr f.payload_le
  have hbehind : slice (withCrc f.headerBytes ++ rest) FRAME_HEADER_LEN f.payload.length =
      slice rest 0 f.payload.length := slice_behind_header f rest 0 _
  have hstored : slice (withCrc f.headerBytes ++ rest)
      (FRAME_HEADER_LEN + f.payload.length + 4 - 4) 4 = slice rest f.payload.length 4 := by
    rw [Nat.add_sub_cancel]
    exact slice_behind_header f rest _ _
  have hdrop : (withCrc f.headerBytes ++ rest).drop (FRAME_HEADER_LEN + f.payload.length + 4) =
      rest.drop (f.payload.length + 4) := by
    rw [Nat.add_assoc, ← List.drop_drop, List.drop_left' (by simp [FRAME_HEADER_LEN])]
  have htotal : (withCrc f.headerBytes ++ rest).length < FRAME_HEADER_LEN + f.payload.length + 4 ↔
      rest.length < f.payload.length + 4 := by
    simp [FRAME_HEADER_LEN]
    omega
  have hseq : leNat (slice f.headerBytes 0 8) = f.seq := by
    rw [slice_seq, leNat_leBytes_of_lt (show f.seq < 256 ^ 8 from f.seq_lt)]
  have hts : UInt64.ofNat (leNat (slice f.headerBytes 8 8)) = f.timestamp := by
    rw [slice_timestamp, leNat_leBytes_of_lt (show _ < 256 ^ 8 from f.timestamp.toNat_lt),
      UInt64.ofNat_toNat]
  have hsid : UInt16.ofNat (leNat (slice f.headerBytes 16 2)) = f.streamId := by
    rw [slice_streamId, leNat_leBytes_of_lt (show _ < 256 ^ 2 from f.streamId.toNat_lt),
      UInt16.ofNat_toNat]
  unfold readFrom
  simp only [if_neg hlong, slice_withCrc_header, slice_withCrc_stored, if_neg hcrc, leNat_kind,
    FrameKind.fromU16_toU16, leNat_payloadLen, dif_neg hcap, htotal, hbehind, hstored, hdrop, hseq,
    hts, hsid]

theorem slice_payload (f : Frame) (rest : Bytes) :
    slice (withCrc f.payload ++ rest) 0 f.payload.length = f.payload := by
  rw [withCrc, List.append_assoc]
  exact slice_here _ rfl

/-- **Round trip**: an encoded frame is read back, whatever follows it. -/
theorem readFrom_toBytes (f : Frame) (rest : Bytes) :
    readFrom (f.toBytes ++ rest) = .ok (f, rest) := by
  have hlen : ¬(withCrc f.payload ++ rest).length < f.payload.length + 4 := by simp
  have hstored : slice (withCrc f.payload ++ rest) f.payload.length 4 =
      leBytes 4 (crc32c f.payload).toNat := by
    rw [withCrc, List.append_assoc]
    exact (slice_skip _ 0 4 rfl).trans (slice_here _ (leBytes_length 4 _))
  have hcrc : ¬((crc32c f.payload).toNat ≠ leNat (leBytes 4 (crc32c f.payload).toNat)) := by
    rw [leNat_crc]; simp
  have hdrop : (withCrc f.payload ++ rest).drop (f.payload.length + 4) = rest :=
    List.drop_left' (by simp)
  rw [toBytes, List.append_assoc, readFrom_header, if_neg hlen]
  simp only [slice_payload, hstored, if_neg hcrc, hdrop]

/-! ## Reading damaged bytes -/

/-- A changed header block is refused. -/
theorem readFrom_header_burst (f : Frame) {h' : Bytes} (rest : Bytes)
    (h : BitBurst 32 (withCrc f.headerBytes) h') : ∃ e, readFrom (h' ++ rest) = .error e := by
  have hlong : ¬(h' ++ rest).length < FRAME_HEADER_LEN := by
    simp [FRAME_HEADER_LEN, h.length_eq]
  have hcrc := withCrc_rejects_burst h rest
  rw [headerBytes_length] at hcrc
  refine ⟨.headerCrc, ?_⟩
  unfold readFrom
  simp only [if_neg hlong, if_pos hcrc]

/-- A changed payload block is refused. -/
theorem readFrom_payload_burst (f : Frame) {p' : Bytes} (rest : Bytes)
    (h : BitBurst 32 (withCrc f.payload) p') :
    ∃ e, readFrom (withCrc f.headerBytes ++ (p' ++ rest)) = .error e := by
  refine ⟨.payloadCrc, ?_⟩
  rw [readFrom_header, if_neg (by simp [h.length_eq])]
  simp only [if_pos (withCrc_rejects_burst h rest)]

/-- A frame that was changed is refused, whatever follows it. -/
theorem readFrom_burst (f : Frame) {q : Bytes} (rest : Bytes) (h : Burst 4 f.toBytes q) :
    ∃ e, readFrom (q ++ rest) = .error e := by
  obtain ⟨header, payload, rfl, hheader | ⟨rfl, hpayload⟩⟩ := h.split
  · rw [List.append_assoc]
    exact readFrom_header_burst f _ (hheader.bitBurst)
  · rw [List.append_assoc]
    exact readFrom_payload_burst f rest (hpayload.bitBurst)

theorem readFrom_short (buf : Bytes) (h : buf.length < 28) : readFrom buf = .error .truncated := by
  unfold readFrom
  rw [if_pos (show buf.length < FRAME_HEADER_LEN from h)]

/-- **Frames under damage**: of the bytes of a frame and what follows it, a power loss leaves
the frame whole in front, or something the reader refuses. -/
theorem readFrom_torn (f : Frame) {rest q : Bytes} (h : Torn (f.toBytes ++ rest) q) :
    (∃ q', q = f.toBytes ++ q' ∧ Torn rest q') ∨ ∃ e, readFrom q = .error e := by
  rw [toBytes, List.append_assoc] at h
  rcases h.block with ⟨q₁, rfl, h₁⟩ | hshort | ⟨h', q', rfl, hone⟩
  · rcases h₁.block with ⟨q₂, rfl, h₂⟩ | hshort | ⟨p', q', rfl, hone⟩
    · exact Or.inl ⟨q₂, by rw [toBytes, List.append_assoc], h₂⟩
    · refine Or.inr ⟨.truncated, ?_⟩
      rw [withCrc_length] at hshort
      rw [readFrom_header, if_pos hshort]
    · exact Or.inr (readFrom_payload_burst f q' (hone.bitBurst (by omega)))
  · rw [withCrc_length, headerBytes_length] at hshort
    exact Or.inr ⟨.truncated, readFrom_short q hshort⟩
  · exact Or.inr (readFrom_header_burst f q' (hone.bitBurst (by omega)))

end Frame

/-! ## Runs of frames -/

/-- Back-to-back encodings. -/
def encodeAll (fs : List Frame) : Bytes := fs.flatMap Frame.toBytes

@[simp] theorem encodeAll_nil : encodeAll [] = [] := rfl

@[simp] theorem encodeAll_cons (f : Frame) (fs : List Frame) :
    encodeAll (f :: fs) = f.toBytes ++ encodeAll fs := List.flatMap_cons ..

@[simp] theorem encodeAll_append (fs gs : List Frame) :
    encodeAll (fs ++ gs) = encodeAll fs ++ encodeAll gs := List.flatMap_append ..

/-- **Runs under damage**: the survivors of a run of frames are a prefix of the run and then
either nothing or something the reader refuses. -/
theorem encodeAll_torn (fs : List Frame) {q : Bytes} (h : Torn (encodeAll fs) q) :
    ∃ k q', k ≤ fs.length ∧ q = encodeAll (fs.take k) ++ q' ∧
      (q' = [] ∨ ∃ e, Frame.readFrom q' = .error e) := by
  induction fs generalizing q with
  | nil =>
    rw [encodeAll_nil, torn_nil] at h
    exact ⟨0, [], Nat.le_refl 0, by simp [h], Or.inl rfl⟩
  | cons f fs ih =>
    rw [encodeAll_cons] at h
    rcases Frame.readFrom_torn f h with ⟨q₁, rfl, h₁⟩ | herr
    · obtain ⟨k, q', hk, rfl, hq'⟩ := ih h₁
      exact ⟨k + 1, q', by simpa using hk, by simp, hq'⟩
    · exact ⟨0, q, Nat.zero_le _, by simp, Or.inr herr⟩

/-- **Runs of frames under bit rot**: the frames before the changed one are whole, and it is refused. -/
theorem encodeAll_burst (fs : List Frame) {q : Bytes} (h : Burst 4 (encodeAll fs) q) :
    ∃ k q', k < fs.length ∧ q = encodeAll (fs.take k) ++ q' ∧ q' ≠ [] ∧ ∃ e, Frame.readFrom q' = .error e := by
  induction fs generalizing q with
  | nil =>
    have hnil : q = [] := List.eq_nil_of_length_eq_zero (by rw [h.length_eq]; rfl)
    exact absurd hnil.symm h.ne
  | cons f fs ih =>
    rw [encodeAll_cons] at h
    obtain ⟨frame, rest, rfl, hframe | ⟨rfl, hrest⟩⟩ := h.split
    · refine ⟨0, frame ++ rest, Nat.succ_pos _, rfl, fun hnil => ?_, Frame.readFrom_burst f rest hframe⟩
      -- a frame has bytes
      have hlen := hframe.length_eq
      rw [(List.append_eq_nil_iff.mp hnil).1] at hlen
      exact f.toBytes_ne_nil (List.eq_nil_of_length_eq_zero hlen.symm)
    · obtain ⟨k, q', hk, rfl, hne, hbad⟩ := ih hrest
      refine ⟨k + 1, q', Nat.succ_lt_succ hk, ?_, hne, hbad⟩
      rw [List.take_succ_cons, encodeAll_cons, List.append_assoc]

end Ticktape.Core
