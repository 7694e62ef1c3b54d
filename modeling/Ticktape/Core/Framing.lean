import Ticktape.Core.Frame

/-!
# Frames back to back

A packet and a segment body are frames written one after the other. A reader takes them off the
front until the buffer is empty or refused. Reading is exact in both directions: the frames written
are the frames read, with whatever is left of a torn one reported as truncated; and bytes that are
read as a frame are the encoding of that frame.
-/

namespace Ticktape.Core

open Ticktape.Lib

/-! ## What is read was written -/

theorem slice_append (bs : Bytes) (off m n : ℕ) :
    slice bs off (m + n) = slice bs off m ++ slice bs (off + m) n := by
  simp only [slice, List.take_add, List.drop_drop]

/-- A block whose stored checksum matches is that block with its checksum. -/
theorem withCrc_eq {data stored : Bytes} (hlen : stored.length = 4)
    (hcrc : (crc32c data).toNat = leNat stored) : withCrc data = data ++ stored := by
  rw [withCrc, hcrc, ← hlen, leBytes_leNat]

theorem FrameKind.toU16_of_fromU16 {v : ℕ} {kind : FrameKind} (h : FrameKind.fromU16 v = some kind) :
    kind.toU16 = v := by
  unfold FrameKind.fromU16 at h
  split at h
  all_goals cases h
  all_goals rfl

namespace Frame

/-- The header fields of a block of 24 bytes are that block. -/
theorem header_fields {header : Bytes} (hlen : header.length = 24) :
    leBytes 8 (leNat (slice header 0 8)) ++ (leBytes 8 (leNat (slice header 8 8)) ++
      (leBytes 2 (leNat (slice header 16 2)) ++ (leBytes 2 (leNat (slice header 18 2)) ++
        leBytes 4 (leNat (slice header 20 4))))) = header := by
  have hfield : ∀ off len, off + len ≤ 24 →
      leBytes len (leNat (slice header off len)) = slice header off len := by
    intro off len h
    have hlength : (slice header off len).length = len := slice_length (by rw [hlen]; exact h)
    have hback := leBytes_leNat (slice header off len)
    rwa [hlength] at hback
  rw [hfield 0 8 (by decide), hfield 8 8 (by decide), hfield 16 2 (by decide), hfield 18 2 (by decide),
    hfield 20 4 (by decide)]
  rw [← slice_append header 18 2 4, ← slice_append header 16 2 6, ← slice_append header 8 8 8,
    ← slice_append header 0 8 16]
  rw [slice, List.drop_zero, List.take_of_length_le (Nat.le_of_eq hlen)]

/-- What a successful read has checked, and what it takes from where. -/
structure ReadAs (buf : Bytes) (f : Frame) (rest : Bytes) : Prop where
  long : FRAME_HEADER_LEN + f.payload.length + 4 ≤ buf.length
  headerCrc : (crc32c (slice buf 0 24)).toNat = leNat (slice buf 24 4)
  payloadCrc : (crc32c f.payload).toNat = leNat (slice buf (FRAME_HEADER_LEN + f.payload.length) 4)
  seq : f.seq = leNat (slice (slice buf 0 24) 0 8)
  timestamp : f.timestamp.toNat = leNat (slice (slice buf 0 24) 8 8)
  streamId : f.streamId.toNat = leNat (slice (slice buf 0 24) 16 2)
  kind : f.kind.toU16 = leNat (slice (slice buf 0 24) 18 2)
  payloadLen : f.payload.length = leNat (slice (slice buf 0 24) 20 4)
  payload : f.payload = slice buf FRAME_HEADER_LEN f.payload.length
  rest_eq : rest = buf.drop (FRAME_HEADER_LEN + f.payload.length + 4)

theorem readAs_of_readFrom {buf rest : Bytes} {f : Frame} (h : readFrom buf = .ok (f, rest)) :
    ReadAs buf f rest := by
  unfold readFrom at h
  dsimp only at h
  split at h
  · cases h
  split at h
  · cases h
  next hcrc =>
  split at h
  · cases h
  split at h
  · cases h
  next kind hkind =>
  split at h
  · cases h
  next hwhole =>
  split at h
  · cases h
  next hpayloadCrc =>
  obtain ⟨rfl, rfl⟩ := Prod.mk.inj (Except.ok.inj h)
  have hlen : (slice buf FRAME_HEADER_LEN (leNat (slice (slice buf 0 24) 20 4))).length
      = leNat (slice (slice buf 0 24) 20 4) := slice_length (by omega)
  exact {
    long := by
      rw [hlen]
      exact Nat.le_of_not_lt hwhole
    headerCrc := not_not.mp hcrc
    payloadCrc := by
      rw [hlen]
      exact not_not.mp hpayloadCrc
    seq := rfl
    timestamp := by
      have hlt := leNat_slice_lt (slice buf 0 24) 8 8
      exact UInt64.toNat_ofNat_of_lt' hlt
    streamId := by
      have hlt := leNat_slice_lt (slice buf 0 24) 16 2
      exact UInt16.toNat_ofNat_of_lt' hlt
    kind := FrameKind.toU16_of_fromU16 hkind
    payloadLen := hlen
    payload := by rw [hlen]
    rest_eq := by rw [hlen] }

/-- **What is read as a frame is its encoding**, whatever follows. -/
theorem readFrom_ok {buf rest : Bytes} {f : Frame} (h : readFrom buf = .ok (f, rest)) :
    buf = f.toBytes ++ rest := by
  have hread := readAs_of_readFrom h
  have hlong := hread.long
  rw [FRAME_HEADER_LEN] at hlong
  -- the header, then the payload, each in front of its checksum
  have hheader : withCrc f.headerBytes = slice buf 0 28 := by
    have hfields : f.headerBytes = slice buf 0 24 := by
      rw [headerBytes, hread.seq, hread.timestamp, hread.streamId, hread.kind, hread.payloadLen]
      exact header_fields (slice_length (by omega))
    rw [hfields, withCrc_eq (slice_length (by omega)) hread.headerCrc]
    exact (slice_append buf 0 24 4).symm
  have hpayload : withCrc f.payload = slice buf 28 (f.payload.length + 4) := by
    rw [withCrc_eq (slice_length (by rw [FRAME_HEADER_LEN]; omega)) hread.payloadCrc, slice_append]
    exact congrArg (· ++ _) hread.payload
  calc buf = slice buf 0 (28 + (f.payload.length + 4)) ++ rest := by
        rw [hread.rest_eq, slice, List.drop_zero, FRAME_HEADER_LEN, Nat.add_assoc, List.take_append_drop]
    _ = f.toBytes ++ rest := by
        rw [slice_append, toBytes, hheader, hpayload]

theorem readFrom_shortens {buf rest : Bytes} {f : Frame} (h : readFrom buf = .ok (f, rest)) :
    rest.length < buf.length := by
  have hpos := List.length_pos_of_ne_nil f.toBytes_ne_nil
  rw [readFrom_ok h, List.length_append]
  omega

/-! ## A torn frame -/

/-- **A part of a frame is truncated**, wherever it was cut. -/
theorem readFrom_part {f : Frame} {part : Bytes} (h : part <+: f.toBytes) (hne : part ≠ f.toBytes) :
    readFrom part = .error .truncated := by
  have hlt : part.length < f.encodedLen := by
    rw [← toBytes_length]
    exact Nat.lt_of_le_of_ne h.length_le fun heq => hne (h.eq_of_length heq)
  by_cases hheader : part.length < 28
  · exact readFrom_short part hheader
  -- behind an intact header too few bytes are left
  obtain ⟨cut, hcut⟩ := h
  have hblock : (withCrc f.headerBytes).length = 28 := by simp
  have hpart : part = withCrc f.headerBytes ++ part.drop 28 := by
    have htake := congrArg (List.take 28) hcut
    rw [List.take_append_of_le_length (by omega), toBytes, List.take_left' hblock] at htake
    rw [← htake, List.take_append_drop]
  rw [hpart, readFrom_header, if_pos]
  rw [List.length_drop]
  rw [encodedLen, FRAME_HEADER_LEN] at hlt
  omega

end Frame

/-! ## The reading loop -/

/-- Read frames off the front until the buffer is empty or a frame is refused. -/
def readAll (buf : Bytes) : List Frame × Option FrameError :=
  if buf.isEmpty then ([], none)
  else
    match _hread : Frame.readFrom buf with
    | .error e => ([], some e)
    | .ok (f, rest) =>
      let (fs, e) := readAll rest
      (f :: fs, e)
termination_by buf.length
decreasing_by exact Frame.readFrom_shortens _hread

theorem readAll_nil : readAll [] = ([], none) := by
  unfold readAll
  simp

theorem readAll_refused {buf : Bytes} {e : FrameError} (hne : buf ≠ [])
    (h : Frame.readFrom buf = .error e) : readAll buf = ([], some e) := by
  unfold readAll
  rw [if_neg (by simpa using hne)]
  split
  · next e' he =>
    rw [h] at he
    cases he
    rfl
  · next f rest hok =>
    rw [h] at hok
    cases hok

theorem readAll_frame (f : Frame) (rest : Bytes) :
    readAll (f.toBytes ++ rest) = (f :: (readAll rest).1, (readAll rest).2) := by
  have hread := f.readFrom_toBytes rest
  have hne : (f.toBytes ++ rest).isEmpty = false := by simp [f.toBytes_ne_nil]
  rw [readAll, if_neg (by simp [hne])]
  split
  · next e he =>
    rw [hread] at he
    cases he
  · next f' rest' hok =>
    rw [hread] at hok
    cases hok
    rfl

theorem readAll_encodeAll (frames : List Frame) (rest : Bytes) :
    readAll (encodeAll frames ++ rest) = (frames ++ (readAll rest).1, (readAll rest).2) := by
  induction frames with
  | nil => simp
  | cons f fs ih => rw [encodeAll_cons, List.append_assoc, readAll_frame, ih, List.cons_append]

/-- **Any frames, any tail.** Frames written back to back, with any part of one more behind them, are
read back exactly, and the part is reported as truncated; and a successful read consumes exactly the
encoding of the frame it returns. -/
theorem any_frames_any_tail :
    (∀ (frames : List Frame) (f : Frame) (part : Bytes), part <+: f.toBytes → part ≠ f.toBytes →
      readAll (encodeAll frames ++ part)
        = (frames, if part = [] then none else some .truncated)) ∧
    ∀ (buf : Bytes) (f : Frame) (rest : Bytes), Frame.readFrom buf = .ok (f, rest) →
      buf = f.toBytes ++ rest := by
  refine ⟨fun frames f part hpart hne => ?_, fun buf f rest h => Frame.readFrom_ok h⟩
  rw [readAll_encodeAll]
  by_cases hnil : part = []
  · rw [hnil, readAll_nil]
    simp
  · rw [readAll_refused hnil (Frame.readFrom_part hpart hne)]
    simp [hnil]

/-- A tick, whole and then cut behind its header. -/
theorem any_frames_any_tail_of_tick : ∃ f : Frame,
    readAll (encodeAll [f] ++ f.toBytes.take 30) = ([f], some .truncated) ∧
    f.toBytes = f.toBytes ++ [] := by
  let f : Frame := ⟨1, 0, 1, .tick, [], one_lt_seqs, nil_payload_le⟩
  have hne : f.toBytes.take 30 ≠ f.toBytes := by decide +kernel
  have hnil : f.toBytes.take 30 ≠ [] := by decide +kernel
  have hread := any_frames_any_tail.1 [f] f _ (List.take_prefix 30 _) hne
  rw [if_neg hnil] at hread
  exact ⟨f, hread, any_frames_any_tail.2 _ f [] (by decide +kernel)⟩

end Ticktape.Core
