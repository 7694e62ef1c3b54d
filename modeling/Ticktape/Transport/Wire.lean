import Ticktape.Core.Framing
import Ticktape.Journal.Segment
import Ticktape.Transport.Reassembler

/-!
# Packets on the wire

The layout of the sequenced stream (`ticktape-transport/src/wire.rs`): a checked header of 27 bytes,
and behind it the frames of a data packet back to back. The header holds how many there are and the
seq of the first, so a data packet is determined by its content and its content by the packet. A
heartbeat is read from its header alone.

Sequence numbers are added in `u64`. A sum that does not fit stops the reader, which is told apart
from a packet it refuses: `none` is the failed addition.
-/

namespace Ticktape.Transport

open Ticktape.Lib Ticktape.Core Ticktape.Journal

def PACKET_MAGIC : Bytes := [84, 75, 84, 87]

def PACKET_HEADER_LEN : ℕ := 27

def KIND_DATA : UInt8 := 0

def KIND_HEARTBEAT : UInt8 := 1

/-- The fields of a packet header. -/
structure PacketHeader where
  kind : UInt8
  /-- Frames in this packet. -/
  count : UInt16
  session : UInt64
  /-- The seq of the first frame, or the next seq of the publisher. -/
  firstSeq : UInt64

/-! ## Encoding -/

/-- The checksummed part of a packet header. -/
def PacketHeader.fields (h : PacketHeader) : Bytes :=
  PACKET_MAGIC ++ (leBytes 1 h.kind.toNat ++ (leBytes 2 h.count.toNat ++
    (leBytes 8 h.session.toNat ++ leBytes 8 h.firstSeq.toNat)))

/-- Write the packet header. -/
def encodeHeader (h : PacketHeader) : Bytes := withCrc h.fields

/-- Encode a data packet for a run of frames. The seq of the first is looked up, so `none` is the
failed lookup in an empty run. -/
def encodeData (session : UInt64) (frames : List Frame) : Option Bytes :=
  match frames with
  | [] => none
  | first :: _ => some (encodeHeader ⟨KIND_DATA, UInt16.ofNat frames.length, session,
      UInt64.ofNat first.seq⟩ ++ encodeAll frames)

/-- The size of a data packet carrying `frames`. -/
def dataPacketLen (frames : List Frame) : ℕ := PACKET_HEADER_LEN + (frames.map Frame.encodedLen).sum

namespace Packet

def encode : Packet → Option Bytes
  | data session frames => encodeData session frames
  | heartbeat session nextSeq =>
    some (encodeHeader ⟨KIND_HEARTBEAT, 0, session, UInt64.ofNat nextSeq⟩)

end Packet

/-! ## Decoding -/

/-- Validate and read a packet header. -/
def parseHeader (bytes : Bytes) : Except TransportError PacketHeader :=
  if bytes.length < PACKET_HEADER_LEN then .error (.corrupt "short packet header")
  else if slice bytes 0 4 ≠ PACKET_MAGIC then .error (.corrupt "bad packet magic")
  else if (crc32c (slice bytes 0 23)).toNat ≠ leNat (slice bytes 23 4) then
    .error (.corrupt "packet header CRC mismatch")
  else .ok {
    kind := UInt8.ofNat (leNat (slice bytes 4 1))
    count := UInt16.ofNat (leNat (slice bytes 5 2))
    session := UInt64.ofNat (leNat (slice bytes 7 8))
    firstSeq := UInt64.ofNat (leNat (slice bytes 15 8)) }

/-- An addition of `u64`. -/
def addU64 (a b : ℕ) : Option ℕ := if a + b < 2 ^ 64 then some (a + b) else none

/-- Read `n` frames from `firstSeq + i` on; what follows them is returned. -/
def readFrames (firstSeq : ℕ) : ℕ → ℕ → Bytes → Option (Except TransportError (List Frame × Bytes))
  | _, 0, cursor => some (.ok ([], cursor))
  | i, n + 1, cursor =>
    match Frame.readFrom cursor with
    | .error e => some (.error (.frame e))
    | .ok (frame, cursor) =>
      match addU64 firstSeq i with
      | none => none
      | some expected =>
        if frame.seq ≠ expected then some (.error (.corrupt "non-contiguous frames in packet"))
        else
          match readFrames firstSeq (i + 1) n cursor with
          | none => none
          | some (.error e) => some (.error e)
          | some (.ok (frames, cursor)) => some (.ok (frame :: frames, cursor))

/-- Read what stands behind a header. -/
def decodeBody (h : PacketHeader) (body : Bytes) : Option (Except TransportError Packet) :=
  if h.kind = KIND_HEARTBEAT then some (.ok (.heartbeat h.session h.firstSeq.toNat))
  else if h.kind = KIND_DATA then
    if h.count = 0 then some (.error (.corrupt "data packet with zero frames"))
    else
      match readFrames h.firstSeq.toNat 0 h.count.toNat body with
      | none => none
      | some (.error e) => some (.error e)
      | some (.ok (frames, cursor)) =>
        if cursor ≠ [] then some (.error (.corrupt "trailing bytes after frames"))
        else some (.ok (.data h.session frames))
  else some (.error (.corrupt "unknown packet kind"))

def Packet.decode (bytes : Bytes) : Option (Except TransportError Packet) :=
  match parseHeader bytes with
  | .error e => some (.error e)
  | .ok h => decodeBody h (bytes.drop PACKET_HEADER_LEN)

/-! ## Headers -/

@[simp] theorem PacketHeader.fields_length (h : PacketHeader) : h.fields.length = 23 := by
  simp [PacketHeader.fields, PACKET_MAGIC]

@[simp] theorem encodeHeader_length (h : PacketHeader) :
    (encodeHeader h).length = PACKET_HEADER_LEN := by
  simp [encodeHeader, PACKET_HEADER_LEN]

section Header

variable (h : PacketHeader) (rest : Bytes)

theorem slice_header_fields : slice (encodeHeader h ++ rest) 0 23 = h.fields := by
  rw [encodeHeader, withCrc, List.append_assoc]
  exact slice_here _ h.fields_length

theorem slice_header_crc :
    slice (encodeHeader h ++ rest) 23 4 = leBytes 4 (crc32c h.fields).toNat := by
  rw [encodeHeader, withCrc, List.append_assoc]
  exact (slice_skip _ 0 4 h.fields_length).trans (slice_here _ (leBytes_length 4 _))

theorem slice_header_magic : slice (encodeHeader h ++ rest) 0 4 = PACKET_MAGIC := by
  simp only [encodeHeader, withCrc, PacketHeader.fields, List.append_assoc]
  exact slice_here _ rfl

theorem slice_header_kind : slice (encodeHeader h ++ rest) 4 1 = leBytes 1 h.kind.toNat := by
  simp only [encodeHeader, withCrc, PacketHeader.fields, List.append_assoc]
  exact (slice_skip _ 0 1 rfl).trans (slice_here _ (leBytes_length 1 _))

theorem slice_header_count : slice (encodeHeader h ++ rest) 5 2 = leBytes 2 h.count.toNat := by
  simp only [encodeHeader, withCrc, PacketHeader.fields, List.append_assoc]
  refine (slice_skip _ 1 2 rfl).trans ?_
  exact (slice_skip _ 0 2 (leBytes_length 1 _)).trans (slice_here _ (leBytes_length 2 _))

theorem slice_header_session :
    slice (encodeHeader h ++ rest) 7 8 = leBytes 8 h.session.toNat := by
  simp only [encodeHeader, withCrc, PacketHeader.fields, List.append_assoc]
  refine (slice_skip _ 3 8 rfl).trans ?_
  refine (slice_skip _ 2 8 (leBytes_length 1 _)).trans ?_
  exact (slice_skip _ 0 8 (leBytes_length 2 _)).trans (slice_here _ (leBytes_length 8 _))

theorem slice_header_firstSeq :
    slice (encodeHeader h ++ rest) 15 8 = leBytes 8 h.firstSeq.toNat := by
  simp only [encodeHeader, withCrc, PacketHeader.fields, List.append_assoc]
  refine (slice_skip _ 11 8 rfl).trans ?_
  refine (slice_skip _ 10 8 (leBytes_length 1 _)).trans ?_
  refine (slice_skip _ 8 8 (leBytes_length 2 _)).trans ?_
  exact (slice_skip _ 0 8 (leBytes_length 8 _)).trans (slice_here _ (leBytes_length 8 _))

/-- A header is read back, whatever follows it. -/
theorem parseHeader_encode : parseHeader (encodeHeader h ++ rest) = .ok h := by
  have hlong : ¬(encodeHeader h ++ rest).length < PACKET_HEADER_LEN := by
    rw [List.length_append, encodeHeader_length]
    omega
  have hcrc : ¬((crc32c h.fields).toNat ≠ leNat (leBytes 4 (crc32c h.fields).toNat)) := by
    rw [leNat_crc]
    simp
  have hkind : h.kind.toNat < 256 ^ 1 := h.kind.toNat_lt
  have hcount : h.count.toNat < 256 ^ 2 := h.count.toNat_lt
  have hsession : h.session.toNat < 256 ^ 8 := h.session.toNat_lt
  have hfirst : h.firstSeq.toNat < 256 ^ 8 := h.firstSeq.toNat_lt
  unfold parseHeader
  rw [if_neg hlong, slice_header_magic, slice_header_fields, slice_header_crc, slice_header_kind,
    slice_header_count, slice_header_session, slice_header_firstSeq, if_neg (by simp), if_neg hcrc,
    leNat_leBytes_of_lt hkind, leNat_leBytes_of_lt hcount, leNat_leBytes_of_lt hsession,
    leNat_leBytes_of_lt hfirst, UInt8.ofNat_toNat, UInt16.ofNat_toNat, UInt64.ofNat_toNat,
    UInt64.ofNat_toNat]

end Header

/-- **What is read as a header is its encoding.** -/
theorem parseHeader_ok {bytes : Bytes} {h : PacketHeader} (hok : parseHeader bytes = .ok h) :
    bytes = encodeHeader h ++ bytes.drop PACKET_HEADER_LEN := by
  unfold parseHeader at hok
  split at hok
  · cases hok
  split at hok
  · cases hok
  next hlong hmagic =>
  split at hok
  · cases hok
  next hcrc =>
  obtain rfl := Except.ok.inj hok
  rw [PACKET_HEADER_LEN] at hlong
  have hfield : ∀ off len, off + len ≤ 27 →
      leBytes len (leNat (slice bytes off len)) = slice bytes off len := by
    intro off len hle
    have hlength : (slice bytes off len).length = len := slice_length (by omega)
    have hback := leBytes_leNat (slice bytes off len)
    rwa [hlength] at hback
  have hkind : (UInt8.ofNat (leNat (slice bytes 4 1))).toNat = leNat (slice bytes 4 1) :=
    UInt8.toNat_ofNat_of_lt' (leNat_slice_lt bytes 4 1)
  have hcount : (UInt16.ofNat (leNat (slice bytes 5 2))).toNat = leNat (slice bytes 5 2) :=
    UInt16.toNat_ofNat_of_lt' (leNat_slice_lt bytes 5 2)
  have hsession : (UInt64.ofNat (leNat (slice bytes 7 8))).toNat = leNat (slice bytes 7 8) :=
    UInt64.toNat_ofNat_of_lt' (leNat_slice_lt bytes 7 8)
  have hfirst : (UInt64.ofNat (leNat (slice bytes 15 8))).toNat = leNat (slice bytes 15 8) :=
    UInt64.toNat_ofNat_of_lt' (leNat_slice_lt bytes 15 8)
  have hfields : PacketHeader.fields
      ⟨UInt8.ofNat (leNat (slice bytes 4 1)), UInt16.ofNat (leNat (slice bytes 5 2)),
        UInt64.ofNat (leNat (slice bytes 7 8)), UInt64.ofNat (leNat (slice bytes 15 8))⟩ =
      slice bytes 0 23 := by
    rw [PacketHeader.fields, hkind, hcount, hsession, hfirst, hfield 4 1 (by decide),
      hfield 5 2 (by decide), hfield 7 8 (by decide), hfield 15 8 (by decide), ← not_not.mp hmagic]
    rw [← slice_append bytes 7 8 8, ← slice_append bytes 5 2 16, ← slice_append bytes 4 1 18,
      ← slice_append bytes 0 4 19]
  rw [encodeHeader, hfields, withCrc_eq (slice_length (by omega)) (not_not.mp hcrc),
    ← slice_append bytes 0 23 4, slice, List.drop_zero, PACKET_HEADER_LEN, List.take_append_drop]

/-- Behind an intact header the rest of the packet decides. -/
theorem decode_encodeHeader (h : PacketHeader) (rest : Bytes) :
    Packet.decode (encodeHeader h ++ rest) = decodeBody h rest := by
  unfold Packet.decode
  rw [parseHeader_encode]
  show decodeBody h ((encodeHeader h ++ rest).drop PACKET_HEADER_LEN) = _
  rw [List.drop_left' (encodeHeader_length h)]

/-- A packet is refused for its header, or its body decides. -/
theorem decode_cases (bytes : Bytes) :
    (∃ e, parseHeader bytes = .error e ∧ Packet.decode bytes = some (.error e)) ∨
      ∃ h rest, bytes = encodeHeader h ++ rest ∧ Packet.decode bytes = decodeBody h rest := by
  cases hparse : parseHeader bytes with
  | error e =>
    refine Or.inl ⟨e, rfl, ?_⟩
    unfold Packet.decode
    rw [hparse]
  | ok h =>
    refine Or.inr ⟨h, _, parseHeader_ok hparse, ?_⟩
    unfold Packet.decode
    rw [hparse]

/-! ## Bodies -/

section Frames

variable {firstSeq i n : ℕ} {cursor : Bytes}

/-- A run of frames is read back, and what follows it is left. -/
theorem readFrames_encodeAll {frames : List Frame} (hrun : SeqRun (firstSeq + i) frames)
    (rest : Bytes) :
    readFrames firstSeq i frames.length (encodeAll frames ++ rest) = some (.ok (frames, rest)) := by
  induction frames generalizing i with
  | nil => rfl
  | cons f fs ih =>
    obtain ⟨hseq, hrun⟩ := hrun
    have hadd : addU64 firstSeq i = some f.seq := by
      rw [addU64, ← hseq, if_pos f.seq_lt]
    rw [List.length_cons, encodeAll_cons, List.append_assoc, readFrames, Frame.readFrom_toBytes]
    simp only [hadd, ne_eq, not_true_eq_false, if_false]
    rw [ih (by rwa [Nat.add_assoc] at hrun)]

/-- **The frames that are read** are a run of the right length, and their bytes come first. -/
theorem readFrames_ok {frames : List Frame} {rest : Bytes}
    (h : readFrames firstSeq i n cursor = some (.ok (frames, rest))) :
    frames.length = n ∧ SeqRun (firstSeq + i) frames ∧ cursor = encodeAll frames ++ rest := by
  induction n generalizing i cursor frames with
  | zero =>
    rw [readFrames] at h
    obtain ⟨rfl, rfl⟩ := Prod.mk.inj (Except.ok.inj (Option.some.inj h))
    exact ⟨rfl, trivial, rfl⟩
  | succ n ih =>
    rw [readFrames] at h
    split at h
    · cases h
    next f cursor' hread =>
    unfold addU64 at h
    split at h
    · cases h
    next expected hadd =>
    split at hadd
    · obtain rfl := Option.some.inj hadd
      split at h
      · cases h
      next hseq =>
      split at h
      · cases h
      · cases h
      next frames' rest' hframes =>
      obtain ⟨rfl, rfl⟩ := Prod.mk.inj (Except.ok.inj (Option.some.inj h))
      obtain ⟨hlen, hrun, hcursor⟩ := ih hframes
      refine ⟨by rw [List.length_cons, hlen], ⟨not_not.mp hseq, hrun⟩, ?_⟩
      rw [Frame.readFrom_ok hread, hcursor, encodeAll_cons, List.append_assoc]
    · cases hadd

/-- Bytes behind a packet's frames are left over. -/
theorem readFrames_append {frames : List Frame} {rest : Bytes}
    (h : readFrames firstSeq i n cursor = some (.ok (frames, rest))) (more : Bytes) :
    readFrames firstSeq i n (cursor ++ more) = some (.ok (frames, rest ++ more)) := by
  obtain ⟨rfl, hrun, rfl⟩ := readFrames_ok h
  rw [List.append_assoc]
  exact readFrames_encodeAll hrun _

end Frames

/-- A run holds the largest seq exactly if it ends there. -/
theorem seqRun_top {first : ℕ} {frames : List Frame} (hrun : SeqRun first frames) (hfirst : first < 2 ^ 64) :
    (∃ f ∈ frames, f.seq + 1 = 2 ^ 64) ↔ first + frames.length = 2 ^ 64 := by
  induction frames generalizing first with
  | nil =>
    simp only [List.not_mem_nil, false_and, exists_false, List.length_nil, false_iff]
    omega
  | cons f fs ih =>
    have hbound := hrun.bound (by simp)
    obtain ⟨rfl, hrest⟩ := hrun
    simp only [List.mem_cons, exists_eq_or_imp, List.length_cons] at hbound ⊢
    cases fs with
    | nil => simp
    | cons g gs =>
      simp only [List.length_cons] at hbound
      rw [ih hrest (by omega)]
      simp only [List.length_cons]
      omega

theorem data_ne_heartbeat : KIND_DATA ≠ KIND_HEARTBEAT := by decide

theorem decodeBody_data {h : PacketHeader} {body : Bytes} {session : UInt64} {frames : List Frame}
    (hok : decodeBody h body = some (.ok (.data session frames))) :
    h.kind = KIND_DATA ∧ h.count ≠ 0 ∧ h.session = session ∧
      readFrames h.firstSeq.toNat 0 h.count.toNat body = some (.ok (frames, [])) := by
  unfold decodeBody at hok
  split at hok
  · cases hok
  split at hok
  next hkind =>
    split at hok
    · cases hok
    next hcount =>
    split at hok
    · cases hok
    · cases hok
    next frames' cursor hread =>
    split at hok
    · cases hok
    next hcursor =>
    obtain ⟨hsession, rfl⟩ := Packet.data.inj (Except.ok.inj (Option.some.inj hok))
    rw [not_not.mp hcursor] at hread
    exact ⟨hkind, hcount, hsession, hread⟩
  · cases hok

/-- **Bytes accepted as a data packet** are the encoding of what is returned. -/
theorem decode_data {bytes : Bytes} {session : UInt64} {frames : List Frame}
    (hok : Packet.decode bytes = some (.ok (.data session frames))) :
    (Packet.data session frames).encode = some bytes := by
  rcases decode_cases bytes with ⟨e, -, herr⟩ | ⟨h, rest, rfl, hbody⟩
  · rw [herr] at hok
    cases hok
  · rw [hbody] at hok
    obtain ⟨hkind, hcount, rfl, hread⟩ := decodeBody_data hok
    obtain ⟨hlen, hrun, rfl⟩ := readFrames_ok hread
    have hcount' : h.count.toNat ≠ 0 := fun hzero => hcount (UInt16.toNat_inj.mp hzero)
    cases frames with
    | nil => exact absurd hlen.symm hcount'
    | cons f fs =>
      -- the first frame has the seq the header announces
      have hfirst : UInt64.ofNat f.seq = h.firstSeq := by
        rw [hrun.1, Nat.add_zero, UInt64.ofNat_toNat]
      have hheader : h = ⟨KIND_DATA, UInt16.ofNat (f :: fs).length, h.session,
          UInt64.ofNat f.seq⟩ := by
        rw [hlen, UInt16.ofNat_toNat, hfirst, ← hkind]
      rw [Packet.encode, encodeData, ← hheader, List.append_nil]

/-- An encoded data packet is read back. -/
theorem decode_encodeData {session : UInt64} {frames : List Frame} {first : ℕ}
    (hne : frames ≠ []) (hlen : frames.length < 2 ^ 16) (hrun : SeqRun first frames) :
    ∃ bytes, (Packet.data session frames).encode = some bytes ∧
      Packet.decode bytes = some (.ok (.data session frames)) := by
  cases frames with
  | nil => exact absurd rfl hne
  | cons f fs =>
    refine ⟨_, rfl, ?_⟩
    have hcount : (UInt16.ofNat (f :: fs).length).toNat = (f :: fs).length :=
      UInt16.toNat_ofNat_of_lt' hlen
    have hfirst : (UInt64.ofNat f.seq).toNat = first := by
      rw [UInt64.toNat_ofNat_of_lt' f.seq_lt, hrun.1]
    have hsome : UInt16.ofNat (f :: fs).length ≠ 0 := by
      intro hzero
      rw [hzero, List.length_cons] at hcount
      exact Nat.succ_ne_zero _ hcount.symm
    have hread : readFrames first 0 (f :: fs).length (encodeAll (f :: fs) ++ []) =
        some (.ok (f :: fs, [])) := by
      apply readFrames_encodeAll
      exact hrun
    rw [List.append_nil] at hread
    rw [decode_encodeHeader, decodeBody, if_neg data_ne_heartbeat, if_pos rfl, if_neg hsome]
    simp only [hcount, hfirst, hread]
    rfl

/-- A heartbeat is read back. -/
theorem decode_heartbeat (session : UInt64) {nextSeq : ℕ} (hnext : nextSeq < 2 ^ 64) :
    ∃ bytes, (Packet.heartbeat session nextSeq).encode = some bytes ∧
      Packet.decode bytes = some (.ok (.heartbeat session nextSeq)) := by
  refine ⟨_, rfl, ?_⟩
  have hread := decode_encodeHeader ⟨KIND_HEARTBEAT, 0, session, UInt64.ofNat nextSeq⟩ []
  rw [List.append_nil] at hread
  rw [hread, decodeBody, if_pos rfl, UInt64.toNat_ofNat_of_lt' hnext]

/-- A data packet with bytes behind it is refused. -/
theorem decode_data_append {bytes : Bytes} {session : UInt64} {frames : List Frame}
    (hok : Packet.decode bytes = some (.ok (.data session frames))) {more : Bytes}
    (hmore : more ≠ []) :
    Packet.decode (bytes ++ more) = some (.error (.corrupt "trailing bytes after frames")) := by
  rcases decode_cases bytes with ⟨e, -, herr⟩ | ⟨h, rest, rfl, hbody⟩
  · rw [herr] at hok
    cases hok
  · rw [hbody] at hok
    obtain ⟨hkind, hcount, -, hread⟩ := decodeBody_data hok
    rw [List.append_assoc, decode_encodeHeader, decodeBody, if_neg (hkind ▸ data_ne_heartbeat),
      if_pos hkind, if_neg hcount, readFrames_append hread more]
    simp [hmore]

/-- The body of a heartbeat is not read, so bytes behind it change nothing. -/
theorem decode_heartbeat_append {bytes : Bytes} {session : UInt64} {nextSeq : ℕ}
    (hok : Packet.decode bytes = some (.ok (.heartbeat session nextSeq))) (more : Bytes) :
    Packet.decode (bytes ++ more) = some (.ok (.heartbeat session nextSeq)) := by
  rcases decode_cases bytes with ⟨e, -, herr⟩ | ⟨h, rest, rfl, hbody⟩
  · rw [herr] at hok
    cases hok
  · rw [hbody] at hok
    rw [List.append_assoc, decode_encodeHeader]
    unfold decodeBody at hok ⊢
    split at hok
    next hkind => rw [if_pos hkind, hok]
    split at hok
    · split at hok
      · cases hok
      split at hok
      · cases hok
      · cases hok
      split at hok
      · cases hok
      · cases hok
    · cases hok

/-- **Data packets are canonical.** Every data packet of 1 to 65535 consecutive frames and every
heartbeat is read back; bytes accepted as a data packet are the encoding of the packet returned; and
neither a strict prefix of an encoded data packet nor one with bytes appended is accepted. -/
theorem packets_canonical :
    (∀ session frames first, 1 ≤ frames.length → frames.length ≤ 65535 → SeqRun first frames →
      ∃ bytes, (Packet.data session frames).encode = some bytes ∧
        Packet.decode bytes = some (.ok (.data session frames)) ∧
        (∀ cut packet, cut <+: bytes → cut ≠ bytes → Packet.decode cut ≠ some (.ok packet)) ∧
        ∀ more packet, more ≠ [] → Packet.decode (bytes ++ more) ≠ some (.ok packet)) ∧
    (∀ session nextSeq, nextSeq < 2 ^ 64 →
      ∃ bytes, (Packet.heartbeat session nextSeq).encode = some bytes ∧
        Packet.decode bytes = some (.ok (.heartbeat session nextSeq))) ∧
    ∀ bytes session frames, Packet.decode bytes = some (.ok (.data session frames)) →
      (Packet.data session frames).encode = some bytes := by
  refine ⟨fun session frames first hone hlen hrun => ?_, fun session nextSeq hnext => ?_,
    fun bytes session frames hok => decode_data hok⟩
  · have hne : frames ≠ [] := List.ne_nil_of_length_pos hone
    obtain ⟨bytes, hencode, hdecode⟩ :=
      @decode_encodeData session frames first hne (Nat.lt_succ_of_le hlen) hrun
    refine ⟨bytes, hencode, hdecode, fun cut packet hcut hstrict hok => ?_,
      fun more packet hmore hok => ?_⟩
    · -- the bytes that were cut off would be trailing bytes
      obtain ⟨more, rfl⟩ := hcut
      have hmore : more ≠ [] := by
        rintro rfl
        exact hstrict (List.append_nil cut).symm
      cases packet with
      | data session' frames' =>
        rw [decode_data_append hok hmore] at hdecode
        cases hdecode
      | heartbeat session' nextSeq =>
        rw [decode_heartbeat_append hok more] at hdecode
        cases hdecode
    · rw [decode_data_append hdecode hmore] at hok
      cases hok
  · exact decode_heartbeat session hnext

end Ticktape.Transport
