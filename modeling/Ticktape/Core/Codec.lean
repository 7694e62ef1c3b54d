import Ticktape.Lib.Bytes

/-!
# The canonical codec

Cursor-style encoding and decoding (`ticktape-core/src/codec.rs`): a decoder takes the bytes
in front of it and hands back what it did not consume, so that decoders compose field by
field. Only the instances the runtime itself uses are needed here: integers, pairs and
vectors.
-/

namespace Ticktape.Core

open Ticktape.Lib

/-- Errors from decoding canonical bytes. -/
inductive CodecError where
  | unexpectedEof
  | invalidValue (what : String)
  | invalidUtf8
  | trailingBytes (n : ℕ)
  deriving DecidableEq, Repr

/-- Values with a canonical encoding. -/
class Encode (α : Type) where
  encode : α → Bytes

/-- Values that can be decoded from the front of a byte string. -/
class Decode (α : Type) where
  decode : Bytes → Except CodecError (α × Bytes)

export Encode (encode)
export Decode (decode)

/-- Decode a value that must consume the entire buffer. -/
def decodeAll {α : Type} [Decode α] (buf : Bytes) : Except CodecError α :=
  match decode buf with
  | .error e => .error e
  | .ok (v, rest) => if rest = [] then .ok v else .error (.trailingBytes rest.length)

/-- Split off the first `n` bytes. -/
def take (buf : Bytes) (n : ℕ) : Except CodecError (Bytes × Bytes) :=
  if buf.length < n then .error .unexpectedEof else .ok (buf.take n, buf.drop n)

/-- Decoding inverts encoding, whatever follows: the codec contract an application's types
must obey. -/
class LawfulCodec (α : Type) [Encode α] [Decode α] : Prop where
  decode_encode (v : α) (rest : Bytes) : decode (encode v ++ rest) = .ok (v, rest)

theorem decodeAll_encode {α : Type} [Encode α] [Decode α] [LawfulCodec α] (v : α) :
    decodeAll (encode v) = .ok v := by
  have h := LawfulCodec.decode_encode v []
  rw [List.append_nil] at h
  simp [decodeAll, h]

theorem take_append {a : Bytes} {n : ℕ} (rest : Bytes) (h : a.length = n) :
    take (a ++ rest) n = .ok (a, rest) := by
  subst h
  simp [take]

/-! ## Instances -/

instance : Encode UInt64 := ⟨fun v => leBytes 8 v.toNat⟩

instance : Decode UInt64 where
  decode buf :=
    match take buf 8 with
    | .error e => .error e
    | .ok (bytes, rest) => .ok (UInt64.ofNat (leNat bytes), rest)

instance : LawfulCodec UInt64 where
  decode_encode v rest := by
    have hv : UInt64.ofNat (leNat (leBytes 8 v.toNat)) = v := by
      rw [leNat_leBytes_of_lt (show v.toNat < 256 ^ 8 from v.toNat_lt), UInt64.ofNat_toNat]
    simp only [decode, encode, take_append rest (leBytes_length 8 v.toNat), hv]

instance : Encode UInt32 := ⟨fun v => leBytes 4 v.toNat⟩

instance : Decode UInt32 where
  decode buf :=
    match take buf 4 with
    | .error e => .error e
    | .ok (bytes, rest) => .ok (UInt32.ofNat (leNat bytes), rest)

instance : LawfulCodec UInt32 where
  decode_encode v rest := by
    have hv : UInt32.ofNat (leNat (leBytes 4 v.toNat)) = v := by
      rw [leNat_leBytes_of_lt (show v.toNat < 256 ^ 4 from v.toNat_lt), UInt32.ofNat_toNat]
    simp only [decode, encode, take_append rest (leBytes_length 4 v.toNat), hv]

instance {α β : Type} [Encode α] [Encode β] : Encode (α × β) :=
  ⟨fun v => encode v.1 ++ encode v.2⟩

/-- Decode the two components of a tuple in turn. -/
def decodePair {α β : Type} [Decode α] [Decode β] (buf : Bytes) :
    Except CodecError ((α × β) × Bytes) :=
  match (decode buf : Except CodecError (α × Bytes)) with
  | .error e => .error e
  | .ok (a, rest) =>
    match (decode rest : Except CodecError (β × Bytes)) with
    | .error e => .error e
    | .ok (b, rest) => .ok ((a, b), rest)

instance {α β : Type} [Decode α] [Decode β] : Decode (α × β) := ⟨decodePair⟩

/-- A pair decodes when both components do. -/
theorem decode_pair {α β : Type} [Decode α] [Decode β] {buf mid rest : Bytes} {a : α} {b : β}
    (ha : decode buf = .ok (a, mid)) (hb : decode mid = .ok (b, rest)) :
    decode buf = .ok ((a, b), rest) := by
  show decodePair buf = _
  simp only [decodePair, ha, hb]

instance {α β : Type} [Encode α] [Decode α] [LawfulCodec α] [Encode β] [Decode β]
    [LawfulCodec β] : LawfulCodec (α × β) where
  decode_encode v rest := by
    have ha := LawfulCodec.decode_encode v.1 (encode v.2 ++ rest)
    rw [← List.append_assoc] at ha
    exact decode_pair ha (LawfulCodec.decode_encode v.2 rest)

/-- A vector: a `u32` length, then the elements. -/
instance {α : Type} [Encode α] : Encode (List α) :=
  ⟨fun v => leBytes 4 v.length ++ v.flatMap encode⟩

/-- Decode `n` elements in a row. -/
def decodeItems {α : Type} [Decode α] : ℕ → Bytes → Except CodecError (List α × Bytes)
  | 0, buf => .ok ([], buf)
  | n + 1, buf =>
    match (decode buf : Except CodecError (α × Bytes)) with
    | .error e => .error e
    | .ok (a, rest) =>
      match decodeItems n rest with
      | .error e => .error e
      | .ok (as, rest) => .ok (a :: as, rest)

/-- Decode a length prefix and that many elements. -/
def decodeVec {α : Type} [Decode α] (buf : Bytes) : Except CodecError (List α × Bytes) :=
  match take buf 4 with
  | .error e => .error e
  | .ok (len, rest) => decodeItems (leNat len) rest

instance {α : Type} [Decode α] : Decode (List α) := ⟨decodeVec⟩

theorem decodeItems_flatMap {α : Type} [Encode α] [Decode α] [LawfulCodec α] (v : List α)
    (rest : Bytes) : decodeItems v.length (v.flatMap encode ++ rest) = .ok (v, rest) := by
  induction v with
  | nil => rfl
  | cons a v ih =>
    rw [List.flatMap_cons, List.append_assoc, List.length_cons, decodeItems,
      LawfulCodec.decode_encode]
    simp only [ih]

/-- Vectors round-trip as long as the length prefix can hold their length. -/
theorem decode_encode_list {α : Type} [Encode α] [Decode α] [LawfulCodec α] {v : List α}
    (hlen : v.length < 2 ^ 32) (rest : Bytes) : decode (encode v ++ rest) = .ok (v, rest) := by
  show decodeVec ((leBytes 4 v.length ++ v.flatMap encode) ++ rest) = _
  rw [List.append_assoc, decodeVec, take_append _ (leBytes_length 4 _)]
  simp only [leNat_leBytes_of_lt (show v.length < 256 ^ 4 from hlen)]
  exact decodeItems_flatMap v rest

end Ticktape.Core
