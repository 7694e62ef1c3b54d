import Ticktape.Core.Codec

/-!
# SBE messages

A message is a block of fixed fields behind a header of eight bytes (`ticktape-sbe/src/lib.rs`). The header says how
long the writer's block is, so that a reader takes the fields it knows and skips what a later version of the schema put
behind them; a block that is too short is refused.
-/

namespace Ticktape.Interop

open Ticktape.Lib Ticktape.Core

variable {M : Type}

/-- The message header. -/
structure SbeHeader where
  /-- Bytes in the fixed root block. -/
  blockLength : UInt16
  templateId : UInt16
  schemaId : UInt16
  /-- The schema version of the writer. -/
  version : UInt16
  deriving DecidableEq, Repr

/-- Header size in bytes. -/
def HEADER_LEN : ℕ := 8

namespace SbeHeader

def write (header : SbeHeader) : Bytes :=
  leBytes 2 header.blockLength.toNat ++ (leBytes 2 header.templateId.toNat ++
    (leBytes 2 header.schemaId.toNat ++ leBytes 2 header.version.toNat))

/-- The two bytes behind the first `n`. -/
def field (buf : Bytes) (n : ℕ) : UInt16 := UInt16.ofNat (leNat ((buf.drop n).take 2))

def read (buf : Bytes) : Except CodecError SbeHeader :=
  if buf.length < HEADER_LEN then .error .unexpectedEof
  else .ok ⟨field buf 0, field buf 2, field buf 4, field buf 6⟩

@[simp] theorem write_length (header : SbeHeader) : header.write.length = HEADER_LEN := by
  simp [write, HEADER_LEN]

theorem field_append {before after : Bytes} {n : ℕ} (v : UInt16) (hn : before.length = n) :
    field (before ++ (leBytes 2 v.toNat ++ after)) n = v := by
  have hlt : v.toNat < 256 ^ 2 := v.toNat_lt
  rw [field, ← hn, List.drop_left, List.take_left' (leBytes_length 2 _), leNat_leBytes_of_lt hlt, UInt16.ofNat_toNat]

/-- A header reads back. -/
theorem read_write (header : SbeHeader) (rest : Bytes) : read (header.write ++ rest) = .ok header := by
  have hlong : ¬(header.write ++ rest).length < HEADER_LEN := by
    rw [List.length_append, write_length]
    omega
  have hblock : field (header.write ++ rest) 0 = header.blockLength := by
    rw [write, List.append_assoc, ← List.nil_append (leBytes 2 _ ++ _)]
    exact field_append _ rfl
  have htemplate : field (header.write ++ rest) 2 = header.templateId := by
    rw [write, List.append_assoc, List.append_assoc]
    exact field_append _ (leBytes_length 2 _)
  have hschema : field (header.write ++ rest) 4 = header.schemaId := by
    have hsplit : header.write ++ rest = (leBytes 2 header.blockLength.toNat ++ leBytes 2 header.templateId.toNat) ++
        (leBytes 2 header.schemaId.toNat ++ (leBytes 2 header.version.toNat ++ rest)) := by simp [write]
    rw [hsplit]
    exact field_append _ (by simp)
  have hversion : field (header.write ++ rest) 6 = header.version := by
    have hsplit : header.write ++ rest = (leBytes 2 header.blockLength.toNat ++ (leBytes 2 header.templateId.toNat ++
        leBytes 2 header.schemaId.toNat)) ++ (leBytes 2 header.version.toNat ++ rest) := by simp [write]
    rw [hsplit]
    exact field_append _ (by simp)
  rw [read, if_neg hlong, hblock, htemplate, hschema, hversion]

end SbeHeader

/-- An application message. -/
class SbeMessage (M : Type) where
  TEMPLATE_ID : UInt16
  SCHEMA_ID : UInt16
  SCHEMA_VERSION : UInt16
  /-- Bytes in the fixed root block that this build writes. -/
  BLOCK_LENGTH : UInt16
  /-- The fixed fields in their order. -/
  encodeBlock : M → Bytes
  decodeBlock : Bytes → Except CodecError M

export SbeMessage (encodeBlock decodeBlock)

/-- The header in front of every message of a type. -/
def header (M : Type) [SbeMessage M] : SbeHeader where
  blockLength := SbeMessage.BLOCK_LENGTH M
  templateId := SbeMessage.TEMPLATE_ID M
  schemaId := SbeMessage.SCHEMA_ID M
  version := SbeMessage.SCHEMA_VERSION M

/-- Header and block. -/
def encodeMessage [SbeMessage M] (msg : M) : Bytes := (header M).write ++ encodeBlock msg

/-- The message, and how much of `buf` its header and its block take. -/
def decodeMessage (M : Type) [SbeMessage M] (buf : Bytes) : Except CodecError (M × ℕ) :=
  match SbeHeader.read buf with
  | .error e => .error e
  | .ok header =>
    if header.templateId ≠ SbeMessage.TEMPLATE_ID M ∨ header.schemaId ≠ SbeMessage.SCHEMA_ID M then
      .error (.invalidValue "SBE template/schema mismatch")
    else if header.blockLength.toNat < (SbeMessage.BLOCK_LENGTH M).toNat then
      .error (.invalidValue "SBE block shorter than schema")
    else if buf.length < HEADER_LEN + header.blockLength.toNat then .error .unexpectedEof
    else
      -- what the writer's block has behind the known fields is skipped
      match (decodeBlock ((buf.drop HEADER_LEN).take (SbeMessage.BLOCK_LENGTH M).toNat) : Except CodecError M) with
      | .error e => .error e
      | .ok msg => .ok (msg, HEADER_LEN + header.blockLength.toNat)

/-- The adapter: a message as a value of the canonical codec. -/
structure Sbe (M : Type) where
  msg : M
  deriving DecidableEq, Repr

instance [SbeMessage M] : Encode (Sbe M) := ⟨fun v => encodeMessage v.msg⟩

instance [SbeMessage M] : Decode (Sbe M) where
  decode buf :=
    match decodeMessage M buf with
    | .error e => .error e
    | .ok (msg, consumed) => .ok (⟨msg⟩, buf.drop consumed)

/-- The contract of a message type: its block has the declared length and reads back. -/
class LawfulMessage (M : Type) [SbeMessage M] : Prop where
  length (msg : M) : (encodeBlock msg).length = (SbeMessage.BLOCK_LENGTH M).toNat
  decode_encode (msg : M) : decodeBlock (encodeBlock msg) = .ok msg

section Decode

variable [SbeMessage M] {header : SbeHeader} {block rest : Bytes}

/-- A header and its block, in front of anything. -/
theorem decodeMessage_eq (hlen : block.length = header.blockLength.toNat) :
    decodeMessage M (header.write ++ (block ++ rest)) =
      if header.templateId ≠ SbeMessage.TEMPLATE_ID M ∨ header.schemaId ≠ SbeMessage.SCHEMA_ID M then
        .error (.invalidValue "SBE template/schema mismatch")
      else if block.length < (SbeMessage.BLOCK_LENGTH M).toNat then
        .error (.invalidValue "SBE block shorter than schema")
      else match (decodeBlock (block.take (SbeMessage.BLOCK_LENGTH M).toNat) : Except CodecError M) with
        | .error e => .error e
        | .ok msg => .ok (msg, HEADER_LEN + block.length) := by
  have hlong : ¬(header.write ++ (block ++ rest)).length < HEADER_LEN + header.blockLength.toNat := by
    rw [List.length_append, List.length_append, SbeHeader.write_length, hlen]
    omega
  simp only [decodeMessage, SbeHeader.read_write, if_neg hlong, List.drop_left' (SbeHeader.write_length header), hlen]
  split_ifs with hids hshort
  · rfl
  · rfl
  · rw [List.take_append_of_le_length (by omega)]

/-- **The known fields are read, and the writer's block is skipped whole.** -/
theorem decodeMessage_longer [LawfulMessage M] {msg : M} {added : Bytes}
    (hlen : (encodeBlock msg ++ added).length = header.blockLength.toNat)
    (htemplate : header.templateId = SbeMessage.TEMPLATE_ID M) (hschema : header.schemaId = SbeMessage.SCHEMA_ID M) :
    decodeMessage M (header.write ++ ((encodeBlock msg ++ added) ++ rest)) =
      .ok (msg, HEADER_LEN + header.blockLength.toNat) := by
  have hblock := LawfulMessage.length msg
  have hids : ¬(header.templateId ≠ SbeMessage.TEMPLATE_ID M ∨ header.schemaId ≠ SbeMessage.SCHEMA_ID M) := by
    simp [htemplate, hschema]
  have hlong : ¬(encodeBlock msg ++ added).length < (SbeMessage.BLOCK_LENGTH M).toNat := by
    rw [List.length_append]
    omega
  rw [decodeMessage_eq hlen, if_neg hids, if_neg hlong, List.take_left' hblock]
  simp only [LawfulMessage.decode_encode, hlen]

/-- A block without all the known fields is refused. -/
theorem decodeMessage_shorter (hlen : block.length = header.blockLength.toNat)
    (htemplate : header.templateId = SbeMessage.TEMPLATE_ID M) (hschema : header.schemaId = SbeMessage.SCHEMA_ID M)
    (hshort : block.length < (SbeMessage.BLOCK_LENGTH M).toNat) :
    decodeMessage M (header.write ++ (block ++ rest)) = .error (.invalidValue "SBE block shorter than schema") := by
  have hids : ¬(header.templateId ≠ SbeMessage.TEMPLATE_ID M ∨ header.schemaId ≠ SbeMessage.SCHEMA_ID M) := by
    simp [htemplate, hschema]
  rw [decodeMessage_eq hlen, if_neg hids, if_pos hshort]

end Decode

/-- The adapter obeys the contract of the canonical codec. -/
instance [SbeMessage M] [LawfulMessage M] : LawfulCodec (Sbe M) where
  decode_encode v rest := by
    have hlen : (encodeBlock v.msg ++ []).length = (header M).blockLength.toNat := by
      rw [List.append_nil]
      exact LawfulMessage.length v.msg
    have hread : decodeMessage M ((header M).write ++ ((encodeBlock v.msg ++ []) ++ rest)) = _ :=
      decodeMessage_longer hlen rfl rfl
    rw [List.append_nil, ← List.append_assoc] at hread
    have hconsumed : HEADER_LEN + (header M).blockLength.toNat = (encodeMessage v.msg).length := by
      rw [encodeMessage, List.length_append, SbeHeader.write_length, ← hlen, List.append_nil]
    simp only [decode, encode]
    rw [encodeMessage, hread]
    dsimp only
    rw [hconsumed, encodeMessage, List.drop_left]

end Ticktape.Interop
