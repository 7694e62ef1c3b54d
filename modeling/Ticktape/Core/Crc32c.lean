import Ticktape.Lib.Bits

/-!
# CRC32C

The checksum of frame headers, payloads, segment and snapshot headers and acceptor records
(`ticktape-core/src/crc32c.rs`), in its portable table form, and the one fact the readers of
those formats rely on: a checked block changed within 32 consecutive bits never passes its check.
-/

namespace Ticktape.Core

open Ticktape.Lib

/-- The reflected Castagnoli polynomial. -/
def POLY : BitVec 32 := 0x82F63B78#32

/-- `TABLE[i]`, as `build_table` computes it: eight bit steps of the index. -/
def tableEntry (i : BitVec 32) : BitVec 32 := Crc.bitSteps POLY 8 i

/-- One byte of the loop of `crc32c_sw`. -/
def tableStep (crc : BitVec 32) (byte : UInt8) : BitVec 32 :=
  (crc >>> 8) ^^^ tableEntry ((crc ^^^ byte.toBitVec.setWidth 32) &&& 0xFF#32)

/-- Portable software CRC32C. -/
def crc32c (data : Bytes) : BitVec 32 := ~~~(data.foldl tableStep (~~~0#32))

/-- A block followed by its little-endian checksum. -/
def withCrc (data : Bytes) : Bytes := data ++ leBytes 4 (crc32c data).toNat

@[simp] theorem withCrc_length (data : Bytes) : (withCrc data).length = data.length + 4 := by
  simp [withCrc]

theorem and_255_eq_lowByte (s : BitVec 32) : s &&& 0xFF#32 = Crc.lowByte s := by
  apply BitVec.eq_of_getLsbD_eq
  intro i hi
  have hmask : ∀ j < 32, (0xFF#32).getLsbD j = decide (j < 8) := by decide
  rw [Crc.getLsbD_lowByte, BitVec.getLsbD_and, hmask i hi, Bool.and_comm]

/-- The table step is eight steps of the bitwise CRC. -/
theorem tableStep_eq_byteStep (crc : BitVec 32) (byte : UInt8) :
    tableStep crc byte = Crc.byteStep POLY crc byte := by
  have hbyte : (crc ^^^ byte.toBitVec.setWidth 32) >>> 8 = crc >>> 8 := by
    apply BitVec.eq_of_getLsbD_eq
    intro i _
    rw [BitVec.getLsbD_ushiftRight, BitVec.getLsbD_ushiftRight, BitVec.getLsbD_xor,
      BitVec.getLsbD_setWidth, BitVec.getLsbD_of_ge byte.toBitVec (8 + i) (by omega),
      Bool.and_false, Bool.xor_false]
  rw [tableStep, tableEntry, and_255_eq_lowByte, Crc.byteStep, Crc.bitSteps_eight _ (crc ^^^ _),
    hbyte]

/-- The table form computes the bitwise CRC. -/
theorem crc32c_eq_run (data : Bytes) : crc32c data = ~~~(Crc.run POLY (~~~0#32) data) := by
  have hstep : tableStep = Crc.byteStep POLY := by
    funext crc byte
    exact tableStep_eq_byteStep crc byte
  rw [crc32c, hstep, Crc.run]

/-- The table form is the check defined bit by bit. -/
theorem crc32c_eq_runBits (data : Bytes) :
    crc32c data = ~~~(Crc.runBits POLY (~~~0#32) (bits data)) := by
  rw [crc32c_eq_run, Crc.run_eq_runBits (by decide)]

/-- The stored checksum of an intact block reads back. -/
theorem leNat_crc (data : Bytes) : leNat (leBytes 4 (crc32c data).toNat) = (crc32c data).toNat :=
  leNat_leBytes_of_lt (crc32c data).isLt

/-- A block that passes its check leaves one remainder, whatever it holds: the stored checksum
brings every bit of the register back to one. -/
theorem runBits_of_crc {data stored : Bytes} (hlen : stored.length = 4)
    (h : (crc32c data).toNat = leNat stored) :
    Crc.runBits POLY (~~~0#32) (bits (data ++ stored)) = Crc.bitSteps POLY 32 (~~~0#32) := by
  have hword : BitVec.ofNat 32 (leNat stored) = ~~~(Crc.runBits POLY (~~~0#32) (bits data)) := by
    rw [← h, ← crc32c_eq_runBits, BitVec.ofNat_toNat, BitVec.setWidth_eq]
  have hstored : bits stored = wordBits (BitVec.ofNat 32 (leNat stored)) :=
    (wordBits_leNat (by rw [hlen])).symm
  rw [bits_append, Crc.runBits_append, hstored, Crc.runBits_word _ _ _ (Nat.le_refl 32), hword,
    BitVec.setWidth_eq]
  apply congrArg
  apply BitVec.eq_of_getLsbD_eq
  intro i hi
  rw [BitVec.getLsbD_xor, BitVec.getLsbD_not, BitVec.getLsbD_not, BitVec.getLsbD_zero]
  simp [hi]

/-- **A checked block rejects every burst**, in the data, in the checksum or across the two. -/
theorem withCrc_rejects_burst {data q : Bytes} (h : BitBurst 32 (withCrc data) q) (rest : Bytes) :
    (crc32c (slice (q ++ rest) 0 data.length)).toNat ≠ leNat (slice (q ++ rest) data.length 4) := by
  have hlen : q.length = data.length + 4 := by rw [h.length_eq, withCrc_length]
  have hdata : slice (q ++ rest) 0 data.length = q.take data.length := by
    rw [slice, List.drop_zero, List.take_append_of_le_length (by omega)]
  have hstored : slice (q ++ rest) data.length 4 = q.drop data.length := by
    rw [slice, List.drop_append_of_le_length (by omega),
      List.take_append_of_le_length (by simp [hlen]), List.take_of_length_le (by simp [hlen])]
  rw [hdata, hstored]
  intro heq
  -- both blocks would leave the same remainder
  have hq := runBits_of_crc (by simp [hlen]) heq
  rw [List.take_append_drop] at hq
  have hp := runBits_of_crc (leBytes_length 4 _) (leNat_crc data).symm
  exact Crc.runBits_ne_of_burst (w := 31) (show POLY.getLsbD 31 = true by decide) _ h
    (hp.trans hq.symm)

end Ticktape.Core
