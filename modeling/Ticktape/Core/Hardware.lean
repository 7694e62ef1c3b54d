import Ticktape.Core.Crc32c

/-!
# The hardware paths of the checksum

`crc32c` uses the CRC instructions of the processor where it has them, and falls back to the table
otherwise (`ticktape-core/src/crc32c.rs`). The instructions are parameters here, of which only what
their manuals promise is assumed: each feeds the bits of its operand, least significant first. The
routines around them cut the data into eight-byte words and a tail of four, two and one; whatever
the cut, the bits fed are those of the data, so all paths return one checksum.
-/

namespace Ticktape.Core

open Ticktape.Lib

/-! ## The instructions -/

/-- The CRC32C instructions of ARMv8. -/
structure Aarch64Crc where
  crc32cd : BitVec 32 → BitVec 64 → BitVec 32
  crc32cw : BitVec 32 → BitVec 32 → BitVec 32
  crc32ch : BitVec 32 → BitVec 16 → BitVec 32
  crc32cb : BitVec 32 → BitVec 8 → BitVec 32

/-- The CRC32C instructions of SSE4.2. The widest one keeps its register in 64 bits. -/
structure Sse42 where
  mm_crc32_u64 : BitVec 64 → BitVec 64 → BitVec 64
  mm_crc32_u32 : BitVec 32 → BitVec 32 → BitVec 32
  mm_crc32_u16 : BitVec 32 → BitVec 16 → BitVec 32
  mm_crc32_u8 : BitVec 32 → BitVec 8 → BitVec 32

/-- Each instruction feeds its operand bit by bit. -/
structure Aarch64Crc.Castagnoli (i : Aarch64Crc) : Prop where
  crc32cd (crc : BitVec 32) (v : BitVec 64) : i.crc32cd crc v = Crc.runBits POLY crc (wordBits v)
  crc32cw (crc : BitVec 32) (v : BitVec 32) : i.crc32cw crc v = Crc.runBits POLY crc (wordBits v)
  crc32ch (crc : BitVec 32) (v : BitVec 16) : i.crc32ch crc v = Crc.runBits POLY crc (wordBits v)
  crc32cb (crc : BitVec 32) (v : BitVec 8) : i.crc32cb crc v = Crc.runBits POLY crc (wordBits v)

/-- Each instruction feeds its operand bit by bit; the widest one clears the upper half of its
register. -/
structure Sse42.Castagnoli (i : Sse42) : Prop where
  mm_crc32_u64 (crc : BitVec 64) (v : BitVec 64) : i.mm_crc32_u64 crc v =
    (Crc.runBits POLY (crc.setWidth 32) (wordBits v)).setWidth 64
  mm_crc32_u32 (crc : BitVec 32) (v : BitVec 32) :
    i.mm_crc32_u32 crc v = Crc.runBits POLY crc (wordBits v)
  mm_crc32_u16 (crc : BitVec 32) (v : BitVec 16) :
    i.mm_crc32_u16 crc v = Crc.runBits POLY crc (wordBits v)
  mm_crc32_u8 (crc : BitVec 32) (v : BitVec 8) :
    i.mm_crc32_u8 crc v = Crc.runBits POLY crc (wordBits v)

/-! ## The routines -/

/-- `from_le_bytes`. -/
def fromLeBytes (n : ℕ) (c : Bytes) : BitVec n := BitVec.ofNat n (leNat c)

/-- `chunks_exact(8)`: the whole chunks, and what remains. -/
def chunksExact8 : Bytes → List Bytes × Bytes
  | b₀ :: b₁ :: b₂ :: b₃ :: b₄ :: b₅ :: b₆ :: b₇ :: rest =>
    ([b₀, b₁, b₂, b₃, b₄, b₅, b₆, b₇] :: (chunksExact8 rest).1, (chunksExact8 rest).2)
  | short => ([], short)

/-- Fold 8 bytes at a time, then the tail with the narrower instructions. -/
def crc32cBy (fold8 : BitVec 32 → BitVec 64 → BitVec 32) (fold4 : BitVec 32 → BitVec 32 → BitVec 32)
    (fold2 : BitVec 32 → BitVec 16 → BitVec 32) (fold1 : BitVec 32 → BitVec 8 → BitVec 32)
    (data : Bytes) : BitVec 32 :=
  let chunks := chunksExact8 data
  let crc := chunks.1.foldl (fun crc c => fold8 crc (fromLeBytes 64 c)) (~~~0#32)
  let rem := chunks.2
  let four := if 4 ≤ rem.length then (fold4 crc (fromLeBytes 32 (rem.take 4)), rem.drop 4)
    else (crc, rem)
  let two := if 2 ≤ four.2.length then
      (fold2 four.1 (fromLeBytes 16 (four.2.take 2)), four.2.drop 2)
    else four
  let crc := match two.2 with
    | [] => two.1
    | b :: _ => fold1 two.1 b.toBitVec
  ~~~crc

/-- ARMv8 CRC32C. -/
def crc32cAarch64 (i : Aarch64Crc) (data : Bytes) : BitVec 32 :=
  crc32cBy i.crc32cd i.crc32cw i.crc32ch i.crc32cb data

/-- SSE4.2 CRC32C. -/
def crc32cX86 (i : Sse42) (data : Bytes) : BitVec 32 :=
  crc32cBy (fun crc v => (i.mm_crc32_u64 (crc.setWidth 64) v).setWidth 32) i.mm_crc32_u32
    i.mm_crc32_u16 i.mm_crc32_u8 data

/-- The processor a node runs on, and the instructions detected on it. -/
inductive Cpu where
  | aarch64 (crc : Option Aarch64Crc)
  | x86_64 (sse42 : Option Sse42)
  | other

/-- CRC32C of `data`, using a hardware instruction where available. -/
def crc32cOn (cpu : Cpu) (data : Bytes) : BitVec 32 :=
  match cpu with
  | .aarch64 (some i) => crc32cAarch64 i data
  | .x86_64 (some i) => crc32cX86 i data
  | .aarch64 none | .x86_64 none | .other => crc32c data

/-- The instructions of the processor do what its manual says. -/
def Cpu.Castagnoli : Cpu → Prop
  | .aarch64 (some i) => i.Castagnoli
  | .x86_64 (some i) => i.Castagnoli
  | .aarch64 none | .x86_64 none | .other => True

/-! ## The bits that are fed -/

/-- The chunks have eight bytes each, fewer remain, and together they are the data. -/
theorem chunksExact8_spec (data : Bytes) :
    (∀ c ∈ (chunksExact8 data).1, c.length = 8) ∧ (chunksExact8 data).2.length < 8 ∧
      (chunksExact8 data).1.flatten ++ (chunksExact8 data).2 = data := by
  induction data using chunksExact8.induct with
  | case1 b₀ b₁ b₂ b₃ b₄ b₅ b₆ b₇ rest ih =>
    obtain ⟨hchunks, hrem, hcat⟩ := ih
    rw [chunksExact8]
    refine ⟨?_, hrem, ?_⟩
    · intro c hc
      rcases List.mem_cons.mp hc with rfl | hc
      · rfl
      · exact hchunks c hc
    · rw [List.flatten_cons, List.append_assoc, hcat]
      rfl
  | case2 short hshort =>
    rw [chunksExact8]
    · refine ⟨by simp, ?_, rfl⟩
      -- eight bytes would have matched the first equation
      match short, hshort with
      | [], _ => simp
      | [_], _ => simp
      | [_, _], _ => simp
      | [_, _, _], _ => simp
      | [_, _, _, _], _ => simp
      | [_, _, _, _, _], _ => simp
      | [_, _, _, _, _, _], _ => simp
      | [_, _, _, _, _, _, _], _ => simp
      | b₀ :: b₁ :: b₂ :: b₃ :: b₄ :: b₅ :: b₆ :: b₇ :: rest, h =>
        exact absurd rfl (h b₀ b₁ b₂ b₃ b₄ b₅ b₆ b₇ rest)
    · exact hshort

section Feeds

/-- A routine that feeds its operand bit by bit. -/
def Feeds {n : ℕ} (fold : BitVec 32 → BitVec n → BitVec 32) : Prop :=
  ∀ crc v, fold crc v = Crc.runBits POLY crc (wordBits v)

/-- Feeding a word read from the data feeds those bytes. -/
theorem Feeds.fromLeBytes {n : ℕ} {fold : BitVec 32 → BitVec n → BitVec 32} (h : Feeds fold)
    (crc : BitVec 32) {c : Bytes} (hlen : n = 8 * c.length) :
    fold crc (fromLeBytes n c) = Crc.runBits POLY crc (bits c) := by
  rw [h, Core.fromLeBytes, wordBits_leNat hlen]

/-- The loop over the chunks feeds all of them. -/
theorem Feeds.chunks {fold : BitVec 32 → BitVec 64 → BitVec 32} (h : Feeds fold)
    (chunks : List Bytes) (hlen : ∀ c ∈ chunks, c.length = 8) (crc : BitVec 32) :
    chunks.foldl (fun crc c => fold crc (Core.fromLeBytes 64 c)) crc =
      Crc.runBits POLY crc (bits chunks.flatten) := by
  induction chunks generalizing crc with
  | nil => rfl
  | cons c chunks ih =>
    have hc : c.length = 8 := hlen c (List.mem_cons_self ..)
    rw [List.foldl_cons, ih (fun c hc => hlen c (List.mem_cons_of_mem _ hc)), List.flatten_cons,
      bits_append, Crc.runBits_append, h.fromLeBytes crc (by rw [hc])]

/-- A step of the tail feeds the bytes it takes, if there are enough, and leaves fewer of them. -/
theorem Feeds.tail {n k : ℕ} {fold : BitVec 32 → BitVec n → BitVec 32} (h : Feeds fold)
    (hn : n = 8 * k) (crc : BitVec 32) (rem : Bytes) :
    ∃ fed rest, rem = fed ++ rest ∧ (rem.length < 2 * k → rest.length < k) ∧
      (if k ≤ rem.length then (fold crc (Core.fromLeBytes n (rem.take k)), rem.drop k)
        else (crc, rem)) = (Crc.runBits POLY crc (bits fed), rest) := by
  by_cases hk : k ≤ rem.length
  · refine ⟨rem.take k, rem.drop k, (List.take_append_drop k rem).symm, ?_, ?_⟩
    · intro hlt
      rw [List.length_drop]
      omega
    · rw [if_pos hk, h.fromLeBytes crc (by rw [hn, List.length_take_of_le hk])]
  · refine ⟨[], rem, rfl, fun _ => Nat.not_le.mp hk, ?_⟩
    rw [if_neg hk]
    rfl

/-- **Cut into words** of 8, 4, 2 and 1 bytes, the data is fed bit by bit. -/
theorem crc32cBy_eq {fold8 : BitVec 32 → BitVec 64 → BitVec 32}
    {fold4 : BitVec 32 → BitVec 32 → BitVec 32} {fold2 : BitVec 32 → BitVec 16 → BitVec 32}
    {fold1 : BitVec 32 → BitVec 8 → BitVec 32} (h8 : Feeds fold8) (h4 : Feeds fold4)
    (h2 : Feeds fold2) (h1 : Feeds fold1) (data : Bytes) :
    crc32cBy fold8 fold4 fold2 fold1 data = crc32c data := by
  obtain ⟨hchunks, hrem, hcat⟩ := chunksExact8_spec data
  rw [crc32c_eq_runBits]
  conv_rhs => rw [← hcat]
  unfold crc32cBy
  dsimp only
  rw [h8.chunks _ hchunks, bits_append, Crc.runBits_append]
  -- from here on only the remainder is left
  generalize Crc.runBits POLY (~~~0#32) (bits (chunksExact8 data).1.flatten) = crc
  generalize (chunksExact8 data).2 = rem at hrem
  obtain ⟨fed₄, rest₄, hrem₄, hshort₄, heq₄⟩ := h4.tail (k := 4) rfl crc rem
  obtain ⟨fed₂, rest₂, hrem₂, hshort₂, heq₂⟩ :=
    h2.tail (k := 2) rfl (Crc.runBits POLY crc (bits fed₄)) rest₄
  have hlt₂ : rest₂.length < 2 := hshort₂ (hshort₄ hrem)
  simp only [heq₄, heq₂]
  rw [hrem₄, hrem₂, bits_append, bits_append, Crc.runBits_append, Crc.runBits_append]
  apply congrArg
  match rest₂, hlt₂ with
  | [], _ => rfl
  | [b], _ => exact (h1 _ _).trans (by rw [bits_cons, bits_nil, List.append_nil])

end Feeds

/-- The x86 instruction, with its register cut to 32 bits, feeds its operand. -/
theorem Sse42.Castagnoli.feeds_u64 {i : Sse42} (h : i.Castagnoli) :
    Feeds fun crc v => (i.mm_crc32_u64 (crc.setWidth 64) v).setWidth 32 := by
  intro crc v
  show (i.mm_crc32_u64 (crc.setWidth 64) v).setWidth 32 = _
  rw [h.mm_crc32_u64, BitVec.setWidth_setWidth_of_le _ (by decide),
    BitVec.setWidth_setWidth_of_le _ (by decide), BitVec.setWidth_eq, BitVec.setWidth_eq]

/-- **All checksum paths agree**: on instructions that feed their operand bit by bit, both hardware
routines return what the table returns, which is the check defined bit by bit. -/
theorem checksum_paths_agree {x86 : Sse42} {arm : Aarch64Crc} (hx86 : x86.Castagnoli)
    (harm : arm.Castagnoli) (data : Bytes) :
    crc32cX86 x86 data = crc32c data ∧ crc32cAarch64 arm data = crc32c data ∧
      crc32c data = ~~~(Crc.runBits 0x82F63B78#32 (~~~0#32) (bits data)) := by
  refine ⟨?_, ?_, crc32c_eq_runBits data⟩
  · exact crc32cBy_eq hx86.feeds_u64 hx86.mm_crc32_u32 hx86.mm_crc32_u16 hx86.mm_crc32_u8 data
  · exact crc32cBy_eq harm.crc32cd harm.crc32cw harm.crc32ch harm.crc32cb data

/-- Instructions that feed their operand bit by bit. -/
def Aarch64Crc.reference : Aarch64Crc where
  crc32cd crc v := Crc.runBits POLY crc (wordBits v)
  crc32cw crc v := Crc.runBits POLY crc (wordBits v)
  crc32ch crc v := Crc.runBits POLY crc (wordBits v)
  crc32cb crc v := Crc.runBits POLY crc (wordBits v)

theorem Aarch64Crc.reference_castagnoli : Aarch64Crc.reference.Castagnoli :=
  ⟨fun _ _ => rfl, fun _ _ => rfl, fun _ _ => rfl, fun _ _ => rfl⟩

/-- Instructions that feed their operand bit by bit. -/
def Sse42.reference : Sse42 where
  mm_crc32_u64 crc v := (Crc.runBits POLY (crc.setWidth 32) (wordBits v)).setWidth 64
  mm_crc32_u32 crc v := Crc.runBits POLY crc (wordBits v)
  mm_crc32_u16 crc v := Crc.runBits POLY crc (wordBits v)
  mm_crc32_u8 crc v := Crc.runBits POLY crc (wordBits v)

theorem Sse42.reference_castagnoli : Sse42.reference.Castagnoli :=
  ⟨fun _ _ => rfl, fun _ _ => rfl, fun _ _ => rfl, fun _ _ => rfl⟩

/-- The test vector `123456789`, which takes a whole chunk and a tail of one byte. -/
theorem checksum_paths_agree_vector :
    let data : Bytes := [49, 50, 51, 52, 53, 54, 55, 56, 57]
    crc32c data = 0xE3069283#32 ∧ crc32cX86 Sse42.reference data = 0xE3069283#32 ∧
      crc32cAarch64 Aarch64Crc.reference data = 0xE3069283#32 := by
  intro data
  obtain ⟨hx86, harm, -⟩ :=
    checksum_paths_agree Sse42.reference_castagnoli Aarch64Crc.reference_castagnoli data
  have hvector : crc32c data = 0xE3069283#32 := by decide +kernel
  exact ⟨hvector, hx86.trans hvector, harm.trans hvector⟩

/-- The checksum does not depend on the processor. -/
theorem crc32cOn_eq {cpu : Cpu} (h : cpu.Castagnoli) (data : Bytes) : crc32cOn cpu data = crc32c data := by
  match cpu, h with
  | .aarch64 (some _), h => exact crc32cBy_eq h.crc32cd h.crc32cw h.crc32ch h.crc32cb data
  | .x86_64 (some _), h =>
    exact crc32cBy_eq h.feeds_u64 h.mm_crc32_u32 h.mm_crc32_u16 h.mm_crc32_u8 data
  | .aarch64 none, _ => rfl
  | .x86_64 none, _ => rfl
  | .other, _ => rfl

end Ticktape.Core
