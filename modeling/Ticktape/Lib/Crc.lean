import Ticktape.Lib.Bytes

/-!
# Reflected cyclic redundancy checks

A reflected CRC of width `w` shifts its remainder right one bit at a time and folds the
polynomial in whenever the bit shifted out is set. The facts here hold of every polynomial
whose top bit is set (the constant term of the unreflected polynomial):

- `bitStep` is linear over exclusive or and injective, so no difference between two
  remainders is ever lost (`bitStep_xor`, `bitStep_injective`);
- eight bit steps are one table lookup and a shift (`bitSteps_eight`).
-/

namespace Ticktape.Lib.Crc

variable {w : ℕ}

/-- Shift the remainder one bit, folding in the polynomial when a set bit leaves. -/
def bitStep (poly s : BitVec w) : BitVec w :=
  if s.getLsbD 0 then (s >>> 1) ^^^ poly else s >>> 1

/-- `n` bit steps. -/
def bitSteps (poly : BitVec w) : ℕ → BitVec w → BitVec w
  | 0, s => s
  | n + 1, s => bitSteps poly n (bitStep poly s)

/-- Feed one byte: fold it into the low bits, then eight bit steps. -/
def byteStep (poly s : BitVec w) (b : UInt8) : BitVec w :=
  bitSteps poly 8 (s ^^^ b.toBitVec.setWidth w)

/-- The remainder after a message. -/
def run (poly : BitVec w) (s : BitVec w) (data : Bytes) : BitVec w :=
  data.foldl (byteStep poly) s

/-! ## Linearity -/

theorem bitStep_xor (poly a b : BitVec w) :
    bitStep poly (a ^^^ b) = bitStep poly a ^^^ bitStep poly b := by
  unfold bitStep
  rw [BitVec.getLsbD_xor, BitVec.ushiftRight_xor_distrib]
  cases a.getLsbD 0 <;> cases b.getLsbD 0
  · simp
  · simp only [Bool.false_xor, Bool.false_eq_true, if_true, if_false]
    rw [BitVec.xor_assoc]
  · simp only [Bool.xor_false, Bool.false_eq_true, if_true, if_false]
    rw [BitVec.xor_assoc, BitVec.xor_comm (b >>> 1) poly, ← BitVec.xor_assoc]
  · simp only [Bool.xor_self, Bool.false_eq_true, if_true, if_false]
    -- the polynomial was folded in twice
    rw [BitVec.xor_assoc, BitVec.xor_comm (b >>> 1) poly, ← BitVec.xor_assoc poly,
      BitVec.xor_self, BitVec.zero_xor]

theorem bitSteps_xor (poly : BitVec w) (n : ℕ) (a b : BitVec w) :
    bitSteps poly n (a ^^^ b) = bitSteps poly n a ^^^ bitSteps poly n b := by
  induction n generalizing a b with
  | zero => rfl
  | succ n ih => rw [bitSteps, bitStep_xor, ih]; rfl

/-- A remainder whose low `n` bits are clear is only moved down by `n` steps. -/
theorem bitSteps_of_low_clear (poly : BitVec w) (n : ℕ) (s : BitVec w)
    (h : ∀ i < n, s.getLsbD i = false) : bitSteps poly n s = s >>> n := by
  induction n generalizing s with
  | zero => simp [bitSteps]
  | succ n ih =>
    have hstep : bitStep poly s = s >>> 1 := by
      unfold bitStep
      rw [h 0 (Nat.succ_pos n)]
      rfl
    have hlow : ∀ i < n, (s >>> 1).getLsbD i = false := by
      intro i hi
      rw [BitVec.getLsbD_ushiftRight]
      exact h (1 + i) (by omega)
    rw [bitSteps, hstep, ih _ hlow, ← BitVec.shiftRight_add, Nat.add_comm]

/-! ## The table form -/

/-- The low eight bits of a remainder. -/
def lowByte (s : BitVec w) : BitVec w := (s.setWidth 8).setWidth w

theorem getLsbD_lowByte (s : BitVec w) (i : ℕ) :
    (lowByte s).getLsbD i = (decide (i < 8) && s.getLsbD i) := by
  rw [lowByte, BitVec.getLsbD_setWidth, BitVec.getLsbD_setWidth]
  by_cases hw : i < w
  · simp [hw]
  · simp [hw, BitVec.getLsbD_of_ge s i (by omega)]

/-- **Eight bit steps at once**: the table entry of the low byte, and the rest moved down. -/
theorem bitSteps_eight (poly s : BitVec w) :
    bitSteps poly 8 s = (s >>> 8) ^^^ bitSteps poly 8 (lowByte s) := by
  have hsplit : s = (s ^^^ lowByte s) ^^^ lowByte s := by
    rw [BitVec.xor_assoc, BitVec.xor_self, BitVec.xor_zero]
  have hlow : ∀ i < 8, (s ^^^ lowByte s).getLsbD i = false := by
    intro i hi
    simp [getLsbD_lowByte, hi]
  have hhigh : (s ^^^ lowByte s) >>> 8 = s >>> 8 := by
    apply BitVec.eq_of_getLsbD_eq
    intro i _
    rw [BitVec.getLsbD_ushiftRight, BitVec.getLsbD_ushiftRight, BitVec.getLsbD_xor, getLsbD_lowByte,
      decide_eq_false (by omega : ¬8 + i < 8), Bool.false_and, Bool.xor_false]
  calc bitSteps poly 8 s
      = bitSteps poly 8 ((s ^^^ lowByte s) ^^^ lowByte s) := by rw [← hsplit]
    _ = bitSteps poly 8 (s ^^^ lowByte s) ^^^ bitSteps poly 8 (lowByte s) := bitSteps_xor ..
    _ = (s >>> 8) ^^^ bitSteps poly 8 (lowByte s) := by
        rw [bitSteps_of_low_clear poly 8 _ hlow, hhigh]

/-! ## No difference is lost -/

section Injective

variable {poly : BitVec (w + 1)} (htop : poly.getLsbD w = true)
include htop

/-- The top bit after a step is the bit that was shifted out. -/
theorem getLsbD_bitStep_top (s : BitVec (w + 1)) :
    (bitStep poly s).getLsbD w = s.getLsbD 0 := by
  unfold bitStep
  have hshift : (s >>> 1).getLsbD w = false := by
    rw [BitVec.getLsbD_ushiftRight]
    exact BitVec.getLsbD_of_ge s _ (by omega)
  cases s.getLsbD 0
  · rw [if_neg Bool.false_ne_true, hshift]
  · rw [if_pos rfl, BitVec.getLsbD_xor, hshift, htop]
    rfl

theorem bitStep_injective : Function.Injective (bitStep poly) := by
  intro s t h
  have hbit : s.getLsbD 0 = t.getLsbD 0 := by
    rw [← getLsbD_bitStep_top htop s, ← getLsbD_bitStep_top htop t, h]
  have hshift : s >>> 1 = t >>> 1 := by
    unfold bitStep at h
    rw [hbit] at h
    cases ht : t.getLsbD 0
    · rwa [ht, if_neg Bool.false_ne_true, if_neg Bool.false_ne_true] at h
    · rw [ht, if_pos rfl, if_pos rfl] at h
      exact (BitVec.xor_left_inj poly).mp h
  apply BitVec.eq_of_getLsbD_eq
  intro i _
  cases i with
  | zero => exact hbit
  | succ i =>
    have := congrArg (fun x : BitVec (w + 1) => x.getLsbD i) hshift
    simpa [BitVec.getLsbD_ushiftRight, Nat.add_comm] using this

theorem bitSteps_injective (n : ℕ) : Function.Injective (bitSteps poly n) := by
  induction n with
  | zero => exact fun _ _ h => h
  | succ n ih => exact fun _ _ h => bitStep_injective htop (ih h)

end Injective

end Ticktape.Lib.Crc
