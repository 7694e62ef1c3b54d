import Mathlib.Data.List.GetD
import Ticktape.Lib.Crc

/-!
# Messages as bits

A cyclic redundancy check is defined on bits: each is folded into the remainder, which is then
shifted once. Feeding a word at once, byte or wider, is feeding its bits, least significant first
(`runBits_word`), so every way to cut a message into words computes one remainder.

Two messages that differ by a *burst*, within a window no longer than the remainder, never leave
the same one (`runBits_ne_of_burst`): the steps before the window and behind it lose nothing, and
within it the remainder still holds every bit that was folded in.
-/

namespace Ticktape.Lib

/-! ## Bits -/

/-- The bits of a word, least significant first. -/
def wordBits {n : ℕ} (v : BitVec n) : List Bool := (List.range n).map v.getLsbD

/-- The bits of a message, least significant first within each byte. -/
def bits (data : Bytes) : List Bool := data.flatMap fun b => wordBits b.toBitVec

@[simp] theorem length_wordBits {n : ℕ} (v : BitVec n) : (wordBits v).length = n := by
  simp [wordBits]

theorem getD_wordBits {n : ℕ} (v : BitVec n) (i : ℕ) : (wordBits v).getD i false = v.getLsbD i := by
  by_cases hi : i < n
  · simp [wordBits, List.getD_eq_getElem?_getD, hi]
  · simp [wordBits, List.getD_eq_getElem?_getD, hi, BitVec.getLsbD_of_ge v i (Nat.not_lt.mp hi)]

@[simp] theorem bits_nil : bits [] = [] := rfl

theorem bits_cons (b : UInt8) (data : Bytes) : bits (b :: data) = wordBits b.toBitVec ++ bits data :=
  rfl

theorem bits_append (a b : Bytes) : bits (a ++ b) = bits a ++ bits b := List.flatMap_append

@[simp] theorem length_bits (data : Bytes) : (bits data).length = 8 * data.length := by
  induction data with
  | nil => rfl
  | cons b data ih =>
    rw [bits_cons, List.length_append, length_wordBits, ih, List.length_cons]
    omega

/-- The bits of a message are the binary digits of the number it denotes. -/
theorem getD_bits (data : Bytes) (i : ℕ) : (bits data).getD i false = (leNat data).testBit i := by
  induction data generalizing i with
  | nil => simp [leNat]
  | cons b data ih =>
    have hb : b.toNat < 2 ^ 8 := b.toNat_lt
    have hnat : leNat (b :: data) = 2 ^ 8 * leNat data + b.toNat := by
      rw [leNat]
      omega
    rw [hnat, Nat.testBit_two_pow_mul_add _ hb, bits_cons]
    by_cases hi : i < 8
    · rw [List.getD_append _ _ _ _ (by simpa using hi), getD_wordBits, if_pos hi]
      rfl
    · rw [List.getD_append_right _ _ _ _ (by simpa using hi), length_wordBits, ih, if_neg hi]

/-- Lists of one length are told apart by their entries. -/
theorem ext_getD {l m : List Bool} (hlen : l.length = m.length)
    (h : ∀ i, l.getD i false = m.getD i false) : l = m := by
  apply List.ext_getElem hlen
  intro i hl hm
  have := h i
  rwa [List.getD_eq_getElem _ _ hl, List.getD_eq_getElem _ _ hm] at this

/-- **A word read from little-endian bytes has the bits of those bytes.** -/
theorem wordBits_leNat {n : ℕ} {data : Bytes} (hlen : n = 8 * data.length) :
    wordBits (BitVec.ofNat n (leNat data)) = bits data := by
  apply ext_getD
  · simp [hlen]
  · intro i
    rw [getD_wordBits, getD_bits, BitVec.getLsbD_ofNat]
    by_cases hi : i < n
    · simp [hi]
    · have hlt : leNat data < 2 ^ i := by
        have hpow : 256 ^ data.length = 2 ^ (8 * data.length) := by
          rw [show (256 : ℕ) = 2 ^ 8 from rfl, ← Nat.pow_mul]
        apply Nat.lt_of_lt_of_le (hpow ▸ leNat_lt data)
        exact Nat.pow_le_pow_right (by omega) (by omega)
      simp [hi, Nat.testBit_lt_two_pow hlt]

theorem bits_injective : Function.Injective bits := by
  intro a b h
  have hlen : a.length = b.length := by
    have := congrArg List.length h
    simp only [length_bits] at this
    omega
  apply leNat_inj hlen
  apply Nat.eq_of_testBit_eq
  intro i
  rw [← getD_bits, ← getD_bits, h]

/-! ## Bursts -/

/-- `q` is `p` with a change confined to `n` consecutive entries. -/
def Burst {α : Type} (n : ℕ) (p q : List α) : Prop :=
  ∃ pre x y post, p = pre ++ (x ++ post) ∧ q = pre ++ (y ++ post) ∧
    x.length = y.length ∧ x.length ≤ n ∧ x ≠ y

theorem Burst.length_eq {α : Type} {n : ℕ} {p q : List α} (h : Burst n p q) :
    q.length = p.length := by
  obtain ⟨pre, x, y, post, rfl, rfl, hlen, -, -⟩ := h
  simp [hlen]

/-- Changed bytes are changed bits. -/
theorem Burst.bits {n : ℕ} {p q : Bytes} (h : Burst n p q) : Burst (8 * n) (bits p) (bits q) := by
  obtain ⟨pre, x, y, post, rfl, rfl, hlen, hle, hne⟩ := h
  refine ⟨Lib.bits pre, Lib.bits x, Lib.bits y, Lib.bits post, ?_, ?_, ?_, ?_, ?_⟩
  · rw [bits_append, bits_append]
  · rw [bits_append, bits_append]
  · rw [length_bits, length_bits, hlen]
  · rw [length_bits]
    exact Nat.mul_le_mul_left 8 hle
  · exact fun heq => hne (bits_injective heq)

theorem Burst.mono {α : Type} {m n : ℕ} {p q : List α} (h : Burst m p q) (hle : m ≤ n) :
    Burst n p q := by
  obtain ⟨pre, x, y, post, hp, hq, hlen, hm, hne⟩ := h
  exact ⟨pre, x, y, post, hp, hq, hlen, Nat.le_trans hm hle, hne⟩


section Split

variable {α : Type} {n : ℕ} {p q a b : List α}

theorem Burst.ne (h : Burst n p q) : p ≠ q := by
  obtain ⟨pre, x, y, post, rfl, rfl, -, -, hne⟩ := h
  exact fun heq => hne (List.append_cancel_right (List.append_cancel_left heq))

/-- The front of a changed message was changed the same way, or not at all. -/
theorem Burst.take (h : Burst n p q) (k : ℕ) : p.take k = q.take k ∨ Burst n (p.take k) (q.take k) := by
  obtain ⟨pre, x, y, post, rfl, rfl, hlen, hle, -⟩ := h
  rw [List.take_append, List.take_append, List.take_append, List.take_append, ← hlen]
  by_cases heq : x.take (k - pre.length) = y.take (k - pre.length)
  · exact Or.inl (by rw [heq])
  · refine Or.inr ⟨_, _, _, _, rfl, rfl, ?_, ?_, heq⟩
    · rw [List.length_take, List.length_take, hlen]
    · exact Nat.le_trans (List.length_take_le' _ _) hle

/-- So was the rest. -/
theorem Burst.drop (h : Burst n p q) (k : ℕ) : p.drop k = q.drop k ∨ Burst n (p.drop k) (q.drop k) := by
  obtain ⟨pre, x, y, post, rfl, rfl, hlen, hle, -⟩ := h
  rw [List.drop_append, List.drop_append, List.drop_append, List.drop_append, ← hlen]
  by_cases heq : x.drop (k - pre.length) = y.drop (k - pre.length)
  · exact Or.inl (by rw [heq])
  · refine Or.inr ⟨_, _, _, _, rfl, rfl, ?_, ?_, heq⟩
    · rw [List.length_drop, List.length_drop, hlen]
    · rw [List.length_drop]
      omega

/-- **A changed message of two parts**: the first part was changed, or only the second. -/
theorem Burst.split (h : Burst n (a ++ b) q) :
    ∃ a' b', q = a' ++ b' ∧ (Burst n a a' ∨ a' = a ∧ Burst n b b') := by
  refine ⟨q.take a.length, q.drop a.length, (List.take_append_drop ..).symm, ?_⟩
  have hfront := h.take a.length
  have hrest := h.drop a.length
  rw [List.take_left] at hfront
  rw [List.drop_left] at hrest
  refine hfront.symm.imp_right fun hsame => ⟨hsame.symm, hrest.resolve_left fun hsame' => ?_⟩
  apply h.ne
  calc a ++ b = q.take a.length ++ q.drop a.length := by rw [← hsame, ← hsame']
    _ = q := List.take_append_drop ..

end Split

/-- A change confined to `n` consecutive bits of a message. -/
def BitBurst (n : ℕ) (p q : Bytes) : Prop := Burst n (bits p) (bits q)

theorem BitBurst.length_eq {n : ℕ} {p q : Bytes} (h : BitBurst n p q) : q.length = p.length := by
  have hbits := Burst.length_eq h
  rw [length_bits, length_bits] at hbits
  omega

/-- Four changed bytes are a burst of 32 bits. -/
theorem Burst.bitBurst {p q : Bytes} (h : Burst 4 p q) : BitBurst 32 p q := h.bits

/-- One changed byte is a burst of eight bits. -/
theorem OneByte.bitBurst {n : ℕ} {p q : Bytes} (h : OneByte p q) (hn : 8 ≤ n) : BitBurst n p q := by
  obtain ⟨pre, x, y, post, rfl, rfl, hne⟩ := h
  have hburst : Burst 1 (pre ++ x :: post) (pre ++ y :: post) :=
    ⟨pre, [x], [y], post, rfl, rfl, rfl, Nat.le_refl 1, by simpa using hne⟩
  exact hburst.bits.mono hn

namespace Crc

variable {w : ℕ}

/-! ## The check, bit by bit -/

/-- Feed one bit: fold it into the lowest place, then one bit step. -/
def feedBit (poly s : BitVec w) (b : Bool) : BitVec w :=
  bitStep poly (s ^^^ if b then 1#w else 0#w)

/-- The remainder after some bits. -/
def runBits (poly s : BitVec w) (l : List Bool) : BitVec w := l.foldl (feedBit poly) s

theorem runBits_append (poly s : BitVec w) (a b : List Bool) :
    runBits poly s (a ++ b) = runBits poly (runBits poly s a) b := List.foldl_append

/-- A word that does not reach the top place is moved back down by one step. -/
theorem bitStep_shiftLeft (poly s : BitVec w) (h : s.getLsbD (w - 1) = false) :
    bitStep poly (s <<< 1) = s := by
  have hlow : (s <<< 1).getLsbD 0 = false := by simp
  unfold bitStep
  rw [hlow, if_neg Bool.false_ne_true]
  apply BitVec.eq_of_getLsbD_eq
  intro i hi
  rw [BitVec.getLsbD_ushiftRight, BitVec.getLsbD_shiftLeft]
  by_cases htop : 1 + i < w
  · simp [htop]
  · obtain rfl : i = w - 1 := by omega
    simp [htop, h]

/-- The bits of a list as a word, the first of them lowest. -/
def word (w : ℕ) (l : List Bool) : BitVec w := (BitVec.ofBoolListLE l).setWidth w

theorem getLsbD_word (l : List Bool) (i : ℕ) :
    (word w l).getLsbD i = (decide (i < w) && l.getD i false) := by
  rw [word, BitVec.getLsbD_setWidth, BitVec.getLsbD_ofBoolListLE]

theorem word_nil : word w [] = 0#w := by
  apply BitVec.eq_of_getLsbD_eq
  intro i _
  simp [getLsbD_word]

theorem word_cons (b : Bool) (l : List Bool) :
    word w (b :: l) = (if b then 1#w else 0#w) ^^^ (word w l <<< 1) := by
  apply BitVec.eq_of_getLsbD_eq
  intro i hi
  rw [getLsbD_word, BitVec.getLsbD_xor, BitVec.getLsbD_shiftLeft, getLsbD_word]
  cases i with
  | zero => cases b <;> simp [hi]
  | succ i =>
    have hi' : i < w := Nat.lt_of_succ_lt hi
    cases b <;> simp [hi, hi']

theorem word_wordBits {n : ℕ} (v : BitVec n) : word w (wordBits v) = v.setWidth w := by
  apply BitVec.eq_of_getLsbD_eq
  intro i _
  rw [getLsbD_word, getD_wordBits, BitVec.getLsbD_setWidth]

/-- **Feeding bits one by one** is folding them in at once and stepping as often. -/
theorem runBits_eq_bitSteps (poly : BitVec w) (l : List Bool) (s : BitVec w) (h : l.length ≤ w) :
    runBits poly s l = bitSteps poly l.length (s ^^^ word w l) := by
  induction l generalizing s with
  | nil =>
    rw [word_nil, BitVec.xor_zero]
    rfl
  | cons b l ih =>
    rw [List.length_cons] at h
    have htop : (word w l).getLsbD (w - 1) = false := by
      rw [getLsbD_word, List.getD_eq_default _ _ (by omega), Bool.and_false]
    calc runBits poly s (b :: l)
        = runBits poly (bitStep poly (s ^^^ if b then 1#w else 0#w)) l := rfl
      _ = bitSteps poly l.length (bitStep poly (s ^^^ if b then 1#w else 0#w) ^^^
            word w l) := ih _ (Nat.le_of_succ_le h)
      _ = bitSteps poly l.length (bitStep poly (s ^^^ if b then 1#w else 0#w) ^^^
            bitStep poly (word w l <<< 1)) := by
          rw [bitStep_shiftLeft poly _ htop]
      _ = bitSteps poly l.length (bitStep poly (s ^^^ word w (b :: l))) := by
          rw [← bitStep_xor, word_cons, BitVec.xor_assoc]

/-- **A word no wider than the remainder** is fed at once. -/
theorem runBits_word (poly s : BitVec w) {n : ℕ} (v : BitVec n) (h : n ≤ w) :
    runBits poly s (wordBits v) = bitSteps poly n (s ^^^ v.setWidth w) := by
  rw [runBits_eq_bitSteps poly _ s (by simpa using h), word_wordBits, length_wordBits]

/-- The bytewise remainder is the bitwise one. -/
theorem run_eq_runBits (hw : 8 ≤ w) (poly s : BitVec w) (data : Bytes) :
    run poly s data = runBits poly s (bits data) := by
  induction data generalizing s with
  | nil => rfl
  | cons b data ih =>
    rw [bits_cons, runBits_append, runBits_word poly s _ hw]
    exact ih _

/-! ## Bursts are caught -/

section Burst

variable {poly : BitVec (w + 1)} (htop : poly.getLsbD w = true)
include htop

theorem runBits_injective (l : List Bool) : Function.Injective (fun s => runBits poly s l) := by
  induction l with
  | nil => exact fun _ _ h => h
  | cons b l ih =>
    intro s t h
    have hstep : bitStep poly (s ^^^ if b then 1#(w + 1) else 0#(w + 1)) =
        bitStep poly (t ^^^ if b then 1#(w + 1) else 0#(w + 1)) := ih h
    exact (BitVec.xor_left_inj _).mp (bitStep_injective htop hstep)

/-- Within a window no longer than the remainder, different bits leave different remainders. -/
theorem runBits_window (s : BitVec (w + 1)) {x y : List Bool} (hlen : x.length = y.length)
    (hle : x.length ≤ w + 1) (h : runBits poly s x = runBits poly s y) : x = y := by
  rw [runBits_eq_bitSteps poly x s hle, runBits_eq_bitSteps poly y s (hlen ▸ hle), ← hlen] at h
  have hword := (BitVec.xor_right_inj s).mp (bitSteps_injective htop x.length h)
  apply ext_getD hlen
  intro i
  have hbit := congrArg (fun v : BitVec (w + 1) => v.getLsbD i) hword
  simp only [getLsbD_word] at hbit
  by_cases hi : i < w + 1
  · simpa only [hi, decide_true, Bool.true_and] using hbit
  · -- both lists have ended
    rw [List.getD_eq_default _ _ (by omega), List.getD_eq_default _ _ (by omega)]

/-- **Every burst changes the remainder.** -/
theorem runBits_ne_of_burst (s : BitVec (w + 1)) {p q : List Bool} (h : Burst (w + 1) p q) :
    runBits poly s p ≠ runBits poly s q := by
  obtain ⟨pre, x, y, post, rfl, rfl, hlen, hle, hne⟩ := h
  intro heq
  rw [runBits_append, runBits_append, runBits_append, runBits_append] at heq
  exact hne (runBits_window htop _ hlen hle (runBits_injective htop post heq))

end Burst

end Crc

end Ticktape.Lib
