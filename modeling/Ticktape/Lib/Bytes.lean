import Mathlib.Algebra.Order.Ring.Nat
import Mathlib.Data.List.Basic

/-!
# Byte strings

Little-endian integers, and what a power loss leaves of bytes that were written but not
yet synced: a prefix, with at most one bit of it flipped.

The damage relation is used through one fact, `Torn.block`: a leading block of the damaged
bytes is either whole, or cut short, or differs from the original in exactly one byte.
A checksum that catches every one-byte change therefore catches all damage a block can take
short of losing bytes.
-/

namespace Ticktape.Lib

/-- A byte string. -/
abbrev Bytes := List UInt8

/-! ## Little-endian integers -/

/-- The `k` low-order bytes of `n`, least significant first. -/
def leBytes : ℕ → ℕ → Bytes
  | 0, _ => []
  | k + 1, n => UInt8.ofNat n :: leBytes k (n / 256)

/-- The number a little-endian byte string denotes. -/
def leNat : Bytes → ℕ
  | [] => 0
  | b :: bs => b.toNat + 256 * leNat bs

@[simp] theorem leBytes_length (k n : ℕ) : (leBytes k n).length = k := by
  induction k generalizing n with
  | zero => rfl
  | succ k ih => simp [leBytes, ih]

theorem leNat_lt (bs : Bytes) : leNat bs < 256 ^ bs.length := by
  induction bs with
  | nil => simp [leNat]
  | cons b bs ih =>
    have hb : b.toNat < 256 := b.toNat_lt
    have hpow : 256 ^ (b :: bs).length = 256 * 256 ^ bs.length := by
      rw [List.length_cons, Nat.pow_succ, Nat.mul_comm]
    rw [hpow, leNat]
    omega

/-- Reading back what was written: the value modulo the width. -/
theorem leNat_leBytes (k n : ℕ) : leNat (leBytes k n) = n % 256 ^ k := by
  induction k generalizing n with
  | zero => simp [leBytes, leNat, Nat.mod_one]
  | succ k ih =>
    have hpow : 256 ^ (k + 1) = 256 * 256 ^ k := by rw [Nat.pow_succ, Nat.mul_comm]
    rw [leBytes, leNat, ih, hpow, Nat.mod_mul, UInt8.toNat_ofNat']

theorem leNat_leBytes_of_lt {k n : ℕ} (h : n < 256 ^ k) : leNat (leBytes k n) = n := by
  rw [leNat_leBytes, Nat.mod_eq_of_lt h]

/-- Every byte string of the right length is the encoding of the number it denotes. -/
theorem leBytes_leNat (bs : Bytes) : leBytes bs.length (leNat bs) = bs := by
  induction bs with
  | nil => rfl
  | cons b bs ih =>
    have hb : b.toNat < 256 := b.toNat_lt
    have hdiv : (b.toNat + 256 * leNat bs) / 256 = leNat bs := by omega
    have hhead : UInt8.ofNat (b.toNat + 256 * leNat bs) = b := by
      apply UInt8.toNat_inj.mp
      rw [UInt8.toNat_ofNat']
      omega
    rw [List.length_cons, leNat, leBytes, hdiv, ih, hhead]

/-- Byte strings of one length denoting the same number are equal. -/
theorem leNat_inj {bs cs : Bytes} (hlen : bs.length = cs.length) (h : leNat bs = leNat cs) :
    bs = cs := by
  rw [← leBytes_leNat bs, ← leBytes_leNat cs, hlen, h]

/-! ## Fields at fixed offsets -/

/-- The `len` bytes at offset `off`. -/
def slice (bs : Bytes) (off len : ℕ) : Bytes := (bs.drop off).take len

theorem slice_length_le (bs : Bytes) (off len : ℕ) : (slice bs off len).length ≤ len :=
  List.length_take_le _ _

theorem slice_length {bs : Bytes} {off len : ℕ} (h : off + len ≤ bs.length) :
    (slice bs off len).length = len := by
  rw [slice, List.length_take, List.length_drop]
  omega

/-- A field that stands first. -/
theorem slice_here {a : Bytes} {k : ℕ} (b : Bytes) (h : a.length = k) : slice (a ++ b) 0 k = a := by
  rw [slice, List.drop_zero, ← h, List.take_left]

/-- A field behind another one. -/
theorem slice_skip {a : Bytes} {k : ℕ} (b : Bytes) (n len : ℕ) (h : a.length = k) :
    slice (a ++ b) (k + n) len = slice b n len := by
  rw [slice, slice, ← h, ← List.drop_drop, List.drop_left]

theorem leNat_slice_lt (bs : Bytes) (off len : ℕ) : leNat (slice bs off len) < 256 ^ len :=
  Nat.lt_of_lt_of_le (leNat_lt _) (Nat.pow_le_pow_right (by omega) (slice_length_le bs off len))

/-! ## One changed byte -/

/-- `q` is `p` with exactly one byte replaced by a different one. -/
def OneByte (p q : Bytes) : Prop :=
  ∃ pre x y post, p = pre ++ x :: post ∧ q = pre ++ y :: post ∧ x ≠ y

theorem OneByte.cons {p q : Bytes} (b : UInt8) (h : OneByte p q) :
    OneByte (b :: p) (b :: q) := by
  obtain ⟨pre, x, y, post, rfl, rfl, hne⟩ := h
  exact ⟨b :: pre, x, y, post, rfl, rfl, hne⟩

/-- A change in a concatenation lies in one of the two parts. -/
theorem OneByte.append {a b q : Bytes} (h : OneByte (a ++ b) q) :
    (∃ a', OneByte a a' ∧ q = a' ++ b) ∨ (∃ b', OneByte b b' ∧ q = a ++ b') := by
  induction a generalizing q with
  | nil => exact Or.inr ⟨q, h, rfl⟩
  | cons c a ih =>
    obtain ⟨pre, x, y, post, hp, rfl, hne⟩ := h
    cases pre with
    | nil =>
      obtain ⟨rfl, hpost⟩ := List.cons.inj hp
      exact Or.inl ⟨y :: a, ⟨[], c, y, a, rfl, rfl, hne⟩, by rw [← hpost]; rfl⟩
    | cons d pre =>
      obtain ⟨rfl, hrest⟩ := List.cons.inj hp
      rcases ih ⟨pre, x, y, post, hrest, rfl, hne⟩ with ⟨a', ha', heq⟩ | ⟨b', hb', heq⟩
      · exact Or.inl ⟨c :: a', ha'.cons c, by rw [List.cons_append, heq]; rfl⟩
      · exact Or.inr ⟨b', hb', by rw [List.cons_append, heq]; rfl⟩

theorem OneByte.length_eq {p q : Bytes} (h : OneByte p q) : q.length = p.length := by
  obtain ⟨pre, x, y, post, rfl, rfl, -⟩ := h
  simp

theorem OneByte.ne {p q : Bytes} (h : OneByte p q) : p ≠ q := by
  obtain ⟨pre, x, y, post, rfl, rfl, hne⟩ := h
  intro heq
  exact hne (List.cons.inj (List.append_cancel_left heq)).1

/-! ## Damage -/

/-- `y` is `x` with one bit flipped. -/
def BitFlip (x y : UInt8) : Prop := ∃ k, k < 8 ∧ y = x ^^^ (1 <<< UInt8.ofNat k)

theorem BitFlip.ne {x y : UInt8} (h : BitFlip x y) : x ≠ y := by
  obtain ⟨k, hk, rfl⟩ := h
  intro heq
  have hzero : (1 : UInt8) <<< UInt8.ofNat k = 0 := by
    have hx : x ^^^ x = x ^^^ (x ^^^ (1 <<< UInt8.ofNat k)) := congrArg (x ^^^ ·) heq
    rw [← UInt8.xor_assoc, UInt8.xor_self, UInt8.zero_xor] at hx
    exact hx.symm
  have hbit : ∀ k < 8, (1 : UInt8) <<< UInt8.ofNat k ≠ 0 := by decide
  exact hbit k hk hzero

/-- What a power loss may leave of the unsynced bytes `p`: a prefix of them in which at
most one bit is flipped. -/
inductive Torn : Bytes → Bytes → Prop where
  /-- The rest is lost. -/
  | lost (p : Bytes) : Torn p []
  /-- The next byte survives. -/
  | keep (b : UInt8) {p q : Bytes} : Torn p q → Torn (b :: p) (b :: q)
  /-- The next byte takes the one flipped bit; a prefix of the rest survives intact. -/
  | flip {b b' : UInt8} (h : BitFlip b b') (p : Bytes) (n : ℕ) : Torn (b :: p) (b' :: p.take n)

theorem Torn.take (p : Bytes) (n : ℕ) : Torn p (p.take n) := by
  induction p generalizing n with
  | nil => rw [List.take_nil]; exact .lost []
  | cons b p ih =>
    cases n with
    | zero => exact .lost _
    | succ n => exact .keep b (ih n)

theorem Torn.refl (p : Bytes) : Torn p p := by
  simpa using Torn.take p p.length

@[simp] theorem torn_nil {q : Bytes} : Torn [] q ↔ q = [] :=
  ⟨fun h => by cases h; rfl, fun h => h ▸ .lost []⟩

/-- Damage to a prefix is damage to the whole. -/
theorem Torn.append_right {p q : Bytes} (h : Torn p q) (r : Bytes) : Torn (p ++ r) q := by
  induction h with
  | lost p => exact .lost _
  | keep b _ ih => exact .keep b ih
  | @flip b b' hflip p n =>
    have htake : p.take n = (p ++ r).take (min n p.length) := by
      rw [List.take_append_of_le_length (Nat.min_le_right ..), ← List.take_eq_take_min]
    rw [htake]
    exact .flip hflip (p ++ r) _

/-- Damage behind bytes that stay. -/
theorem Torn.append_left {p q : Bytes} (h : Torn p q) (a : Bytes) : Torn (a ++ p) (a ++ q) := by
  induction a with
  | nil => exact h
  | cons b a ih => exact .keep b ih

/-- Where the leading bytes stayed, the damage is behind them. -/
theorem Torn.cancel_left {a p q : Bytes} (h : Torn (a ++ p) (a ++ q)) : Torn p q := by
  induction a with
  | nil => exact h
  | cons b a ih =>
    generalize hq : b :: a ++ q = r at h
    cases h with
    | lost => cases hq
    | keep _ hrest =>
      rw [← (List.cons.inj hq).2] at hrest
      exact ih hrest
    | flip hflip _ n => exact absurd (List.cons.inj hq).1 hflip.ne

theorem Torn.of_prefix {p q : Bytes} (h : q <+: p) : Torn p q := by
  obtain ⟨r, rfl⟩ := h
  exact (Torn.refl q).append_right r

/-- **Blocks under damage**: the leading block survives whole, or is cut short, or has
exactly one byte changed. -/
theorem Torn.block {a b q : Bytes} (h : Torn (a ++ b) q) :
    (∃ q', q = a ++ q' ∧ Torn b q') ∨ q.length < a.length ∨
      ∃ a' q', q = a' ++ q' ∧ OneByte a a' := by
  induction a generalizing q with
  | nil => exact Or.inl ⟨q, rfl, h⟩
  | cons c a ih =>
    cases h with
    | lost => exact Or.inr (Or.inl (by simp))
    | keep _ hrest =>
      rcases ih hrest with ⟨q', rfl, hq'⟩ | hshort | ⟨a', q', rfl, hone⟩
      · exact Or.inl ⟨q', rfl, hq'⟩
      · exact Or.inr (Or.inl (by simpa using hshort))
      · exact Or.inr (Or.inr ⟨c :: a', q', rfl, hone.cons c⟩)
    | flip hflip _ n =>
      rename_i c'
      by_cases hn : a.length ≤ n
      · refine Or.inr (Or.inr ⟨c' :: a, b.take (n - a.length), ?_, [], c, c', a, rfl, rfl, hflip.ne⟩)
        show c' :: (a ++ b).take n = _
        rw [List.take_append, List.take_of_length_le hn]
        rfl
      · refine Or.inr (Or.inl ?_)
        rw [List.length_cons, List.length_cons, List.length_take]
        omega

end Ticktape.Lib
