import Mathlib.Order.WellFounded
import Ticktape.Core.Codec
import Ticktape.Lib.Cursor

/-!
# The types that have a codec

Every type with `Encode` and `Decode` instances is built from the primitives of
`ticktape-core/src/codec.rs` by vectors, options and tuples, and by the structs and enums that
derive the two traits (`ticktape-macros/src/lib.rs`). Here these types are data, `Ty`, and
their values are trees, `Val`, so that what the trait implementations and the derive macro
generate for each of them is one recursive function on values, `Val.encode`, and one on
types, `Ty.decode`.

Derived types are looked up by name in a set of declarations and may be recursive, as they
are in Rust: a struct may hold a vector of itself. An instance of a generic type counts as a
name of its own.
-/

namespace Ticktape.Core

open Ticktape.Lib

/-- The primitive integer types. -/
inductive IntTy where
  | u8 | u16 | u32 | u64 | u128 | i8 | i16 | i32 | i64 | i128
  deriving DecidableEq, Repr

/-- `core::mem::size_of`. -/
@[reducible] def IntTy.size : IntTy → ℕ
  | .u8 | .i8 => 1
  | .u16 | .i16 => 2
  | .u32 | .i32 => 4
  | .u64 | .i64 => 8
  | .u128 | .i128 => 16

/-- The types that can be encoded, over the names `N` of the derived ones. -/
inductive Ty (N : Type) where
  | int (k : IntTy)
  | bool
  | unit
  | string
  | seq
  | timestamp
  | vec (t : Ty N)
  | option (t : Ty N)
  | tuple (ts : List (Ty N))
  | named (n : N)

/-- A struct or an enum with `#[derive(Encode, Decode)]`: its fields, or the fields of each
of its variants, in declaration order. -/
inductive Decl (N : Type) where
  | struct (fields : List (Ty N))
  | enum (variants : List (List (Ty N)))

/-- All fields of a declaration. -/
def Decl.fields {N : Type} : Decl N → List (Ty N)
  | .struct ts => ts
  | .enum variants => variants.flatten

/-- A value of the second type holds one of the first in place, not behind a vector. -/
inductive Inline {N : Type} (decl : N → Decl N) : Ty N → Ty N → Prop
  | option (t : Ty N) : Inline decl t (.option t)
  | tuple {t : Ty N} {ts : List (Ty N)} (h : t ∈ ts) : Inline decl t (.tuple ts)
  | named {t : Ty N} {n : N} (h : t ∈ (decl n).fields) : Inline decl t (.named n)

/-- The derived types in scope. The macro refuses an enum with more than `u16::MAX` variants,
the compiler a type that holds itself in place. -/
structure Decls (N : Type) where
  decl : N → Decl N
  variant_count_check : ∀ n variants, decl n = .enum variants → variants.length ≤ 65535
  finite_size : WellFounded (Inline decl)

mutual

/-- How deep a type nests in place, given how deep the derived ones do. -/
def Ty.height {N : Type} (rank : N → ℕ) : Ty N → ℕ
  | .option t => t.height rank + 1
  | .tuple ts => Ty.heightEach rank ts + 1
  | .named n => rank n
  | _ => 0

/-- The highest of a list of types. -/
def Ty.heightEach {N : Type} (rank : N → ℕ) : List (Ty N) → ℕ
  | [] => 0
  | t :: ts => max (t.height rank) (Ty.heightEach rank ts)

end

theorem Ty.height_le {N : Type} {rank : N → ℕ} {t : Ty N} {ts : List (Ty N)} (h : t ∈ ts) :
    t.height rank ≤ Ty.heightEach rank ts := by
  induction ts with
  | nil => simp at h
  | cons u ts ih =>
    rw [Ty.heightEach]
    cases List.mem_cons.mp h with
    | inl heq => exact heq ▸ le_max_left _ _
    | inr hmem => exact (ih hmem).trans (le_max_right _ _)

/-- Declarations have finite size when each of them can be ranked above its fields. -/
theorem finite_size_of_rank {N : Type} {decl : N → Decl N} (rank : N → ℕ)
    (h : ∀ n, ∀ t ∈ (decl n).fields, t.height rank < rank n) : WellFounded (Inline decl) := by
  have hsub : ∀ {t u : Ty N}, Inline decl t u → t.height rank < u.height rank := by
    intro t u htu
    cases htu with
    | option => simp [Ty.height]
    | tuple ht => exact Nat.lt_succ_of_le (Ty.height_le ht)
    | named ht => exact h _ _ ht
  exact Subrelation.wf hsub (InvImage.wf (Ty.height rank) Nat.lt_wfRel.wf)

/-- Values. An integer is its bit pattern: the signed types are in two's complement. An enum's
variant is its declaration index. -/
inductive Val where
  | int (k : IntTy) (bits : BitVec (8 * k.size))
  | bool (b : Bool)
  | unit
  | string (s : String)
  | seq (n : UInt64)
  | timestamp (n : UInt64)
  | vec (vs : List Val)
  | none
  | some (v : Val)
  | tuple (vs : List Val)
  | struct (vs : List Val)
  | enum (variant : ℕ) (vs : List Val)

/-- The values of a type. -/
inductive HasType {N : Type} (D : Decls N) : Ty N → Val → Prop
  | int (k : IntTy) (bits : BitVec (8 * k.size)) : HasType D (.int k) (.int k bits)
  | bool (b : Bool) : HasType D .bool (.bool b)
  | unit : HasType D .unit .unit
  | string (s : String) : HasType D .string (.string s)
  | seq (n : UInt64) : HasType D .seq (.seq n)
  | timestamp (n : UInt64) : HasType D .timestamp (.timestamp n)
  | vec {t : Ty N} {vs : List Val} (h : ∀ v ∈ vs, HasType D t v) : HasType D (.vec t) (.vec vs)
  | none (t : Ty N) : HasType D (.option t) .none
  | some {t : Ty N} {v : Val} (h : HasType D t v) : HasType D (.option t) (.some v)
  | tuple {ts : List (Ty N)} {vs : List Val} (h : List.Forall₂ (HasType D) ts vs) :
      HasType D (.tuple ts) (.tuple vs)
  | struct {n : N} {ts : List (Ty N)} {vs : List Val} (hn : D.decl n = .struct ts)
      (h : List.Forall₂ (HasType D) ts vs) : HasType D (.named n) (.struct vs)
  | enum {n : N} {variants : List (List (Ty N))} {i : ℕ} {ts : List (Ty N)} {vs : List Val}
      (hn : D.decl n = .enum variants) (hi : variants[i]? = Option.some ts)
      (h : List.Forall₂ (HasType D) ts vs) : HasType D (.named n) (.enum i vs)

/-! ## Encoding -/

/-- `to_le_bytes`, appended. -/
def encodeInt (k : IntTy) (bits : BitVec (8 * k.size)) (out : Bytes) : Bytes :=
  out ++ leBytes k.size bits.toNat

/-- The length of a collection, truncated to `u32`. -/
def encodeLen (len : ℕ) (out : Bytes) : Bytes := encodeInt .u32 (BitVec.ofNat 32 len) out

/-- `String::as_bytes`. -/
def asBytes (s : String) : Bytes := s.toByteArray.data.toList

mutual

/-- `Encode::encode`: append a value's canonical bytes. -/
def Val.encode : Val → Bytes → Bytes
  | .int k bits, out => encodeInt k bits out
  | .bool b, out => out ++ [if b then 1 else 0]
  | .unit, out => out
  | .string s, out => encodeLen (asBytes s).length out ++ asBytes s
  | .seq n, out => encodeInt .u64 n.toBitVec out
  | .timestamp n, out => encodeInt .u64 n.toBitVec out
  | .vec vs, out => Val.encodeEach vs (encodeLen vs.length out)
  | .none, out => out ++ [0]
  | .some v, out => v.encode (out ++ [1])
  | .tuple vs, out => Val.encodeEach vs out
  | .struct vs, out => Val.encodeEach vs out
  | .enum variant vs, out => Val.encodeEach vs (encodeInt .u16 (BitVec.ofNat 16 variant) out)

/-- Encode the elements of a vector or the fields of a value, in order. -/
def Val.encodeEach : List Val → Bytes → Bytes
  | [], out => out
  | v :: vs, out => Val.encodeEach vs (v.encode out)

end

mutual

/-- `Encode::encoded_len`. -/
def Val.encodedLen : Val → ℕ
  | .int k _ => k.size
  | .bool _ => 1
  | .unit => 0
  | .string s => 4 + (asBytes s).length
  | .seq _ => 8
  | .timestamp _ => 8
  | .vec vs => 4 + Val.encodedLenEach vs
  | .none => 1
  | .some v => 1 + v.encodedLen
  | .tuple vs => Val.encodedLenEach vs
  | .struct vs => Val.encodedLenEach vs
  | .enum _ vs => 2 + Val.encodedLenEach vs

/-- The lengths of the elements or fields, added up. -/
def Val.encodedLenEach : List Val → ℕ
  | [] => 0
  | v :: vs => v.encodedLen + Val.encodedLenEach vs

end

/-- Encode a value into a fresh buffer. -/
def encodeToVec (v : Val) : Bytes := v.encode []

/-! ## Decoding -/

/-- Decoders of the canonical bytes. -/
abbrev Decoder (α : Type) := Cursor UInt8 CodecError α

/-- Take the first `n` bytes. -/
def takeBytes (n : ℕ) : Decoder Bytes := fun buf => some (take buf n)

/-- `from_le_bytes` of the next `size_of` bytes. -/
def decodeInt (k : IntTy) : Decoder (BitVec (8 * k.size)) := do
  let bytes ← takeBytes k.size
  pure (BitVec.ofNat _ (leNat bytes))

/-- A length prefix. -/
def decodeLen : Decoder ℕ := do
  let len ← decodeInt .u32
  pure len.toNat

/-- `String::from_utf8` of a length-prefixed block. -/
def decodeString : Decoder String := do
  let len ← decodeLen
  let bytes ← takeBytes len
  match String.fromUTF8? bytes.toByteArray with
  | some s => pure s
  | none => Cursor.fail .invalidUtf8

/-- `Decode::decode` at each type. The fuel bounds the depth of the value. -/
def Ty.decode {N : Type} (D : Decls N) : ℕ → Ty N → Decoder Val
  | 0, _ => Cursor.starve
  | _ + 1, .int k => do
    let bits ← decodeInt k
    pure (.int k bits)
  | _ + 1, .bool => do
    let tag ← decodeInt .u8
    if tag = 0 then pure (.bool false)
    else if tag = 1 then pure (.bool true)
    else Cursor.fail (.invalidValue "bool tag")
  | _ + 1, .unit => pure .unit
  | _ + 1, .string => do
    let s ← decodeString
    pure (.string s)
  | _ + 1, .seq => do
    let bits ← decodeInt .u64
    pure (.seq (UInt64.ofBitVec bits))
  | _ + 1, .timestamp => do
    let bits ← decodeInt .u64
    pure (.timestamp (UInt64.ofBitVec bits))
  | fuel + 1, .vec t => do
    let len ← decodeLen
    let vs ← Cursor.items (Ty.decode D fuel t) len
    pure (.vec vs)
  | fuel + 1, .option t => do
    let tag ← decodeInt .u8
    if tag = 0 then pure .none
    else if tag = 1 then do
      let v ← Ty.decode D fuel t
      pure (.some v)
    else Cursor.fail (.invalidValue "Option tag")
  | fuel + 1, .tuple ts => do
    let vs ← Cursor.fields (Ty.decode D fuel) ts
    pure (.tuple vs)
  | fuel + 1, .named n =>
    match D.decl n with
    | .struct ts => do
      let vs ← Cursor.fields (Ty.decode D fuel) ts
      pure (.struct vs)
    | .enum variants => do
      let discriminant ← decodeInt .u16
      match variants[discriminant.toNat]? with
      | some ts => do
        let vs ← Cursor.fields (Ty.decode D fuel) ts
        pure (.enum discriminant.toNat vs)
      | none => Cursor.fail (.invalidValue "enum discriminant")

/-- Decode a value that must consume the entire buffer. -/
def Ty.decodeAll {N : Type} (D : Decls N) (fuel : ℕ) (t : Ty N) (buf : Bytes) :
    Option (Except CodecError Val) :=
  match Ty.decode D fuel t buf with
  | none => none
  | some (.error e) => some (.error e)
  | some (.ok (v, rest)) =>
    if rest = [] then some (.ok v) else some (.error (.trailingBytes rest.length))

/-! ## Values -/

/-- Induction on values: the ones a value holds come before it. -/
theorem Val.induction {P : Val → Prop} (int : ∀ k bits, P (.int k bits)) (bool : ∀ b, P (.bool b))
    (unit : P .unit) (string : ∀ s, P (.string s)) (seq : ∀ n, P (.seq n))
    (timestamp : ∀ n, P (.timestamp n)) (vec : ∀ vs, (∀ v ∈ vs, P v) → P (.vec vs))
    (none : P .none) (some : ∀ v, P v → P (.some v))
    (tuple : ∀ vs, (∀ v ∈ vs, P v) → P (.tuple vs))
    (struct : ∀ vs, (∀ v ∈ vs, P v) → P (.struct vs))
    (enum : ∀ i vs, (∀ v ∈ vs, P v) → P (.enum i vs)) (v : Val) : P v :=
  Val.rec int bool unit string seq timestamp vec none some tuple struct enum
    (fun _ h => absurd h List.not_mem_nil)
    (fun _ _ ha has v hv => (List.mem_cons.mp hv).elim (fun h => h ▸ ha) (has v)) v

/-- Encoding a row of values goes value by value, once each of them is known to append. -/
theorem encodeEach_eq {vs : List Val} (h : ∀ v ∈ vs, ∀ out, v.encode out = out ++ encodeToVec v)
    (out : Bytes) : Val.encodeEach vs out = out ++ vs.flatMap encodeToVec := by
  induction vs generalizing out with
  | nil => simp [Val.encodeEach]
  | cons v vs ih =>
    have hv : v.encode out = out ++ encodeToVec v := h v (by simp) out
    have hvs := ih (fun w hw => h w (by simp [hw])) (out ++ encodeToVec v)
    simp [Val.encodeEach, hv, hvs]

/-- Encoding appends to the buffer and does not look at it. -/
theorem encode_append (v : Val) : ∀ out, v.encode out = out ++ encodeToVec v := by
  induction v using Val.induction with
  | vec vs ih | tuple vs ih | struct vs ih | enum i vs ih =>
    intro out
    simp [encodeToVec, Val.encode, encodeEach_eq ih, encodeLen, encodeInt]
  | some v ih =>
    intro out
    simp [encodeToVec, Val.encode, ih (out ++ [1]), ih [1]]
  | int k bits => simp [encodeToVec, Val.encode, encodeInt]
  | bool b => simp [encodeToVec, Val.encode]
  | unit => simp [encodeToVec, Val.encode]
  | string s => simp [encodeToVec, Val.encode, encodeLen, encodeInt]
  | seq n => simp [encodeToVec, Val.encode, encodeInt]
  | timestamp n => simp [encodeToVec, Val.encode, encodeInt]
  | none => simp [encodeToVec, Val.encode]

/-! The bytes of each kind of value. -/

/-- The bytes of a length prefix: the length, if a `u32` can hold it. -/
def lenBytes (len : ℕ) : Bytes := leBytes 4 (BitVec.ofNat 32 len).toNat

@[simp] theorem encodeToVec_int (k : IntTy) (bits : BitVec (8 * k.size)) :
    encodeToVec (.int k bits) = leBytes k.size bits.toNat := rfl

@[simp] theorem encodeToVec_bool (b : Bool) : encodeToVec (.bool b) = [if b then 1 else 0] := rfl

@[simp] theorem encodeToVec_unit : encodeToVec .unit = [] := rfl

@[simp] theorem encodeToVec_string (s : String) :
    encodeToVec (.string s) = lenBytes (asBytes s).length ++ asBytes s := rfl

@[simp] theorem encodeToVec_seq (n : UInt64) : encodeToVec (.seq n) = leBytes 8 n.toNat := rfl

@[simp] theorem encodeToVec_timestamp (n : UInt64) :
    encodeToVec (.timestamp n) = leBytes 8 n.toNat := rfl

@[simp] theorem encodeToVec_vec (vs : List Val) :
    encodeToVec (.vec vs) = lenBytes vs.length ++ vs.flatMap encodeToVec :=
  encodeEach_eq (fun v _ => encode_append v) _

@[simp] theorem encodeToVec_none : encodeToVec .none = [0] := rfl

@[simp] theorem encodeToVec_some (v : Val) : encodeToVec (.some v) = 1 :: encodeToVec v :=
  encode_append v [1]

@[simp] theorem encodeToVec_tuple (vs : List Val) :
    encodeToVec (.tuple vs) = vs.flatMap encodeToVec :=
  encodeEach_eq (fun v _ => encode_append v) []

@[simp] theorem encodeToVec_struct (vs : List Val) :
    encodeToVec (.struct vs) = vs.flatMap encodeToVec :=
  encodeEach_eq (fun v _ => encode_append v) []

@[simp] theorem encodeToVec_enum (i : ℕ) (vs : List Val) :
    encodeToVec (.enum i vs)
      = leBytes 2 (BitVec.ofNat 16 i).toNat ++ vs.flatMap encodeToVec :=
  encodeEach_eq (fun v _ => encode_append v) _

theorem encodedLenEach_eq {vs : List Val} (h : ∀ v ∈ vs, (encodeToVec v).length = v.encodedLen) :
    Val.encodedLenEach vs = (vs.flatMap encodeToVec).length := by
  induction vs with
  | nil => rfl
  | cons v vs ih =>
    have hvs := ih fun w hw => h w (by simp [hw])
    simp [Val.encodedLenEach, hvs, h v]

/-- The buffer grows by what `encoded_len` says. -/
theorem length_encodeToVec (v : Val) : (encodeToVec v).length = v.encodedLen := by
  induction v using Val.induction with
  | vec vs ih | tuple vs ih | struct vs ih | enum i vs ih =>
    simp [Val.encodedLen, encodedLenEach_eq ih, lenBytes]
  | some v ih => simp [Val.encodedLen, ih, Nat.add_comm]
  | int k bits => simp [Val.encodedLen]
  | bool b => simp [Val.encodedLen]
  | unit => simp [Val.encodedLen]
  | string s => simp [Val.encodedLen, lenBytes]
  | seq n => simp [Val.encodedLen]
  | timestamp n => simp [Val.encodedLen]
  | none => simp [Val.encodedLen]

mutual

/-- Every string and vector in the value has at most `u32::MAX` elements. -/
def Val.Fits : Val → Prop
  | .string s => (asBytes s).length < 2 ^ 32
  | .vec vs => vs.length < 2 ^ 32 ∧ Val.FitsEach vs
  | .some v => v.Fits
  | .tuple vs => Val.FitsEach vs
  | .struct vs => Val.FitsEach vs
  | .enum _ vs => Val.FitsEach vs
  | _ => True

/-- The same for a row of values. -/
def Val.FitsEach : List Val → Prop
  | [] => True
  | v :: vs => v.Fits ∧ Val.FitsEach vs

end

theorem fitsEach_iff {vs : List Val} : Val.FitsEach vs ↔ ∀ v ∈ vs, v.Fits := by
  induction vs with
  | nil => simp [Val.FitsEach]
  | cons v vs ih => simp [Val.FitsEach, ih]

mutual

/-- How deep the value nests: the fuel its decoding needs. -/
def Val.depth : Val → ℕ
  | .vec vs => Val.depthEach vs + 1
  | .some v => v.depth + 1
  | .tuple vs => Val.depthEach vs + 1
  | .struct vs => Val.depthEach vs + 1
  | .enum _ vs => Val.depthEach vs + 1
  | _ => 1

/-- The deepest of a row of values. -/
def Val.depthEach : List Val → ℕ
  | [] => 0
  | v :: vs => max v.depth (Val.depthEach vs)

end

theorem depthEach_le {vs : List Val} {n : ℕ} : Val.depthEach vs ≤ n ↔ ∀ v ∈ vs, v.depth ≤ n := by
  induction vs with
  | nil => simp [Val.depthEach]
  | cons v vs ih => simp [Val.depthEach, ih]

end Ticktape.Core
