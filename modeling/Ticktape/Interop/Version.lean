import Ticktape.Interop.Message

/-!
# Versions of a message

A schema grows: a later version of a message has the fields of the one before it and more behind them. A reader of any
version makes of a later message what its own version has of it, and refuses an earlier one.
-/

namespace Ticktape.Interop

open Ticktape.Lib Ticktape.Core

/-- **A schema that grows.** -/
class Schema (V : ℕ → Type) [∀ i, SbeMessage (V i)] where
  lawful (i : ℕ) : LawfulMessage (V i)
  templateId (i : ℕ) : SbeMessage.TEMPLATE_ID (V (i + 1)) = SbeMessage.TEMPLATE_ID (V i)
  schemaId (i : ℕ) : SbeMessage.SCHEMA_ID (V (i + 1)) = SbeMessage.SCHEMA_ID (V i)
  /-- What the version before has of a message. -/
  forget {i : ℕ} : V (i + 1) → V i
  /-- The fields that it does not have. -/
  added {i : ℕ} : V (i + 1) → Bytes
  block {i : ℕ} (msg : V (i + 1)) : encodeBlock msg = encodeBlock (forget msg) ++ added msg

attribute [instance] Schema.lawful

/-- Version `k` has fields that no earlier version has. -/
def Grown (V : ℕ → Type) [∀ i, SbeMessage (V i)] (k : ℕ) : Prop :=
  ∀ i < k, (SbeMessage.BLOCK_LENGTH (V i)).toNat < (SbeMessage.BLOCK_LENGTH (V k)).toNat

/-- What a reader of version `k` has of a message of version `i`. -/
def seen {V : ℕ → Type} [∀ i, SbeMessage (V i)] [Schema V] (k : ℕ) : (i : ℕ) → V i → Option (V k)
  | 0, msg => if h : 0 = k then some (h ▸ msg) else none
  | i + 1, msg => if h : i + 1 = k then some (h ▸ msg) else seen k i (Schema.forget msg)

/-- A message of some version, as its writer puts it on the wire. -/
def wire {V : ℕ → Type} [∀ i, SbeMessage (V i)] (x : Σ i, V i) : Bytes := encodeMessage x.2

/-! ## An order that gets a quantity -/

/-- An order of a block of eight bytes. -/
structure Order where
  id : UInt64
  deriving DecidableEq, Repr

/-- The next version appends a field. -/
structure SizedOrder extends Order where
  qty : UInt32
  deriving DecidableEq, Repr

instance : SbeMessage Order where
  TEMPLATE_ID := 1
  SCHEMA_ID := 91
  SCHEMA_VERSION := 0
  BLOCK_LENGTH := 8
  encodeBlock order := leBytes 8 order.id.toNat
  decodeBlock block := .ok ⟨UInt64.ofNat (leNat block)⟩

instance : SbeMessage SizedOrder where
  TEMPLATE_ID := 1
  SCHEMA_ID := 91
  SCHEMA_VERSION := 1
  BLOCK_LENGTH := 12
  encodeBlock order := leBytes 8 order.id.toNat ++ leBytes 4 order.qty.toNat
  decodeBlock block := .ok ⟨⟨UInt64.ofNat (leNat (block.take 8))⟩, UInt32.ofNat (leNat (block.drop 8))⟩

instance : LawfulMessage Order where
  length order := leBytes_length 8 _
  decode_encode order := by
    have hid : order.id.toNat < 256 ^ 8 := order.id.toNat_lt
    simp only [encodeBlock, decodeBlock, leNat_leBytes_of_lt hid, UInt64.ofNat_toNat]

instance : LawfulMessage SizedOrder where
  length order := by
    simp only [encodeBlock, List.length_append, leBytes_length]
    rfl
  decode_encode order := by
    have hid : order.id.toNat < 256 ^ 8 := order.id.toNat_lt
    have hqty : order.qty.toNat < 256 ^ 4 := order.qty.toNat_lt
    simp only [encodeBlock, decodeBlock, List.take_left' (leBytes_length 8 _), List.drop_left' (leBytes_length 8 _),
      leNat_leBytes_of_lt hid, leNat_leBytes_of_lt hqty, UInt64.ofNat_toNat, UInt32.ofNat_toNat]

/-- Its versions; nothing is appended after the second. -/
def OrderAt : ℕ → Type
  | 0 => Order
  | _ + 1 => SizedOrder

instance : ∀ i, SbeMessage (OrderAt i)
  | 0 => inferInstanceAs (SbeMessage Order)
  | _ + 1 => inferInstanceAs (SbeMessage SizedOrder)

instance : Schema OrderAt where
  lawful i := match i with
    | 0 => inferInstanceAs (LawfulMessage Order)
    | _ + 1 => inferInstanceAs (LawfulMessage SizedOrder)
  templateId i := match i with
    | 0 => rfl
    | _ + 1 => rfl
  schemaId i := match i with
    | 0 => rfl
    | _ + 1 => rfl
  forget {i} msg := match i with
    | 0 => SizedOrder.toOrder msg
    | _ + 1 => msg
  added {i} msg := match i with
    | 0 => leBytes 4 (SizedOrder.qty msg).toNat
    | _ + 1 => []
  block {i} _ := match i with
    | 0 => rfl
    | _ + 1 => (List.append_nil _).symm

theorem grown_orderAt : Grown OrderAt 1 := by
  intro i hi
  obtain rfl : i = 0 := by omega
  decide

/-- One order of each version. -/
def mixedOrders : List (Σ i, OrderAt i) := [⟨1, (⟨⟨8⟩, 3⟩ : SizedOrder)⟩, ⟨0, (⟨7⟩ : Order)⟩]

section Versions

variable {V : ℕ → Type} [∀ i, SbeMessage (V i)] [Schema V] {i j k : ℕ}

@[simp] theorem seen_self (msg : V k) : seen k k msg = some msg := by
  cases k with
  | zero => simp [seen]
  | succ k => simp [seen]

theorem seen_later (h : k ≤ i) (msg : V (i + 1)) : seen k (i + 1) msg = seen k i (Schema.forget msg) := by
  rw [seen, dif_neg (by omega)]

theorem seen_earlier (h : i < k) (msg : V i) : seen k i msg = none := by
  induction i with
  | zero => rw [seen, dif_neg (by omega)]
  | succ i ih => rw [seen, dif_neg (by omega), ih (by omega)]

/-- **A later block starts with what an earlier reader knows.** -/
theorem seen_block (h : k ≤ i) (msg : V i) :
    ∃ known rest, seen k i msg = some known ∧ encodeBlock msg = encodeBlock known ++ rest := by
  induction i, h using Nat.le_induction with
  | base => exact ⟨msg, [], seen_self msg, (List.append_nil _).symm⟩
  | succ i hle ih =>
    obtain ⟨known, rest, hseen, hblock⟩ := ih (Schema.forget msg)
    refine ⟨known, rest ++ Schema.added msg, ?_, ?_⟩
    · rw [seen_later hle, hseen]
    · rw [Schema.block, hblock, List.append_assoc]

/-- Reading through a version in between makes no difference. -/
theorem seen_through {known : V j} {msg : V i} (hkj : k ≤ j) (h : seen j i msg = some known) :
    seen k i msg = seen k j known := by
  induction i with
  | zero =>
    by_cases hj : 0 = j
    · subst hj
      rw [seen_self, Option.some.injEq] at h
      rw [h]
    · rw [seen, dif_neg hj] at h
      cases h
  | succ i ih =>
    by_cases hj : i + 1 = j
    · subst hj
      rw [seen_self, Option.some.injEq] at h
      rw [h]
    · rw [seen, dif_neg hj] at h
      have hji : j ≤ i := by
        by_contra hlt
        rw [seen_earlier (by omega)] at h
        cases h
      rw [seen_later (by omega)]
      exact ih h

theorem templateId_eq (i : ℕ) : SbeMessage.TEMPLATE_ID (V i) = SbeMessage.TEMPLATE_ID (V 0) := by
  induction i with
  | zero => rfl
  | succ i ih => rw [Schema.templateId, ih]

theorem schemaId_eq (i : ℕ) : SbeMessage.SCHEMA_ID (V i) = SbeMessage.SCHEMA_ID (V 0) := by
  induction i with
  | zero => rfl
  | succ i ih => rw [Schema.schemaId, ih]

theorem seen_isSome_iff {msg : V i} : (∃ known, seen k i msg = some known) ↔ k ≤ i := by
  constructor
  · rintro ⟨known, hseen⟩
    by_contra hlt
    rw [seen_earlier (by omega)] at hseen
    cases hseen
  · intro hle
    obtain ⟨known, -, hseen, -⟩ := seen_block hle msg
    exact ⟨known, hseen⟩

variable {x : Σ i, V i} {known : V k} {rest : Bytes}

theorem header_ids (i k : ℕ) : (header (V i)).templateId = SbeMessage.TEMPLATE_ID (V k) ∧
    (header (V i)).schemaId = SbeMessage.SCHEMA_ID (V k) :=
  ⟨(templateId_eq i).trans (templateId_eq k).symm, (schemaId_eq i).trans (schemaId_eq k).symm⟩

/-- **A later message** reads as what the reader's version has of it, and is consumed whole. -/
theorem decode_seen (hseen : seen k x.1 x.2 = some known) :
    (decode (wire x ++ rest) : Except CodecError (Sbe (V k) × Bytes)) = .ok (⟨known⟩, rest) := by
  obtain ⟨i, msg⟩ := x
  obtain ⟨htemplate, hschema⟩ := header_ids (V := V) i k
  obtain ⟨known', added, hseen', hblock⟩ := seen_block (seen_isSome_iff.mp ⟨known, hseen⟩) msg
  obtain rfl := Option.some.inj (hseen.symm.trans hseen')
  -- the writer's block starts with the fields that the reader knows
  have hlen : (encodeBlock known ++ added).length = (header (V i)).blockLength.toNat := by
    rw [← hblock]
    exact LawfulMessage.length msg
  have hconsumed : ((header (V i)).write ++ (encodeBlock known ++ added ++ rest)).drop
      (HEADER_LEN + (header (V i)).blockLength.toNat) = rest := by
    rw [← List.append_assoc]
    apply List.drop_left'
    rw [List.length_append, SbeHeader.write_length, hlen]
  simp only [decode, wire, encodeMessage, List.append_assoc (header (V i)).write, hblock,
    decodeMessage_longer hlen htemplate hschema, hconsumed]

/-- **An earlier message** is refused. -/
theorem decode_unseen (hgrown : Grown V k) (hseen : seen k x.1 x.2 = none) :
    (decode (wire x ++ rest) : Except CodecError (Sbe (V k) × Bytes)) =
      .error (.invalidValue "SBE block shorter than schema") := by
  obtain ⟨i, msg⟩ := x
  obtain ⟨htemplate, hschema⟩ := header_ids (V := V) i k
  have hlt : i < k := by
    by_contra hle
    have hknown : ∃ known, seen k i msg = some known := seen_isSome_iff.mpr (Nat.not_lt.mp hle)
    rw [hseen] at hknown
    obtain ⟨known, hsome⟩ := hknown
    cases hsome
  have hlen : (encodeBlock msg).length = (header (V i)).blockLength.toNat := LawfulMessage.length msg
  have hshort : (encodeBlock msg).length < (SbeMessage.BLOCK_LENGTH (V k)).toNat := by
    rw [LawfulMessage.length msg]
    exact hgrown i hlt
  simp only [decode, wire, encodeMessage, List.append_assoc, decodeMessage_shorter hlen htemplate hschema hshort]

/-- **A vector of messages of mixed versions** reads, each as what the reader's version has of it, exactly if none is of
an earlier version; the bytes behind it are left. -/
theorem reads_mixed (hgrown : Grown V k) (xs : List (Σ i, V i)) (rest : Bytes) :
    (decodeItems xs.length (xs.flatMap wire ++ rest) : Except CodecError (List (Sbe (V k)) × Bytes)) =
      match xs.mapM fun x => seen k x.1 x.2 with
      | some msgs => .ok (msgs.map Sbe.mk, rest)
      | none => .error (.invalidValue "SBE block shorter than schema") := by
  induction xs with
  | nil => rfl
  | cons x xs ih =>
    rw [List.flatMap_cons, List.append_assoc, List.length_cons, decodeItems, List.mapM_cons]
    cases hseen : seen k x.1 x.2 with
    | none =>
      rw [decode_unseen hgrown hseen]
      rfl
    | some msg =>
      rw [decode_seen hseen]
      simp only [ih]
      cases xs.mapM fun x => seen k x.1 x.2 with
      | none => rfl
      | some msgs => rfl

/-- The first version reads both, the second only its own. -/
theorem reads_mixed_of_orders :
    (decodeItems mixedOrders.length (mixedOrders.flatMap wire ++ [255]) :
      Except CodecError (List (Sbe (OrderAt 0)) × Bytes)) = .ok ([⟨(⟨8⟩ : Order)⟩, ⟨(⟨7⟩ : Order)⟩], [255]) ∧
    (decodeItems mixedOrders.length (mixedOrders.flatMap wire ++ [255]) :
      Except CodecError (List (Sbe (OrderAt 1)) × Bytes)) = .error (.invalidValue "SBE block shorter than schema") := by
  constructor
  · exact reads_mixed (fun i hi => absurd hi (Nat.not_lt_zero i)) mixedOrders [255]
  · exact reads_mixed grown_orderAt mixedOrders [255]

end Versions

end Ticktape.Interop
