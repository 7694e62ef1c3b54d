import Ticktape.Core.Universe

/-!
# The codec is canonical

At every type the decoder is exact for the encoder: it accepts the bytes a value of the type
encodes to, whatever follows them, and no other bytes. Each type former has one small lemma
about the bytes it reads; the theorem for all types is an induction on the fuel that only
puts these together.

The fuel then goes away: it is never needed beyond the depth of the value read, and since a
type cannot hold itself in place, every input is answered with some amount of it.
-/

namespace Ticktape.Core

open Ticktape.Lib

/-! ## What the primitive decoders read -/

theorem reads_takeBytes {n : ℕ} {b bytes rest : Bytes} :
    (takeBytes n).Reads b bytes rest ↔ bytes.length = n ∧ b = bytes ++ rest := by
  simp only [Cursor.Reads, takeBytes, take, Option.some.injEq]
  constructor
  · intro h
    split at h
    · exact absurd h (by simp)
    · simp only [Except.ok.injEq, Prod.mk.injEq] at h
      obtain ⟨rfl, rfl⟩ := h
      constructor
      · rw [List.length_take]
        omega
      · exact (List.take_append_drop n b).symm
  · rintro ⟨rfl, rfl⟩
    simp

/-- An integer reads back from its little-endian bytes only. -/
theorem decodeInt_exact (k : IntTy) :
    (decodeInt k).Exact (fun bits => leBytes k.size bits.toNat) (fun _ => True) := by
  have hpow : 256 ^ k.size = 2 ^ (8 * k.size) := by
    rw [Nat.pow_mul]
  intro b bits rest
  simp only [decodeInt, Cursor.reads_bind, Cursor.reads_pure, reads_takeBytes, true_and]
  constructor
  · rintro ⟨bytes, mid, ⟨hlen, rfl⟩, rfl, rfl⟩
    have hlt : leNat bytes < 2 ^ (8 * k.size) := by
      rw [← hpow, ← hlen]
      exact leNat_lt bytes
    rw [BitVec.toNat_ofNat, Nat.mod_eq_of_lt hlt, ← hlen, leBytes_leNat]
  · rintro rfl
    have hlt : bits.toNat < 256 ^ k.size := by
      rw [hpow]
      exact bits.isLt
    refine ⟨leBytes k.size bits.toNat, rest, ⟨by simp, rfl⟩, ?_, rfl⟩
    rw [leNat_leBytes_of_lt hlt, BitVec.ofNat_toNat, BitVec.setWidth_eq]

/-- A one-byte tag. -/
theorem reads_tag {b rest : Bytes} {tag : BitVec 8} :
    (decodeInt .u8).Reads b tag rest ↔ b = UInt8.ofBitVec tag :: rest := by
  have h : leBytes 1 tag.toNat = [UInt8.ofBitVec tag] := by
    simp only [leBytes, List.cons.injEq, and_true]
    apply UInt8.toNat_inj.mp
    simp
  have hint := decodeInt_exact .u8 b tag rest
  rw [true_and] at hint
  exact hint.trans (iff_of_eq (congrArg (b = · ++ rest) h))

/-- A length prefix, as far as a `u32` counts. -/
theorem decodeLen_exact : decodeLen.Exact lenBytes (fun len => len < 2 ^ 32) := by
  have hwrite : ∀ bits : BitVec 32, lenBytes bits.toNat = leBytes 4 bits.toNat := by
    intro bits
    have h : (BitVec.ofNat 32 bits.toNat).toNat = bits.toNat := Nat.mod_eq_of_lt bits.isLt
    rw [lenBytes, h]
  apply (decodeInt_exact .u32).map BitVec.toNat hwrite
  intro len
  constructor
  · intro hlen
    exact ⟨BitVec.ofNat 32 len, trivial, (Nat.mod_eq_of_lt hlen).symm⟩
  · rintro ⟨bits, -, rfl⟩
    exact bits.isLt

/-- UTF-8 decoding is exact: the bytes of a string are its only encoding. -/
theorem fromUTF8?_eq_some {bytes : Bytes} {s : String} :
    String.fromUTF8? bytes.toByteArray = some s ↔ bytes = asBytes s := by
  unfold String.fromUTF8? asBytes
  constructor
  · intro h
    split at h
    · obtain rfl := Option.some.inj h
      exact List.toList_data_toByteArray.symm
    · cases h
  · rintro rfl
    have hs : s.toByteArray.data.toList.toByteArray = s.toByteArray := by
      apply ByteArray.ext
      apply Array.ext'
      exact List.toList_data_toByteArray
    rw [hs, dif_pos s.isValidUTF8]
    rfl

/-- A discriminant. -/
theorem reads_discriminant {b rest : Bytes} {disc : BitVec 16} :
    (decodeInt .u16).Reads b disc rest ↔ b = leBytes 2 disc.toNat ++ rest := by
  have h := decodeInt_exact .u16 b disc rest
  rwa [true_and] at h

theorem decodeString_exact :
    decodeString.Exact (fun s => lenBytes (asBytes s).length ++ asBytes s)
      (fun s => (asBytes s).length < 2 ^ 32) := by
  intro b s rest
  simp only [decodeString, Cursor.reads_bind, decodeLen_exact _ _ _, reads_takeBytes]
  constructor
  · rintro ⟨len, mid, ⟨hlen, rfl⟩, bytes, mid', ⟨hbytes, rfl⟩, hs⟩
    split at hs
    · next s' hs' =>
      obtain ⟨rfl, rfl⟩ := Cursor.reads_pure.mp hs
      obtain rfl := fromUTF8?_eq_some.mp hs'
      subst hbytes
      exact ⟨hlen, by simp⟩
    · exact absurd hs Cursor.reads_fail
  · rintro ⟨hlen, rfl⟩
    refine ⟨_, asBytes s ++ rest, ⟨hlen, by simp⟩, asBytes s, rest, ⟨rfl, rfl⟩, ?_⟩
    rw [fromUTF8?_eq_some.mpr rfl]
    simp

/-! ## Every type -/

/-- What decoding at a type with some fuel may return. -/
structure Readable {N : Type} (D : Decls N) (fuel : ℕ) (t : Ty N) (v : Val) : Prop where
  typed : HasType D t v
  fits : v.Fits
  depth : v.depth ≤ fuel

/-- The fields of a readable value, one by one. -/
theorem forall₂_readable {N : Type} {D : Decls N} {fuel : ℕ} {ts : List (Ty N)} {vs : List Val} :
    List.Forall₂ (Readable D fuel) ts vs ↔
      List.Forall₂ (HasType D) ts vs ∧ Val.FitsEach vs ∧ Val.depthEach vs ≤ fuel := by
  rw [fitsEach_iff, depthEach_le]
  constructor
  · intro h
    induction h with
    | nil => simp
    | cons hv _ ih =>
      obtain ⟨hts, hfits, hdepth⟩ := ih
      exact ⟨.cons hv.typed hts, by simp [hv.fits]; exact hfits, by simp [hv.depth]; exact hdepth⟩
  · rintro ⟨hts, hfits, hdepth⟩
    induction hts with
    | nil => exact .nil
    | cons hv _ ih =>
      simp only [List.mem_cons, forall_eq_or_imp] at hfits hdepth
      exact .cons ⟨hv, hfits.1, hdepth.1⟩ (ih hfits.2 hdepth.2)

section

variable {N : Type} {D : Decls N} {fuel : ℕ} {v : Val}

/-! What a readable value of each type is. -/

theorem readable_int {k : IntTy} :
    Readable D (fuel + 1) (.int k) v ↔ ∃ bits, True ∧ v = .int k bits := by
  constructor
  · rintro ⟨htyped, -, -⟩
    cases htyped with
    | int k bits => exact ⟨bits, trivial, rfl⟩
  · rintro ⟨bits, -, rfl⟩
    exact ⟨.int k bits, by simp [Val.Fits], by simp [Val.depth]⟩

theorem readable_bool : Readable D (fuel + 1) .bool v ↔ ∃ b, v = .bool b := by
  constructor
  · rintro ⟨htyped, -, -⟩
    cases htyped with
    | bool b => exact ⟨b, rfl⟩
  · rintro ⟨b, rfl⟩
    exact ⟨.bool b, by simp [Val.Fits], by simp [Val.depth]⟩

theorem readable_unit : Readable D (fuel + 1) .unit v ↔ v = .unit := by
  constructor
  · rintro ⟨⟨⟩, -, -⟩
    rfl
  · rintro rfl
    exact ⟨.unit, by simp [Val.Fits], by simp [Val.depth]⟩

theorem readable_string :
    Readable D (fuel + 1) .string v ↔ ∃ s, (asBytes s).length < 2 ^ 32 ∧ v = .string s := by
  constructor
  · rintro ⟨htyped, hfits, -⟩
    cases htyped with
    | string s => exact ⟨s, hfits, rfl⟩
  · rintro ⟨s, hfits, rfl⟩
    exact ⟨.string s, hfits, by simp [Val.depth]⟩

theorem readable_seq :
    Readable D (fuel + 1) .seq v ↔ ∃ bits : BitVec 64, True ∧ v = .seq (UInt64.ofBitVec bits) := by
  constructor
  · rintro ⟨htyped, -, -⟩
    cases htyped with
    | seq n => exact ⟨n.toBitVec, trivial, rfl⟩
  · rintro ⟨bits, -, rfl⟩
    exact ⟨.seq _, by simp [Val.Fits], by simp [Val.depth]⟩

theorem readable_timestamp :
    Readable D (fuel + 1) .timestamp v ↔
      ∃ bits : BitVec 64, True ∧ v = .timestamp (UInt64.ofBitVec bits) := by
  constructor
  · rintro ⟨htyped, -, -⟩
    cases htyped with
    | timestamp n => exact ⟨n.toBitVec, trivial, rfl⟩
  · rintro ⟨bits, -, rfl⟩
    exact ⟨.timestamp _, by simp [Val.Fits], by simp [Val.depth]⟩

theorem readable_vec {t : Ty N} :
    Readable D (fuel + 1) (.vec t) v ↔
      ∃ vs, vs.length < 2 ^ 32 ∧ (∀ w ∈ vs, Readable D fuel t w) ∧ v = .vec vs := by
  constructor
  · rintro ⟨htyped, hfits, hdepth⟩
    cases htyped with
    | vec hts =>
      have hfit := fitsEach_iff.mp hfits.2
      have hdeep := depthEach_le.mp (Nat.le_of_succ_le_succ hdepth)
      exact ⟨_, hfits.1, fun w hw => ⟨hts w hw, hfit w hw, hdeep w hw⟩, rfl⟩
  · rintro ⟨vs, hlen, hvs, rfl⟩
    have hfit := fitsEach_iff.mpr fun w hw => (hvs w hw).fits
    have hdeep := depthEach_le.mpr fun w hw => (hvs w hw).depth
    exact ⟨.vec fun w hw => (hvs w hw).typed, ⟨hlen, hfit⟩, Nat.succ_le_succ hdeep⟩

theorem readable_option {t : Ty N} :
    Readable D (fuel + 1) (.option t) v ↔ v = .none ∨ ∃ w, Readable D fuel t w ∧ v = .some w := by
  constructor
  · rintro ⟨htyped, hfits, hdepth⟩
    cases htyped with
    | none => exact .inl rfl
    | some hw => exact .inr ⟨_, ⟨hw, hfits, Nat.le_of_succ_le_succ hdepth⟩, rfl⟩
  · rintro (rfl | ⟨w, hw, rfl⟩)
    · exact ⟨.none t, by simp [Val.Fits], by simp [Val.depth]⟩
    · exact ⟨.some hw.typed, hw.fits, Nat.succ_le_succ hw.depth⟩

theorem readable_tuple {ts : List (Ty N)} :
    Readable D (fuel + 1) (.tuple ts) v ↔
      ∃ vs, List.Forall₂ (Readable D fuel) ts vs ∧ v = .tuple vs := by
  simp only [forall₂_readable]
  constructor
  · rintro ⟨htyped, hfits, hdepth⟩
    cases htyped with
    | tuple hts => exact ⟨_, ⟨hts, hfits, Nat.le_of_succ_le_succ hdepth⟩, rfl⟩
  · rintro ⟨vs, ⟨hts, hfits, hdepth⟩, rfl⟩
    exact ⟨.tuple hts, hfits, Nat.succ_le_succ hdepth⟩

theorem readable_struct {n : N} {ts : List (Ty N)} (hn : D.decl n = .struct ts) :
    Readable D (fuel + 1) (.named n) v ↔
      ∃ vs, List.Forall₂ (Readable D fuel) ts vs ∧ v = .struct vs := by
  simp only [forall₂_readable]
  constructor
  · rintro ⟨htyped, hfits, hdepth⟩
    cases htyped with
    | struct hn' hts =>
      obtain rfl : ts = _ := Decl.struct.inj (hn.symm.trans hn')
      exact ⟨_, ⟨hts, hfits, Nat.le_of_succ_le_succ hdepth⟩, rfl⟩
    | enum hn' => exact absurd (hn.symm.trans hn') (by simp)
  · rintro ⟨vs, ⟨hts, hfits, hdepth⟩, rfl⟩
    exact ⟨.struct hn hts, hfits, Nat.succ_le_succ hdepth⟩

theorem readable_enum {n : N} {variants : List (List (Ty N))} (hn : D.decl n = .enum variants) :
    Readable D (fuel + 1) (.named n) v ↔
      ∃ i ts vs, variants[i]? = some ts ∧ List.Forall₂ (Readable D fuel) ts vs ∧
        v = .enum i vs := by
  simp only [forall₂_readable]
  constructor
  · rintro ⟨htyped, hfits, hdepth⟩
    cases htyped with
    | struct hn' => exact absurd (hn.symm.trans hn') (by simp)
    | enum hn' hi hts =>
      obtain rfl : variants = _ := Decl.enum.inj (hn.symm.trans hn')
      exact ⟨_, _, _, hi, ⟨hts, hfits, Nat.le_of_succ_le_succ hdepth⟩, rfl⟩
  · rintro ⟨i, ts, vs, hi, ⟨hts, hfits, hdepth⟩, rfl⟩
    exact ⟨.enum hn hi hts, hfits, Nat.succ_le_succ hdepth⟩

/-- No value is decoded without fuel. -/
theorem not_readable_zero {t : Ty N} : ¬ Readable D 0 t v := by
  intro h
  have hdepth := h.depth
  cases v <;> simp [Val.depth] at hdepth

/-- **The decoder is exact at every type**: with a given fuel it accepts exactly the encodings
of the values of that type that fit and are no deeper than the fuel. -/
theorem decode_exact (fuel : ℕ) (t : Ty N) :
    (Ty.decode D fuel t).Exact encodeToVec (Readable D fuel t) := by
  induction fuel generalizing t with
  | zero =>
    intro b v rest
    simp only [Ty.decode, Cursor.reads_starve, not_readable_zero, false_and]
  | succ fuel ih =>
    have hfields := Cursor.Exact.fields (d := Ty.decode D fuel) ih
    cases t with
    | int k => exact (decodeInt_exact k).map _ (fun _ => rfl) fun _ => readable_int
    | seq => exact (decodeInt_exact .u64).map _ (fun _ => rfl) fun _ => readable_seq
    | timestamp => exact (decodeInt_exact .u64).map _ (fun _ => rfl) fun _ => readable_timestamp
    | string => exact decodeString_exact.map _ (fun _ => rfl) fun _ => readable_string
    | tuple ts => exact (hfields ts).map _ encodeToVec_tuple fun _ => readable_tuple
    | unit =>
      intro b v rest
      rw [readable_unit, Ty.decode, Cursor.reads_pure]
      constructor
      · rintro ⟨rfl, rfl⟩
        simp
      · rintro ⟨rfl, rfl⟩
        simp
    | bool =>
      intro b v rest
      simp only [readable_bool, Ty.decode, Cursor.reads_bind]
      constructor
      · rintro ⟨tag, mid, htag, h⟩
        obtain rfl := reads_tag.mp htag
        split at h
        · next h0 =>
          obtain ⟨rfl, rfl⟩ := Cursor.reads_pure.mp h
          exact ⟨⟨false, rfl⟩, by rw [h0]; rfl⟩
        split at h
        · next h1 =>
          obtain ⟨rfl, rfl⟩ := Cursor.reads_pure.mp h
          exact ⟨⟨true, rfl⟩, by rw [h1]; rfl⟩
        · exact absurd h Cursor.reads_fail
      · rintro ⟨⟨x, rfl⟩, rfl⟩
        cases x with
        | false => exact ⟨0, rest, reads_tag.mpr rfl, by simp⟩
        | true => exact ⟨1, rest, reads_tag.mpr rfl, by simp⟩
    | vec t =>
      intro b v rest
      simp only [readable_vec, Ty.decode, Cursor.reads_bind, Cursor.reads_pure,
        decodeLen_exact _ _ _, (ih t).items _ _ _ _]
      constructor
      · rintro ⟨len, mid, ⟨hlen, rfl⟩, vs, mid', ⟨⟨rfl, hvs⟩, rfl⟩, rfl, rfl⟩
        exact ⟨⟨vs, hlen, hvs, rfl⟩, by simp⟩
      · rintro ⟨⟨vs, hlen, hvs, rfl⟩, rfl⟩
        exact ⟨vs.length, vs.flatMap encodeToVec ++ rest, ⟨hlen, by simp⟩, vs, rest,
          ⟨⟨rfl, hvs⟩, rfl⟩, rfl, rfl⟩
    | option t =>
      intro b v rest
      simp only [readable_option, Ty.decode, Cursor.reads_bind]
      constructor
      · rintro ⟨tag, mid, htag, h⟩
        obtain rfl := reads_tag.mp htag
        split at h
        · next h0 =>
          obtain ⟨rfl, rfl⟩ := Cursor.reads_pure.mp h
          exact ⟨.inl rfl, by rw [h0]; rfl⟩
        split at h
        · next h1 =>
          simp only [Cursor.reads_bind, Cursor.reads_pure, ih t _ _ _] at h
          obtain ⟨w, mid', ⟨hw, rfl⟩, rfl, rfl⟩ := h
          exact ⟨.inr ⟨w, hw, rfl⟩, by rw [h1, encodeToVec_some]; rfl⟩
        · exact absurd h Cursor.reads_fail
      · rintro ⟨rfl | ⟨w, hw, rfl⟩, rfl⟩
        · exact ⟨0, rest, reads_tag.mpr rfl, by simp⟩
        · have hread := (ih t _ w rest).mpr ⟨hw, rfl⟩
          refine ⟨1, encodeToVec w ++ rest, reads_tag.mpr (by simp; rfl), ?_⟩
          simpa using hread
    | named n =>
      cases hn : D.decl n with
      | struct ts =>
        rw [Ty.decode, hn]
        exact (hfields ts).map _ encodeToVec_struct fun _ => readable_struct hn
      | enum variants =>
        intro b v rest
        simp only [readable_enum hn, Ty.decode, hn, Cursor.reads_bind]
        constructor
        · rintro ⟨disc, mid, hdisc, h⟩
          obtain rfl := reads_discriminant.mp hdisc
          split at h
          · next ts hi =>
            simp only [Cursor.reads_bind, Cursor.reads_pure, hfields ts _ _ _] at h
            obtain ⟨vs, mid', ⟨hvs, rfl⟩, rfl, rfl⟩ := h
            refine ⟨⟨disc.toNat, ts, vs, hi, hvs, rfl⟩, ?_⟩
            have hbits : (BitVec.ofNat 16 disc.toNat).toNat = disc.toNat :=
              Nat.mod_eq_of_lt disc.isLt
            rw [encodeToVec_enum, hbits, List.append_assoc]
          · exact absurd h Cursor.reads_fail
        · rintro ⟨⟨i, ts, vs, hi, hvs, rfl⟩, rfl⟩
          -- the macro's variant count check keeps the discriminant within a `u16`
          have hlt : i < 2 ^ 16 := by
            have hi' := (List.getElem?_eq_some_iff.mp hi).1
            have hcount := D.variant_count_check n variants hn
            omega
          have hbits : (BitVec.ofNat 16 i).toNat = i := Nat.mod_eq_of_lt hlt
          have hread := (hfields ts _ vs rest).mpr ⟨hvs, rfl⟩
          refine ⟨BitVec.ofNat 16 i, vs.flatMap encodeToVec ++ rest, ?_, ?_⟩
          · exact reads_discriminant.mpr (by rw [encodeToVec_enum, List.append_assoc])
          · simp only [hbits, hi, Cursor.reads_bind, Cursor.reads_pure]
            exact ⟨vs, rest, hread, rfl, rfl⟩

/-! ## Without fuel -/

/-- More fuel never changes an answer. -/
theorem decode_below {fuel fuel' : ℕ} (h : fuel ≤ fuel') (t : Ty N) :
    Cursor.Below (Ty.decode D fuel t) (Ty.decode D fuel' t) := by
  induction fuel generalizing fuel' t with
  | zero => exact Cursor.Below.starve _
  | succ fuel ih =>
    cases fuel' with
    | zero => exact absurd h (by simp)
    | succ fuel' =>
      have ih' := fun t => ih (Nat.le_of_succ_le_succ h) t
      cases t with
      | int | bool | unit | string | seq | timestamp => exact Cursor.Below.refl _
      | vec t =>
        apply (Cursor.Below.refl _).bind
        intro len
        exact ((ih' t).items len).bind fun vs => Cursor.Below.refl _
      | option t =>
        apply (Cursor.Below.refl _).bind
        intro tag
        split
        · exact Cursor.Below.refl _
        split
        · exact (ih' t).bind fun v => Cursor.Below.refl _
        · exact Cursor.Below.refl _
      | tuple ts => exact (Cursor.Below.fields ih' ts).bind fun vs => Cursor.Below.refl _
      | named n =>
        cases hn : D.decl n with
        | struct ts =>
          rw [Ty.decode, Ty.decode, hn]
          exact (Cursor.Below.fields ih' ts).bind fun vs => Cursor.Below.refl _
        | enum variants =>
          rw [Ty.decode, Ty.decode, hn]
          apply (Cursor.Below.refl _).bind
          intro disc
          split
          · exact (Cursor.Below.fields ih' _).bind fun vs => Cursor.Below.refl _
          · exact Cursor.Below.refl _

/-- With this fuel the type answers every input up to length `n`. -/
def Answers (D : Decls N) (n fuel : ℕ) (t : Ty N) : Prop :=
  ∀ b : Bytes, b.length ≤ n → (Ty.decode D fuel t).Halts b

theorem Answers.mono {n fuel fuel' : ℕ} {t : Ty N} (h : Answers D n fuel t) (hf : fuel ≤ fuel') :
    Answers D n fuel' t :=
  fun b hb => (decode_below hf t).halts (h b hb)

/-- One fuel for all the types of a list. -/
theorem exists_answers {n : ℕ} {ts : List (Ty N)} (h : ∀ t ∈ ts, ∃ fuel, Answers D n fuel t) :
    ∃ fuel, ∀ t ∈ ts, Answers D n fuel t := by
  induction ts with
  | nil => exact ⟨0, by simp⟩
  | cons t ts ih =>
    obtain ⟨fuel, ht⟩ := h t (by simp)
    obtain ⟨fuel', hts⟩ := ih fun t' ht' => h t' (by simp [ht'])
    refine ⟨max fuel fuel', fun t' ht' => ?_⟩
    cases List.mem_cons.mp ht' with
    | inl heq => exact heq ▸ ht.mono (le_max_left fuel fuel')
    | inr hmem => exact (hts t' hmem).mono (le_max_right fuel fuel')

theorem halts_int (k : IntTy) (b : Bytes) : (decodeInt k).Halts b :=
  Cursor.Halts.bind ⟨_, rfl⟩ fun _ rest _ => Cursor.Halts.pure _ rest

theorem halts_len (b : Bytes) : decodeLen.Halts b :=
  (halts_int .u32 b).bind fun _ rest _ => Cursor.Halts.pure _ rest

theorem halts_string (b : Bytes) : decodeString.Halts b := by
  apply (halts_len b).bind
  intro len mid _
  apply Cursor.Halts.bind ⟨_, rfl⟩
  intro bytes rest _
  split
  · exact Cursor.Halts.pure _ rest
  · exact Cursor.Halts.fail _ rest

theorem answers_tuple {n fuel : ℕ} {ts : List (Ty N)} (h : ∀ t ∈ ts, Answers D n fuel t)
    {mk : List Val → Val} {b : Bytes} (hb : b.length ≤ n) :
    Cursor.Halts (Cursor.fields (Ty.decode D fuel) ts >>= fun vs => pure (mk vs)) b :=
  (Cursor.Halts.fields (decode_exact fuel) h b hb).bind fun _ rest _ => Cursor.Halts.pure _ rest

/-- **Decoding terminates**: a vector's elements come after a shorter input, everything else a
type holds is held in place. -/
theorem answers (n : ℕ) (t : Ty N) : ∃ fuel, Answers D n fuel t := by
  induction n using Nat.strong_induction_on generalizing t with
  | _ n ihn =>
    induction t using D.finite_size.induction with
    | _ t iht =>
      cases t with
      | int k => exact ⟨1, fun b _ => (halts_int k b).bind fun _ rest _ => .pure _ rest⟩
      | unit => exact ⟨1, fun b _ => .pure _ b⟩
      | string => exact ⟨1, fun b _ => (halts_string b).bind fun _ rest _ => .pure _ rest⟩
      | seq => exact ⟨1, fun b _ => (halts_int .u64 b).bind fun _ rest _ => .pure _ rest⟩
      | timestamp => exact ⟨1, fun b _ => (halts_int .u64 b).bind fun _ rest _ => .pure _ rest⟩
      | bool =>
        refine ⟨1, fun b _ => (halts_int .u8 b).bind fun tag rest _ => ?_⟩
        split
        · exact .pure _ rest
        split
        · exact .pure _ rest
        · exact .fail _ rest
      | vec t =>
        -- the elements are read from what the length prefix leaves
        obtain ⟨fuel, hfuel⟩ : ∃ fuel, ∀ b : Bytes, b.length + 4 ≤ n →
            (Ty.decode D fuel t).Halts b := by
          by_cases hn : 4 ≤ n
          · obtain ⟨fuel, hfuel⟩ := ihn (n - 4) (by omega) t
            exact ⟨fuel, fun b hb => hfuel b (by omega)⟩
          · exact ⟨0, fun b hb => by omega⟩
        refine ⟨fuel + 1, fun b hb => (halts_len b).bind fun len rest hlen => ?_⟩
        obtain ⟨-, rfl⟩ := (decodeLen_exact b len rest).mp hlen
        have hrest : rest.length + 4 ≤ n := by
          have hlb : (lenBytes len).length = 4 := by simp [lenBytes]
          rw [List.length_append] at hb
          omega
        have hitems := Cursor.Halts.items (decode_exact fuel t) (m := rest.length)
          (fun b hb => hfuel b (by omega)) len rest le_rfl
        exact hitems.bind fun _ rest _ => .pure _ rest
      | option t =>
        obtain ⟨fuel, hfuel⟩ := iht t (.option t)
        refine ⟨fuel + 1, fun b hb => (halts_int .u8 b).bind fun tag rest htag => ?_⟩
        have hrest := (decodeInt_exact .u8).length_le htag
        split
        · exact .pure _ rest
        split
        · exact (hfuel rest (hrest.trans hb)).bind fun _ rest _ => .pure _ rest
        · exact .fail _ rest
      | tuple ts =>
        obtain ⟨fuel, hfuel⟩ := exists_answers fun t ht => iht t (.tuple ht)
        exact ⟨fuel + 1, fun b hb => answers_tuple hfuel hb⟩
      | named m =>
        obtain ⟨fuel, hfuel⟩ := exists_answers fun t ht => iht t (.named ht)
        refine ⟨fuel + 1, fun b hb => ?_⟩
        cases hm : D.decl m with
        | struct ts =>
          rw [hm] at hfuel
          rw [Ty.decode, hm]
          exact answers_tuple hfuel hb
        | enum variants =>
          rw [hm] at hfuel
          rw [Ty.decode, hm]
          apply (halts_int .u16 b).bind
          intro disc rest hdisc
          have hrest := (decodeInt_exact .u16).length_le hdisc
          split
          · next ts hts =>
            have hmem : ∀ t ∈ ts, t ∈ (Decl.enum variants).fields := by
              intro t ht
              exact List.mem_flatten.mpr ⟨ts, List.mem_of_getElem? hts, ht⟩
            exact answers_tuple (fun t ht => hfuel t (hmem t ht)) (hrest.trans hb)
          · exact .fail _ rest

/-- Decoding answers `r` on `b`, with enough fuel. -/
def Decodes (D : Decls N) (t : Ty N) (b : Bytes) (r : Except CodecError (Val × Bytes)) : Prop :=
  ∃ fuel, Ty.decode D fuel t b = some r

/-- Decoding the whole buffer answers `r`, with enough fuel. -/
def DecodesAll (D : Decls N) (t : Ty N) (b : Bytes) (r : Except CodecError Val) : Prop :=
  ∃ fuel, Ty.decodeAll D fuel t b = some r

/-- Every input has exactly one answer. -/
theorem decodes_unique (D : Decls N) (t : Ty N) (b : Bytes) : ∃! r, Decodes D t b r := by
  obtain ⟨fuel, hfuel⟩ := answers b.length t (D := D)
  obtain ⟨r, hr⟩ := hfuel b le_rfl
  refine ⟨r, ⟨fuel, hr⟩, ?_⟩
  rintro r' ⟨fuel', hr'⟩
  have h := decode_below (le_max_left fuel fuel') t b r hr
  have h' := decode_below (le_max_right fuel fuel') t b r' hr'
  exact Option.some.inj (h'.symm.trans h)

/-- Decoding returns a value exactly where the value's encoding stands. -/
theorem decodes_ok {t : Ty N} {b rest : Bytes} {v : Val} :
    Decodes D t b (.ok (v, rest)) ↔ HasType D t v ∧ v.Fits ∧ b = encodeToVec v ++ rest := by
  constructor
  · rintro ⟨fuel, h⟩
    obtain ⟨hv, hb⟩ := (decode_exact fuel t b v rest).mp h
    exact ⟨hv.typed, hv.fits, hb⟩
  · rintro ⟨htyped, hfits, hb⟩
    exact ⟨v.depth, (decode_exact v.depth t b v rest).mpr ⟨⟨htyped, hfits, le_rfl⟩, hb⟩⟩

theorem decodesAll_ok {t : Ty N} {b : Bytes} {v : Val} :
    DecodesAll D t b (.ok v) ↔ Decodes D t b (.ok (v, [])) := by
  constructor
  · rintro ⟨fuel, h⟩
    refine ⟨fuel, ?_⟩
    unfold Ty.decodeAll at h
    split at h
    · cases h
    · cases h
    · next w rest hd =>
      split at h
      · next hrest =>
        obtain rfl := Except.ok.inj (Option.some.inj h)
        rw [hd, hrest]
      · cases h
  · rintro ⟨fuel, h⟩
    exact ⟨fuel, by simp [Ty.decodeAll, h]⟩

/-- **The canonical codec is a bijection onto its image**, at every type: encoding appends as
many bytes as announced, decoding them gives the value back and leaves what follows, nothing
else is decoded to a value, and every input gets one answer. -/
theorem canonical_codec (D : Decls N) (t : Ty N) :
    (∀ v, HasType D t v → v.Fits → ∀ out rest,
      v.encode out = out ++ encodeToVec v ∧ (encodeToVec v).length = v.encodedLen ∧
        Decodes D t (encodeToVec v ++ rest) (.ok (v, rest))) ∧
    (∀ b v rest, Decodes D t b (.ok (v, rest)) →
      HasType D t v ∧ v.Fits ∧ b = encodeToVec v ++ rest) ∧
    (∀ b v, DecodesAll D t b (.ok v) ↔ HasType D t v ∧ v.Fits ∧ b = encodeToVec v) ∧
    (∀ v w, HasType D t v → v.Fits → HasType D t w → w.Fits →
      encodeToVec v = encodeToVec w → v = w) ∧
    ∀ b, ∃! r, Decodes D t b r := by
  refine ⟨?_, ?_, ?_, ?_, decodes_unique D t⟩
  · intro v htyped hfits out rest
    exact ⟨encode_append v out, length_encodeToVec v, decodes_ok.mpr ⟨htyped, hfits, rfl⟩⟩
  · intro b v rest h
    exact decodes_ok.mp h
  · intro b v
    rw [decodesAll_ok, decodes_ok, List.append_nil]
  · intro v w hv hvfits hw hwfits heq
    have h : Decodes D t (encodeToVec v) (.ok (v, [])) := decodes_ok.mpr ⟨hv, hvfits, by simp⟩
    have h' : Decodes D t (encodeToVec v) (.ok (w, [])) :=
      decodes_ok.mpr ⟨hw, hwfits, by simp [heq]⟩
    have hvw := (decodes_unique D t (encodeToVec v)).unique h h'
    simpa using hvw

end

/-! ### A struct and an enum -/

/-- The names of two derived types. -/
inductive Sample where
  | named
  | mixed

/-- A struct with a field of most kinds, and an enum whose last variant holds it. -/
def sampleDecl : Sample → Decl Sample
  | .named => .struct [.int .u32, .string, .vec (.int .u16), .option .bool]
  | .mixed => .enum [[], [.int .u64], [.int .i32, .int .i32], [.named .named]]

def samples : Decls Sample where
  decl := sampleDecl
  variant_count_check n variants h := by
    cases n with
    | named => cases h
    | mixed =>
      cases h
      decide
  finite_size := by
    apply finite_size_of_rank (fun n => match n with | .named => 2 | .mixed => 3)
    intro n
    cases n <;> simp [sampleDecl, Decl.fields, Ty.height]

/-- A pair of signed integers, read back from its bytes. -/
theorem canonical_codec_pair :
    DecodesAll samples (.named .mixed) [2, 0, 251, 255, 255, 255, 5, 0, 0, 0]
      (.ok (.enum 2 [.int .i32 (BitVec.ofInt 32 (-5)), .int .i32 5])) := by
  apply ((canonical_codec samples (.named .mixed)).2.2.1 _ _).mpr
  refine ⟨.enum rfl rfl (.cons (.int _ _) (.cons (.int _ _) .nil)), ?_, rfl⟩
  simp [Val.Fits, Val.FitsEach]

/-! ## The instances of the runtime -/

/-- A type of the development stands for one of the universe: its encoding is that of the
value it stands for. -/
class Coded (N α : Type) [Encode α] where
  ty : Ty N
  toVal : α → Val
  typed : ∀ (D : Decls N) (a : α), HasType D ty (toVal a)
  encode_eq : ∀ a : α, encode a = encodeToVec (toVal a)

variable {N α β : Type} [Encode α] [Encode β]

instance : Coded N UInt64 where
  ty := .int .u64
  toVal n := .int .u64 n.toBitVec
  typed _ n := .int .u64 n.toBitVec
  encode_eq _ := rfl

instance : Coded N UInt32 where
  ty := .int .u32
  toVal n := .int .u32 n.toBitVec
  typed _ n := .int .u32 n.toBitVec
  encode_eq _ := rfl

instance [Coded N α] [Coded N β] : Coded N (α × β) where
  ty := .tuple [Coded.ty α, Coded.ty β]
  toVal p := .tuple [Coded.toVal N p.1, Coded.toVal N p.2]
  typed D p := .tuple (.cons (Coded.typed D p.1) (.cons (Coded.typed D p.2) .nil))
  encode_eq p := by
    simp [encode, Coded.encode_eq (N := N)]

instance [Coded N α] : Coded N (List α) where
  ty := .vec (Coded.ty α)
  toVal as := .vec (as.map (Coded.toVal N))
  typed D as := by
    apply HasType.vec
    simp only [List.mem_map]
    rintro v ⟨a, -, rfl⟩
    exact Coded.typed D a
  encode_eq as := by
    have hlen : leBytes 4 as.length = lenBytes (as.map (Coded.toVal N)).length := by
      apply leNat_inj
      · simp [lenBytes]
      · simp [lenBytes, leNat_leBytes]
    have henc : (encode : α → Bytes) = encodeToVec ∘ Coded.toVal N := funext Coded.encode_eq
    show leBytes 4 as.length ++ as.flatMap encode = _
    rw [hlen, henc, encodeToVec_vec, List.flatMap_map]
    rfl

/-- What the runtime encodes is read back, whatever follows it, as the value it stands for. -/
theorem Coded.decodes_encode [Coded N α] (D : Decls N) {a : α} (hfits : (toVal N a).Fits)
    (rest : Bytes) : Decodes D (ty α) (encode a ++ rest) (.ok (toVal N a, rest)) := by
  rw [Coded.encode_eq (N := N) a]
  exact decodes_ok.mpr ⟨Coded.typed D a, hfits, rfl⟩

end Ticktape.Core
