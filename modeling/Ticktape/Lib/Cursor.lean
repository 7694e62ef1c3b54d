import Mathlib.Data.List.Forall2

/-!
# Cursor decoders

A decoder that takes a value off the front of its input and leaves the rest, and the one
property a canonical format asks of it: `Exact`. A decoder is exact for a writer when what it
accepts is what the writer would have written, no more and no less; the round trip and its
converse are the two directions of that equivalence.

Recursive formats are decoded with fuel. `Exact` is stated for the decoder at one amount of
fuel, so that it composes through the recursion; `Below` and `Halts` are what is needed to
forget the fuel again.
-/

namespace Ticktape.Lib

/-- A decoder: it reads a value off the front of the input and hands back what it left, or
refuses the input, or (`none`) runs out of fuel. -/
def Cursor (τ ε α : Type) : Type := List τ → Option (Except ε (α × List τ))

namespace Cursor

variable {τ ε α β κ : Type}

/-- Run the second decoder on what the first one left. -/
def bind (d : Cursor τ ε α) (k : α → Cursor τ ε β) : Cursor τ ε β := fun b =>
  match d b with
  | none => none
  | some (.error e) => some (.error e)
  | some (.ok (a, rest)) => k a rest

instance : Monad (Cursor τ ε) where
  pure a := fun b => some (.ok (a, b))
  bind := bind

/-- Refuse the input. -/
def fail (e : ε) : Cursor τ ε α := fun _ => some (.error e)

/-- Out of fuel. -/
def starve : Cursor τ ε α := fun _ => none

/-- `n` values in a row. -/
def items (d : Cursor τ ε α) : ℕ → Cursor τ ε (List α)
  | 0 => pure []
  | n + 1 => do
    let a ← d
    let as ← items d n
    pure (a :: as)

/-- One value for each of the given kinds, in order. -/
def fields (d : κ → Cursor τ ε α) : List κ → Cursor τ ε (List α)
  | [] => pure []
  | k :: ks => do
    let a ← d k
    let as ← fields d ks
    pure (a :: as)

/-! ## What a decoder reads -/

/-- On input `b` the decoder returns `v` and leaves `rest`. -/
def Reads (d : Cursor τ ε α) (b : List τ) (v : α) (rest : List τ) : Prop :=
  d b = some (.ok (v, rest))

@[simp] theorem reads_pure {a v : α} {b rest : List τ} :
    Reads (pure a : Cursor τ ε α) b v rest ↔ a = v ∧ b = rest := by
  simp [Reads, pure]

@[simp] theorem reads_fail {e : ε} {v : α} {b rest : List τ} :
    ¬ Reads (fail e : Cursor τ ε α) b v rest := by
  simp [Reads, fail]

@[simp] theorem reads_starve {v : α} {b rest : List τ} :
    ¬ Reads (starve : Cursor τ ε α) b v rest := by
  simp [Reads, starve]

theorem bind_apply (d : Cursor τ ε α) (k : α → Cursor τ ε β) (b : List τ) :
    (d >>= k) b = bind d k b := rfl

@[simp] theorem reads_bind {d : Cursor τ ε α} {k : α → Cursor τ ε β} {b rest : List τ} {v : β} :
    Reads (d >>= k) b v rest ↔ ∃ a mid, Reads d b a mid ∧ Reads (k a) mid v rest := by
  simp only [Reads, bind_apply, bind]
  cases d b with
  | none => simp
  | some r =>
    cases r with
    | error e => simp
    | ok p =>
      obtain ⟨a, mid⟩ := p
      simp

/-! ## Exact decoders -/

/-- The decoder accepts what `write` writes for the `good` values, and nothing else. -/
def Exact (d : Cursor τ ε α) (write : α → List τ) (good : α → Prop) : Prop :=
  ∀ b v rest, d.Reads b v rest ↔ good v ∧ b = write v ++ rest

/-- Exactness follows a value into a larger one that is written the same. -/
theorem Exact.map {d : Cursor τ ε α} {write : α → List τ} {good : α → Prop} (h : d.Exact write good)
    (f : α → β) {write' : β → List τ} {good' : β → Prop} (hwrite : ∀ a, write' (f a) = write a)
    (hgood : ∀ v, good' v ↔ ∃ a, good a ∧ v = f a) :
    Exact (d >>= fun a => pure (f a)) write' good' := by
  intro b v rest
  rw [hgood v]
  simp only [reads_bind, reads_pure, h _ _ _]
  constructor
  · rintro ⟨a, mid, ⟨ha, rfl⟩, rfl, rfl⟩
    exact ⟨⟨a, ha, rfl⟩, by rw [hwrite]⟩
  · rintro ⟨⟨a, ha, rfl⟩, rfl⟩
    exact ⟨a, rest, ⟨ha, by rw [hwrite]⟩, rfl, rfl⟩

/-- A row of exactly decoded values is exactly decoded, for each length. -/
theorem Exact.items {d : Cursor τ ε α} {write : α → List τ} {good : α → Prop}
    (h : d.Exact write good) (n : ℕ) :
    (d.items n).Exact (fun vs => vs.flatMap write)
      (fun vs => vs.length = n ∧ ∀ v ∈ vs, good v) := by
  induction n with
  | zero =>
    intro b vs rest
    simp only [Cursor.items, reads_pure]
    constructor
    · rintro ⟨rfl, rfl⟩
      simp
    · rintro ⟨⟨hlen, -⟩, rfl⟩
      rw [List.length_eq_zero_iff] at hlen
      simp [hlen]
  | succ n ih =>
    intro b vs rest
    simp only [Cursor.items, reads_bind, reads_pure, h _ _ _, ih _ _ _]
    constructor
    · rintro ⟨a, mid, ⟨ha, rfl⟩, as, mid', ⟨⟨hlen, has⟩, rfl⟩, rfl, rfl⟩
      simp [ha, hlen]
      exact has
    · rintro ⟨⟨hlen, hall⟩, rfl⟩
      cases vs with
      | nil => simp at hlen
      | cons a as =>
        have ha : good a := hall a (by simp)
        have has : ∀ v ∈ as, good v := fun v hv => hall v (by simp [hv])
        refine ⟨a, as.flatMap write ++ rest, ⟨ha, by simp⟩, as, rest, ⟨⟨?_, has⟩, rfl⟩, rfl, rfl⟩
        simpa using hlen

/-- Exact decoders in sequence: one for each field. -/
theorem Exact.fields {d : κ → Cursor τ ε α} {write : α → List τ} {good : κ → α → Prop}
    (h : ∀ k, (d k).Exact write (good k)) (ks : List κ) :
    (Cursor.fields d ks).Exact (fun vs => vs.flatMap write)
      (fun vs => List.Forall₂ good ks vs) := by
  induction ks with
  | nil =>
    intro b vs rest
    simp only [Cursor.fields, reads_pure, List.forall₂_nil_left_iff]
    constructor
    · rintro ⟨rfl, rfl⟩
      simp
    · rintro ⟨rfl, rfl⟩
      simp
  | cons k ks ih =>
    intro b vs rest
    simp only [Cursor.fields, reads_bind, reads_pure, h _ _ _ _, ih _ _ _]
    constructor
    · rintro ⟨a, mid, ⟨ha, rfl⟩, as, mid', ⟨has, rfl⟩, rfl, rfl⟩
      exact ⟨.cons ha has, by simp⟩
    · rintro ⟨hall, rfl⟩
      cases hall with
      | @cons _ a _ as ha has =>
        exact ⟨a, as.flatMap write ++ rest, ⟨ha, by simp⟩, as, rest, ⟨has, rfl⟩, rfl, rfl⟩

/-! ## Fuel -/

/-- The second decoder answers at least where the first does, and the same. -/
def Below (d d' : Cursor τ ε α) : Prop := ∀ b r, d b = some r → d' b = some r

theorem Below.refl (d : Cursor τ ε α) : Below d d := fun _ _ h => h

theorem Below.starve (d : Cursor τ ε α) : Below starve d := by
  intro b r h
  simp [Cursor.starve] at h

theorem Below.bind {d d' : Cursor τ ε α} {k k' : α → Cursor τ ε β} (hd : Below d d')
    (hk : ∀ a, Below (k a) (k' a)) : Below (d >>= k) (d' >>= k') := by
  intro b r h
  simp only [bind_apply, Cursor.bind] at h ⊢
  cases hb : d b with
  | none => simp [hb] at h
  | some o =>
    rw [hb] at h
    rw [hd b o hb]
    cases o with
    | error e => exact h
    | ok p => exact hk p.1 p.2 r h

theorem Below.items {d d' : Cursor τ ε α} (h : Below d d') (n : ℕ) :
    Below (d.items n) (d'.items n) := by
  induction n with
  | zero => exact Below.refl _
  | succ n ih => exact h.bind fun a => ih.bind fun as => Below.refl _

theorem Below.fields {d d' : κ → Cursor τ ε α} (h : ∀ k, Below (d k) (d' k)) (ks : List κ) :
    Below (Cursor.fields d ks) (Cursor.fields d' ks) := by
  induction ks with
  | nil => exact Below.refl _
  | cons k ks ih => exact (h k).bind fun a => ih.bind fun as => Below.refl _

/-- The decoder answers on `b`: its fuel is enough. -/
def Halts (d : Cursor τ ε α) (b : List τ) : Prop := ∃ r, d b = some r

theorem Halts.pure (a : α) (b : List τ) : Halts (pure a : Cursor τ ε α) b := ⟨_, rfl⟩

theorem Halts.fail (e : ε) (b : List τ) : Halts (fail e : Cursor τ ε α) b := ⟨_, rfl⟩

theorem Halts.bind {d : Cursor τ ε α} {k : α → Cursor τ ε β} {b : List τ} (hd : d.Halts b)
    (hk : ∀ a rest, d.Reads b a rest → (k a).Halts rest) : (d >>= k).Halts b := by
  obtain ⟨r, hr⟩ := hd
  cases r with
  | error e => exact ⟨.error e, by simp [bind_apply, Cursor.bind, hr]⟩
  | ok p =>
    obtain ⟨r', hr'⟩ := hk p.1 p.2 hr
    exact ⟨r', by simpa [bind_apply, Cursor.bind, hr] using hr'⟩

theorem Below.halts {d d' : Cursor τ ε α} (h : Below d d') {b : List τ} (hd : d.Halts b) :
    d'.Halts b := by
  obtain ⟨r, hr⟩ := hd
  exact ⟨r, h b r hr⟩

/-- An exact decoder never hands back more than it was given. -/
theorem Exact.length_le {d : Cursor τ ε α} {write : α → List τ} {good : α → Prop}
    (h : d.Exact write good) {b rest : List τ} {v : α} (hr : d.Reads b v rest) :
    rest.length ≤ b.length := by
  obtain ⟨-, rfl⟩ := (h b v rest).mp hr
  simp

/-- A row of values: enough fuel for one, on everything as short as the input, is enough for
all of them. -/
theorem Halts.items {d : Cursor τ ε α} {write : α → List τ} {good : α → Prop}
    (he : d.Exact write good) {m : ℕ} (h : ∀ b, b.length ≤ m → d.Halts b) (n : ℕ) :
    ∀ b : List τ, b.length ≤ m → (d.items n).Halts b := by
  induction n with
  | zero => exact fun b _ => Halts.pure [] b
  | succ n ih =>
    intro b hb
    apply (h b hb).bind
    intro a rest hr
    apply (ih rest (Nat.le_trans (he.length_le hr) hb)).bind
    exact fun as rest' _ => Halts.pure _ rest'

theorem Halts.fields {d : κ → Cursor τ ε α} {write : α → List τ} {good : κ → α → Prop}
    (he : ∀ k, (d k).Exact write (good k)) {m : ℕ} {ks : List κ}
    (h : ∀ k ∈ ks, ∀ b, b.length ≤ m → (d k).Halts b) :
    ∀ b : List τ, b.length ≤ m → (Cursor.fields d ks).Halts b := by
  induction ks with
  | nil => exact fun b _ => Halts.pure [] b
  | cons k ks ih =>
    intro b hb
    apply (h k (by simp) b hb).bind
    intro a rest hr
    apply (ih (fun k' hk' => h k' (by simp [hk'])) rest
      (Nat.le_trans ((he k).length_le hr) hb)).bind
    exact fun as rest' _ => Halts.pure _ rest'

end Cursor

end Ticktape.Lib
