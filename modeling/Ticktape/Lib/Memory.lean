import Ticktape.Lib.Prog

/-!
# Specifications of the memory alone

`mwp p Q E m` says what every run of `p` from memory `m` leaves in the memory, whatever the store
holds and whatever the environment does. Nothing is said of a process that goes down: its memory
is gone. The rules mirror those of `wp`.

`Maintains I p` is the special case of an invariant of the memory, and `Frozen p` says that `p`
does not touch its memory at all.
-/

namespace Ticktape.Lib

variable {μ ν σ ε ε' α β : Type}

/-- Every run of `p` from memory `m` returns with `Q`, fails with `E`, goes down or spins. -/
def mwp (p : Prog μ σ ε α) (Q : α → μ → Prop) (E : ε → μ → Prop) (m : μ) : Prop :=
  ∀ s, wp (fun _ => True) p (fun a m' _ => Q a m') (fun e m' _ => E e m') (fun _ => True) m s

variable {Q Q' : α → μ → Prop} {E E' : ε → μ → Prop} {m : μ}

theorem mwp_mono {p : Prog μ σ ε α} (h : mwp p Q E m) (hQ : ∀ a m', Q a m' → Q' a m')
    (hE : ∀ e m', E e m' → E' e m') : mwp p Q' E' m := fun s =>
  wp_mono (h s) (fun a m' _ => hQ a m') (fun e m' _ => hE e m') (fun _ h => h)

theorem mwp_and {p : Prog μ σ ε α} (h : mwp p Q E m) (h' : mwp p Q' E' m) :
    mwp p (fun a m' => Q a m' ∧ Q' a m') (fun e m' => E e m' ∧ E' e m') m := fun s =>
  wp_mono (wp_and (h s) (h' s)) (fun _ _ _ h => h) (fun _ _ _ h => h) (fun _ _ => trivial)

/-- A specification of the memory adds to any other. -/
theorem wp_and_mwp {F : Fate → Prop} {Q₁ : α → μ → σ → Prop} {E₁ : ε → μ → σ → Prop} {C : σ → Prop}
    {s : σ} {p : Prog μ σ ε α} (h : wp F p Q₁ E₁ C m s) (h' : mwp p Q E m) :
    wp F p (fun a m' s' => Q₁ a m' s' ∧ Q a m') (fun e m' s' => E₁ e m' s' ∧ E e m') C m s := by
  intro w hw hF
  have hrun := h w hw hF
  have hrun' := h' s w hw fun _ _ => trivial
  revert hrun hrun'
  cases p m w with
  | ok a m' w' => exact fun hs hs' => ⟨hs.1, hs.2, hs'.2⟩
  | err e m' w' => exact fun hs hs' => ⟨hs.1, hs.2, hs'.2⟩
  | down w' => exact fun hs _ => hs
  | spin => exact fun _ _ => trivial

theorem mwp_pure {a : α} (h : Q a m) : mwp (pure a : Prog μ σ ε α) Q E m := fun _ => wp_pure h

theorem mwp_returns {p : Prog μ σ ε α} {a : α} {m' : μ} (hp : ∀ w : World σ, p m w = .ok a m' w)
    (h : Q a m') : mwp p Q E m := fun _ => wp_returns hp h

theorem mwp_bind {p : Prog μ σ ε α} {f : α → Prog μ σ ε β} {R : β → μ → Prop}
    (h : mwp p (fun a m' => mwp (f a) R E m') E m) : mwp (p >>= f) R E m := fun s =>
  wp_seq (h s) (fun _ _ s' h => h s')

/-- Sequencing through a stated intermediate condition. -/
theorem mwp_seq {p : Prog μ σ ε α} {f : α → Prog μ σ ε β} {R : β → μ → Prop}
    (h : mwp p Q E m) (hf : ∀ a m', Q a m' → mwp (f a) R E m') : mwp (p >>= f) R E m :=
  mwp_bind (mwp_mono h hf (fun _ _ h => h))

theorem mwp_mem {R : μ → μ → Prop} (h : R m m) : mwp (Prog.mem : Prog μ σ ε μ) R E m := fun _ =>
  wp_mem h

theorem mwp_update {f : μ → μ} {R : Unit → μ → Prop} (h : R () (f m)) :
    mwp (Prog.update f : Prog μ σ ε Unit) R E m := fun _ => wp_update h

theorem mwp_fail {e : ε} (h : E e m) : mwp (Prog.fail e : Prog μ σ ε α) Q E m := fun _ => wp_fail h

theorem mwp_panic : mwp (Prog.panic : Prog μ σ ε α) Q E m := fun _ => wp_panic trivial

theorem mwp_spin : mwp (Prog.spin : Prog μ σ ε α) Q E m := fun _ => wp_spin

theorem mwp_zoom {get : μ → ν} {set : ν → μ → μ} {p : Prog ν σ ε α}
    (h : mwp p (fun a n => Q a (set n m)) (fun e n => E e (set n m)) (get m)) :
    mwp (Prog.zoom get set p) Q E m := fun s => wp_zoom (h s)

theorem mwp_mapErr {f : ε → ε'} {p : Prog μ σ ε α} {E₂ : ε' → μ → Prop}
    (h : mwp p Q (fun e => E₂ (f e)) m) : mwp (Prog.mapErr f p) Q E₂ m := fun s => wp_mapErr (h s)

theorem mwp_when {c : Prop} [Decidable c] {p : Prog μ σ ε Unit} {R : Unit → μ → Prop}
    (hpos : c → mwp p R E m) (hneg : ¬c → R () m) : mwp (Prog.when c p) R E m := fun s =>
  wp_when (fun hc => hpos hc s) hneg

/-- Nothing is asked. -/
theorem mwp_trivial {p : Prog μ σ ε α} : mwp p (fun _ _ => True) (fun _ _ => True) m := fun _ =>
  wp_trivial fun _ => trivial

/-- A returning run satisfies the postcondition. -/
theorem mwp_ok {p : Prog μ σ ε α} {w w' : World σ} {a : α} {m' : μ} (h : mwp p Q E m)
    (hrun : p m w = .ok a m' w') : Q a m' := wp_ok (h w.st) (fun _ _ => trivial) hrun

/-- A failing run satisfies the error condition. -/
theorem mwp_err {p : Prog μ σ ε α} {w w' : World σ} {e : ε} {m' : μ} (h : mwp p Q E m)
    (hrun : p m w = .err e m' w') : E e m' := wp_err (h w.st) (fun _ _ => trivial) hrun

/-! ## Invariants of the memory -/

/-- Returning or failing, `p` keeps the memory predicate `I`. -/
def Maintains (I : μ → Prop) (p : Prog μ σ ε α) : Prop :=
  ∀ m, I m → mwp p (fun _ m' => I m') (fun _ m' => I m') m

/-- `p` does not touch its memory. -/
def Frozen (p : Prog μ σ ε α) : Prop :=
  ∀ m, mwp p (fun _ m' => m' = m) (fun _ m' => m' = m) m

section Maintains

variable {I : μ → Prop}

theorem maintains_pure (a : α) : Maintains I (pure a : Prog μ σ ε α) := fun _ h => mwp_pure h

theorem maintains_bind {p : Prog μ σ ε α} {f : α → Prog μ σ ε β} (hp : Maintains I p)
    (hf : ∀ a, Maintains I (f a)) : Maintains I (p >>= f) := fun m h =>
  mwp_seq (hp m h) fun a m' h' => hf a m' h'

theorem maintains_mem : Maintains I (Prog.mem : Prog μ σ ε μ) := fun _ h => mwp_mem h

theorem maintains_update {f : μ → μ} (h : ∀ m, I m → I (f m)) :
    Maintains I (Prog.update f : Prog μ σ ε Unit) := fun m hm => mwp_update (h m hm)

theorem maintains_spin : Maintains I (Prog.spin : Prog μ σ ε α) := fun _ _ => mwp_spin

theorem maintains_when {c : Prop} [Decidable c] {p : Prog μ σ ε Unit} (h : Maintains I p) :
    Maintains I (Prog.when c p) := fun m hm => mwp_when (fun _ => h m hm) (fun _ => hm)

theorem Frozen.maintains {p : Prog μ σ ε α} (h : Frozen p) : Maintains I p := fun m hm =>
  mwp_mono (h m) (fun _ _ heq => heq ▸ hm) (fun _ _ heq => heq ▸ hm)

end Maintains

section Frozen

theorem frozen_pure (a : α) : Frozen (pure a : Prog μ σ ε α) := fun _ => mwp_pure rfl

theorem frozen_bind {p : Prog μ σ ε α} {f : α → Prog μ σ ε β} (hp : Frozen p)
    (hf : ∀ a, Frozen (f a)) : Frozen (p >>= f) := fun m =>
  mwp_seq (hp m) fun a m' heq => heq ▸ hf a m'

theorem frozen_fail (e : ε) : Frozen (Prog.fail e : Prog μ σ ε α) := fun _ => mwp_fail rfl

theorem frozen_note (f : σ → σ) : Frozen (Prog.note f : Prog μ σ ε Unit) := fun _ _ => wp_note rfl

theorem frozen_call (act : σ → Except ε α × σ) (torn : ℕ → σ → σ) (e : ε) :
    Frozen (Prog.call act torn e : Prog μ σ ε α) := fun _ _ =>
  wp_call (fun _ => trivial) (fun _ _ => rfl) (fun _ _ _ => rfl) (fun _ _ _ => rfl)

theorem frozen_when {c : Prop} [Decidable c] {p : Prog μ σ ε Unit} (h : Frozen p) :
    Frozen (Prog.when c p) := fun m => mwp_when (fun _ => h m) (fun _ => rfl)

theorem frozen_attempt {p : Prog μ σ ε α} (h : Frozen p) :
    Frozen (Prog.attempt p : Prog μ σ ε' (Except ε α)) := fun m s =>
  wp_attempt (wp_mono (h m s) (fun _ _ _ h => h) (fun _ _ _ h => h) (fun _ h => h))

theorem frozen_mapErr {f : ε → ε'} {p : Prog μ σ ε α} (h : Frozen p) : Frozen (Prog.mapErr f p) :=
  fun m => mwp_mapErr (h m)

end Frozen

end Ticktape.Lib
