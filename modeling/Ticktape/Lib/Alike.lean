import Ticktape.Lib.Prog

/-!
# Programs that make the same calls

`Alike R p q m n`: run from memory `m`, `p` makes the calls that `q` makes from memory `n`, in the
same order, and ends as `q` does; where both return, `R` relates what they return and leave in memory.
The two memories may be of different types: this is how a program that collects something is compared
with one that hands it on.
-/

namespace Ticktape.Lib

variable {μ ν σ ε ε' α β α' β' : Type}

/-- Both outcomes leave the same world behind. -/
def Outcome.Alike (R : α → μ → β → ν → Prop) : Outcome μ σ ε α → Outcome ν σ ε β → Prop
  | .ok a m w, .ok b n w' => w = w' ∧ R a m b n
  | .err e _ w, .err e' _ w' => e = e' ∧ w = w'
  | .down w, .down w' => w = w'
  | .spin, .spin => True
  | _, _ => False

/-- In every world the two programs end alike. -/
def Alike (R : α → μ → β → ν → Prop) (p : Prog μ σ ε α) (q : Prog ν σ ε β) (m : μ) (n : ν) : Prop :=
  ∀ w, (p m w).Alike R (q n w)

variable {R : α → μ → β → ν → Prop} {m : μ} {n : ν}

theorem alike_pure {a : α} {b : β} (h : R a m b n) :
    Alike R (pure a : Prog μ σ ε α) (pure b : Prog ν σ ε β) m n := fun _ => ⟨rfl, h⟩

theorem alike_fail (e : ε) :
    Alike R (Prog.fail e : Prog μ σ ε α) (Prog.fail e : Prog ν σ ε β) m n := fun _ => ⟨rfl, rfl⟩

theorem alike_panic : Alike R (Prog.panic : Prog μ σ ε α) (Prog.panic : Prog ν σ ε β) m n := fun _ => rfl

theorem alike_bind {p : Prog μ σ ε α} {q : Prog ν σ ε β} {f : α → Prog μ σ ε α'} {g : β → Prog ν σ ε β'}
    {S : α' → μ → β' → ν → Prop} (h : Alike R p q m n)
    (hfg : ∀ a m' b n', R a m' b n' → Alike S (f a) (g b) m' n') : Alike S (p >>= f) (q >>= g) m n := by
  intro w
  have hw := h w
  show (Prog.andThen p f m w).Alike S (Prog.andThen q g n w)
  unfold Prog.andThen
  revert hw
  -- the two end alike; only where both return do they go on
  cases p m w <;> cases q n w <;> intro hw
  case ok.ok a m' w₁ b n' w₂ =>
    obtain ⟨rfl, hr⟩ := hw
    exact hfg a m' b n' hr w₁
  case err.err => exact hw
  case down.down => exact hw
  case spin.spin => exact trivial
  all_goals exact False.elim hw

/-- Both return the same and leave their memories as they were. -/
def Same (m : μ) (n : ν) (a : α) (m' : μ) (b : α) (n' : ν) : Prop := a = b ∧ m' = m ∧ n' = n

/-- Behind a step that both make, which touches neither memory. -/
theorem alike_bind_same {p : Prog μ σ ε α} {q : Prog ν σ ε α} {f : α → Prog μ σ ε α'} {g : α → Prog ν σ ε β'}
    {S : α' → μ → β' → ν → Prop} (h : Alike (Same m n) p q m n)
    (hfg : ∀ a, Alike S (f a) (g a) m n) : Alike S (p >>= f) (q >>= g) m n := by
  refine alike_bind h fun a m' b n' hsame => ?_
  obtain ⟨rfl, rfl, rfl⟩ := hsame
  exact hfg a

/-- A program that only updates its memory makes no call. -/
theorem alike_update_bind {f : μ → μ} {p : Unit → Prog μ σ ε α} {q : Prog ν σ ε β}
    (h : Alike R (p ()) q (f m) n) : Alike R (Prog.update f >>= p) q m n := fun w => h w

theorem alike_call (act : σ → Except ε α × σ) (torn : ℕ → σ → σ) (e : ε) :
    Alike (Same m n) (Prog.call act torn e : Prog μ σ ε α) (Prog.call act torn e : Prog ν σ ε α) m n := by
  intro w
  unfold Prog.call
  split
  · exact rfl
  · exact ⟨rfl, rfl⟩
  · split
    · exact ⟨rfl, rfl, rfl, rfl⟩
    · exact ⟨rfl, rfl⟩

theorem alike_instant :
    Alike (Same m n) (Prog.instant : Prog μ σ ε ℕ) (Prog.instant : Prog ν σ ε ℕ) m n := fun _ =>
  ⟨rfl, rfl, rfl, rfl⟩

theorem alike_note (f : σ → σ) :
    Alike (Same m n) (Prog.note f : Prog μ σ ε Unit) (Prog.note f : Prog ν σ ε Unit) m n := fun _ =>
  ⟨rfl, rfl, rfl, rfl⟩

theorem alike_ofExcept (x : Except ε α) :
    Alike (Same m n) (Prog.ofExcept x : Prog μ σ ε α) (Prog.ofExcept x : Prog ν σ ε α) m n := by
  cases x with
  | ok a => exact alike_pure ⟨rfl, rfl, rfl⟩
  | error e => exact alike_fail e

theorem alike_mapErr {f : ε → ε'} {p : Prog μ σ ε α} {q : Prog ν σ ε β} (h : Alike R p q m n) :
    Alike R (Prog.mapErr f p) (Prog.mapErr f q) m n := by
  intro w
  have hw := h w
  unfold Prog.mapErr
  revert hw
  cases p m w <;> cases q n w <;> intro hw
  case err.err e m' w₁ e' n' w₂ => exact ⟨congrArg f hw.1, hw.2⟩
  all_goals exact hw

/-- Where one returns, so does the other. -/
theorem Alike.ok {p : Prog μ σ ε α} {q : Prog ν σ ε β} (h : Alike R p q m n) {w w' : World σ} {b : β} {n' : ν}
    (hrun : q n w = .ok b n' w') : ∃ a m', p m w = .ok a m' w' ∧ R a m' b n' := by
  have hw := h w
  rw [hrun] at hw
  revert hw
  cases p m w <;> intro hw
  case ok a m' w₁ =>
    obtain ⟨rfl, hr⟩ := hw
    exact ⟨a, m', rfl, hr⟩
  all_goals exact False.elim hw

end Ticktape.Lib
