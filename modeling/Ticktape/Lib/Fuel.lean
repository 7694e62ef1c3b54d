import Ticktape.Lib.Memory

/-!
# Enough fuel

A program with an open loop is run with fuel. `Settles f m w` says that from some fuel on `f` has one outcome in
this world, and does not spin: it returns, fails or goes down. The rules follow the program; where a step passes
something on to the next one, `mwp` says what that is.
-/

namespace Ticktape.Lib

variable {μ σ ε α β γ : Type}

theorem Prog.bind_ret (p : Prog μ σ ε α) : p >>= (fun a => pure a) = p := by
  funext m w
  show Prog.andThen p (fun a => Prog.ret a) m w = p m w
  unfold Prog.andThen
  cases p m w <;> rfl

theorem Prog.bind_bind (p : Prog μ σ ε α) (f : α → Prog μ σ ε β) (g : β → Prog μ σ ε γ) :
    p >>= f >>= g = p >>= fun a => f a >>= g := by
  funext m w
  show Prog.andThen (Prog.andThen p f) g m w = Prog.andThen p (fun a => Prog.andThen (f a) g) m w
  unfold Prog.andThen
  cases p m w <;> rfl

instance : LawfulMonad (Prog μ σ ε) :=
  LawfulMonad.mk' _ (fun p => Prog.bind_ret p) (fun _ _ => rfl) (fun p f g => Prog.bind_bind p f g)

/-- With enough fuel `f` ends, and more fuel changes nothing. -/
def Settles (f : ℕ → Prog μ σ ε α) (m : μ) (w : World σ) : Prop :=
  ∃ enough outcome, outcome ≠ .spin ∧ ∀ fuel, enough ≤ fuel → f fuel m w = outcome

variable {m : μ} {w : World σ} {Q : α → μ → Prop} {E : ε → μ → Prop}

/-- A program without open loops needs no fuel. -/
theorem settles_of_ends {p : Prog μ σ ε α} (h : Ends p) : Settles (fun _ => p) m w :=
  ⟨0, p m w, h m w, fun _ _ => rfl⟩

theorem settles_bind {f : ℕ → Prog μ σ ε α} {g : ℕ → α → Prog μ σ ε β} (hf : Settles f m w)
    (hspec : ∀ fuel, mwp (f fuel) Q E m) (hg : ∀ a m' w', Q a m' → Settles (fun fuel => g fuel a) m' w') :
    Settles (fun fuel => f fuel >>= g fuel) m w := by
  obtain ⟨enough, outcome, hne, hf⟩ := hf
  cases outcome with
  | ok a m' w' =>
    have hq : Q a m' := mwp_ok (hspec enough) (hf enough (Nat.le_refl _))
    obtain ⟨more, outcome', hne', hg⟩ := hg a m' w' hq
    refine ⟨max enough more, outcome', hne', fun fuel hle => ?_⟩
    show Prog.andThen (f fuel) (g fuel) m w = _
    unfold Prog.andThen
    rw [hf fuel (Nat.le_trans (Nat.le_max_left ..) hle)]
    exact hg fuel (Nat.le_trans (Nat.le_max_right ..) hle)
  | err e m' w' =>
    -- the first part fails, and with it the whole
    refine ⟨enough, .err e m' w', by simp, fun fuel hle => ?_⟩
    show Prog.andThen (f fuel) (g fuel) m w = _
    unfold Prog.andThen
    rw [hf fuel hle]
  | down w' =>
    refine ⟨enough, .down w', by simp, fun fuel hle => ?_⟩
    show Prog.andThen (f fuel) (g fuel) m w = _
    unfold Prog.andThen
    rw [hf fuel hle]
  | spin => exact absurd rfl hne

/-- A step that needs no fuel comes first. -/
theorem settles_step {p : Prog μ σ ε α} {g : ℕ → α → Prog μ σ ε β} (hp : Ends p) (hspec : mwp p Q E m)
    (hg : ∀ a m' w', Q a m' → Settles (fun fuel => g fuel a) m' w') : Settles (fun fuel => p >>= g fuel) m w :=
  settles_bind (settles_of_ends hp) (fun _ => hspec) hg

/-- A step that needs no fuel comes last. -/
theorem settles_then {f : ℕ → Prog μ σ ε α} {g : α → Prog μ σ ε β} (hf : Settles f m w) (hg : ∀ a, Ends (g a)) :
    Settles (fun fuel => f fuel >>= g) m w :=
  settles_bind hf (fun _ => mwp_trivial) fun a _ _ _ => settles_of_ends (hg a)

/-- One more unit of fuel. -/
theorem settles_succ {f : ℕ → Prog μ σ ε α} (h : Settles (fun fuel => f (fuel + 1)) m w) : Settles f m w := by
  obtain ⟨enough, outcome, hne, h⟩ := h
  refine ⟨enough + 1, outcome, hne, fun fuel hle => ?_⟩
  obtain ⟨fuel, rfl⟩ := Nat.exists_eq_add_of_le' hle
  rw [← Nat.add_assoc]
  exact h _ (Nat.le_add_left ..)

end Ticktape.Lib
