import Ticktape.Lib.Prog

/-!
# Programs that stand

In a world in which every storage call takes effect, a program goes down only by a panic of its own. `Stands p` says
that `p` never does, whatever it returns; together with a specification that rules out errors, and with `Ends`, it
gives total correctness (`wp_stands`).
-/

namespace Ticktape.Lib

variable {μ ν σ ε ε' α β : Type}

/-- No calm world brings `p` down. -/
def Stands (p : Prog μ σ ε α) : Prop :=
  ∀ m s, wp Fate.calm p (fun _ _ _ => True) (fun _ _ _ => True) (fun _ => False) m s

section Stands

theorem stands_pure (a : α) : Stands (pure a : Prog μ σ ε α) := fun _ _ => wp_pure trivial

theorem stands_bind {p : Prog μ σ ε α} {f : α → Prog μ σ ε β} (hp : Stands p) (hf : ∀ a, Stands (f a)) :
    Stands (p >>= f) := fun m s => wp_seq (hp m s) fun a m' s' _ => hf a m' s'

theorem stands_mem : Stands (Prog.mem : Prog μ σ ε μ) := fun _ _ => wp_mem trivial

theorem stands_update (f : μ → μ) : Stands (Prog.update f : Prog μ σ ε Unit) := fun _ _ => wp_update trivial

theorem stands_instant : Stands (Prog.instant : Prog μ σ ε ℕ) := fun _ _ => wp_instant fun _ => trivial

theorem stands_note (f : σ → σ) : Stands (Prog.note f : Prog μ σ ε Unit) := fun _ _ => wp_note trivial

/-- A storage call is never cut. -/
theorem stands_call (act : σ → Except ε α × σ) (torn : ℕ → σ → σ) (e : ε) :
    Stands (Prog.call act torn e : Prog μ σ ε α) := fun _ _ =>
  wp_call (fun hcut => calm_no_cut hcut) (fun _ _ => trivial) (fun _ _ _ => trivial) fun _ _ _ => trivial

theorem stands_mapErr {f : ε → ε'} {p : Prog μ σ ε α} (h : Stands p) : Stands (Prog.mapErr f p) :=
  fun m s => wp_mapErr (h m s)

theorem stands_owning {n : ν} {p : Prog ν σ ε Unit} (h : Stands p) : Stands (Prog.owning n p : Prog μ σ ε ν) :=
  fun _ s => wp_owning (h n s)

theorem stands_when {c : Prop} [Decidable c] {p : Prog μ σ ε Unit} (h : Stands p) : Stands (Prog.when c p) :=
  fun m s => wp_when (fun _ => h m s) fun _ => trivial

end Stands

end Ticktape.Lib
