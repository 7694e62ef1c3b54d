import Mathlib.Algebra.Order.Ring.Nat

/-!
# Programs over a fallible, powered store

A small program logic for code that keeps some state in memory and makes calls on a
store that can fail and can lose power.

- `Prog μ σ ε α` is a program with memory `μ` (what `&mut self` reaches), a store `σ`
  that outlives the process, errors `ε` and results `α`. An error keeps the memory
  as the program left it, so a half-done update stays visible.
- A `World` carries, next to the store, what the environment will decide: one `Fate`
  for each storage call, and the readings of the monotonic clock.
- `wp F p Q E C m s` says what holds of every run of `p` from memory `m` and store `s`
  when the environment uses only fates in `F`: `Q` on return, `E` on an error, `C` on
  the store whenever the process goes down.

The rules below are the whole interface: proofs about programs never unfold `wp`.
-/

namespace Ticktape.Lib

/-! ## Worlds and outcomes -/

/-- What the environment decides about one storage call. -/
inductive Fate where
  /-- The call takes effect. -/
  | ok
  /-- The call returns an error; a write leaves its first `kept` bytes behind. -/
  | fault (kept : ℕ)
  /-- Power is lost before the call takes effect. -/
  | cut
  deriving DecidableEq, Repr

/-- Fates without injected errors: calls succeed until power is lost. -/
def Fate.benign : Fate → Prop
  | .fault _ => False
  | _ => True

/-- The store together with what the environment has yet to decide. When `fates` runs
out every further call takes effect. -/
structure World (σ : Type) where
  st : σ
  fates : List Fate
  instants : ℕ → ℕ

/-- Every call takes effect. -/
def World.healthy {σ : Type} (s : σ) : World σ := ⟨s, [], fun _ => 0⟩

/-- Nothing happens to any call. -/
def Fate.calm (f : Fate) : Prop := f = .ok

theorem calm_no_fault (k : ℕ) : ¬Fate.calm (.fault k) := by simp [Fate.calm]

theorem calm_no_cut : ¬Fate.calm .cut := by simp [Fate.calm]

/-- Every call takes effect. -/
def World.Calm {σ : Type} (w : World σ) : Prop := ∀ f ∈ w.fates, f.calm

/-- The environment loses power but injects no errors. -/
def World.Benign {σ : Type} (w : World σ) : Prop := ∀ f ∈ w.fates, f.benign

theorem benign_no_fault (k : ℕ) : ¬Fate.benign (.fault k) := id

theorem benign_of_calm {σ : Type} {w : World σ} (h : w.Calm) : w.Benign := by
  intro f hf
  rw [h f hf]
  trivial

/-- How a program ends. `down` is a lost process (a power cut, or a panic): only the
store is left of it. `spin` is a loop that used up the fuel it was run with. -/
inductive Outcome (μ σ ε α : Type) where
  | ok (a : α) (m : μ) (w : World σ)
  | err (e : ε) (m : μ) (w : World σ)
  | down (w : World σ)
  | spin

/-- What a returning program returns. -/
def Outcome.returned {μ σ ε α : Type} : Outcome μ σ ε α → Option (α × μ × World σ)
  | .ok a m w => some (a, m, w)
  | _ => none

theorem Outcome.returned_eq_some {μ σ ε α : Type} {o : Outcome μ σ ε α} {a : α} {m : μ}
    {w : World σ} : o.returned = some (a, m, w) ↔ o = .ok a m w := by
  cases o <;> simp [returned]

/-- What a failing program fails with. -/
def Outcome.failed {μ σ ε α : Type} : Outcome μ σ ε α → Option (ε × μ × World σ)
  | .err e m w => some (e, m, w)
  | _ => none

theorem Outcome.failed_eq_some {μ σ ε α : Type} {o : Outcome μ σ ε α} {e : ε} {m : μ}
    {w : World σ} : o.failed = some (e, m, w) ↔ o = .err e m w := by
  cases o <;> simp [failed]

/-- The world that a lost process leaves. -/
def Outcome.lost {μ σ ε α : Type} : Outcome μ σ ε α → Option (World σ)
  | .down w => some w
  | _ => none

theorem Outcome.lost_eq_some {μ σ ε α : Type} {o : Outcome μ σ ε α} {w : World σ} :
    o.lost = some w ↔ o = .down w := by
  cases o <;> simp [lost]

/-- A program with memory `μ`, store `σ`, errors `ε` and result `α`. -/
def Prog (μ σ ε α : Type) : Type := μ → World σ → Outcome μ σ ε α

variable {μ ν σ ε ε' α β : Type}

namespace Prog

/-! ## The language -/

/-- Return a value. -/
def ret (a : α) : Prog μ σ ε α := fun m w => .ok a m w

/-- Sequencing: an error or a lost process ends the program. -/
def andThen (p : Prog μ σ ε α) (f : α → Prog μ σ ε β) : Prog μ σ ε β := fun m w =>
  match p m w with
  | .ok a m' w' => f a m' w'
  | .err e m' w' => .err e m' w'
  | .down w' => .down w'
  | .spin => .spin

instance : Monad (Prog μ σ ε) where
  pure := ret
  bind := andThen

/-- Read the memory. -/
def mem : Prog μ σ ε μ := fun m w => .ok m m w

/-- Update the memory. -/
def update (f : μ → μ) : Prog μ σ ε Unit := fun m w => .ok () (f m) w

/-- Return early with an error. -/
def fail (e : ε) : Prog μ σ ε α := fun m w => .err e m w

/-- Panic: the process is gone. -/
def panic : Prog μ σ ε α := fun _ w => .down w

/-- A loop whose fuel ran out. -/
def spin : Prog μ σ ε α := fun _ _ => .spin

/-- Read the monotonic clock. -/
def instant : Prog μ σ ε ℕ := fun m w =>
  .ok (w.instants 0) m { w with instants := fun i => w.instants (i + 1) }

/-- Update a history variable of the store; not a storage call, so nothing can
happen to it. -/
def note (f : σ → σ) : Prog μ σ ε Unit := fun m w => .ok () m { w with st := f w.st }

/-- Something that happens to the memory and the store at once, and is no storage call. -/
def joint (f : μ → σ → μ × σ) : Prog μ σ ε Unit := fun m w =>
  .ok () (f m w.st).1 { w with st := (f m w.st).2 }

/-- One storage call. `act` is its effect, `torn k` what an injected fault leaves
behind, `e` the error that fault reports. -/
def call (act : σ → Except ε α × σ) (torn : ℕ → σ → σ) (e : ε) : Prog μ σ ε α := fun m w =>
  match w.fates with
  | .cut :: _ => .down w
  | .fault k :: rest => .err e m { w with st := torn k w.st, fates := rest }
  | fates =>
    match act w.st with
    | (.ok a, s) => .ok a m { w with st := s, fates := fates.tail }
    | (.error e', s) => .err e' m { w with st := s, fates := fates.tail }

/-- Run a program on a part of the memory. -/
def zoom (get : μ → ν) (set : ν → μ → μ) (p : Prog ν σ ε α) : Prog μ σ ε α := fun m w =>
  match p (get m) w with
  | .ok a n w' => .ok a (set n m) w'
  | .err e n w' => .err e (set n m) w'
  | .down w' => .down w'
  | .spin => .spin

/-- Run a program on memory of its own and return that memory. -/
def owning (n : ν) (p : Prog ν σ ε Unit) : Prog μ σ ε ν := fun m w =>
  match p n w with
  | .ok _ n' w' => .ok n' m w'
  | .err e _ w' => .err e m w'
  | .down w' => .down w'
  | .spin => .spin

/-- Convert errors, as `?` does through `From`. -/
def mapErr (f : ε → ε') (p : Prog μ σ ε α) : Prog μ σ ε' α := fun m w =>
  match p m w with
  | .ok a m' w' => .ok a m' w'
  | .err e m' w' => .err (f e) m' w'
  | .down w' => .down w'
  | .spin => .spin

/-- Run a program and hand its error to the caller as a value. -/
def attempt (p : Prog μ σ ε α) : Prog μ σ ε' (Except ε α) := fun m w =>
  match p m w with
  | .ok a m' w' => .ok (.ok a) m' w'
  | .err e m' w' => .ok (.error e) m' w'
  | .down w' => .down w'
  | .spin => .spin

/-- Run a program if a condition holds. -/
def when (c : Prop) [Decidable c] (p : Prog μ σ ε Unit) : Prog μ σ ε Unit := if c then p else ret ()

/-- Return a value or fail with an error that was computed without a call. -/
def ofExcept : Except ε α → Prog μ σ ε α
  | .ok a => ret a
  | .error e => fail e

end Prog

/-! ## Weakest preconditions -/

/-- What an outcome must satisfy. -/
def Outcome.Sat (F : Fate → Prop) (Q : α → μ → σ → Prop) (E : ε → μ → σ → Prop)
    (C : σ → Prop) : Outcome μ σ ε α → Prop
  | .ok a m w => (∀ f ∈ w.fates, F f) ∧ Q a m w.st
  | .err e m w => (∀ f ∈ w.fates, F f) ∧ E e m w.st
  | .down w => C w.st
  | .spin => True

/-- Every run of `p` from memory `m` and store `s`, under fates in `F`, returns with
`Q`, fails with `E`, goes down with `C`, or spins. -/
def wp (F : Fate → Prop) (p : Prog μ σ ε α) (Q : α → μ → σ → Prop)
    (E : ε → μ → σ → Prop) (C : σ → Prop) (m : μ) (s : σ) : Prop :=
  ∀ w : World σ, w.st = s → (∀ f ∈ w.fates, F f) → (p m w).Sat F Q E C

variable {F : Fate → Prop} {Q Q' : α → μ → σ → Prop} {E E' : ε → μ → σ → Prop}
  {C C' : σ → Prop} {m : μ} {s : σ}

/-- Consequence: postconditions may be weakened. -/
theorem wp_mono {p : Prog μ σ ε α} (h : wp F p Q E C m s)
    (hQ : ∀ a m' s', Q a m' s' → Q' a m' s') (hE : ∀ e m' s', E e m' s' → E' e m' s')
    (hC : ∀ s', C s' → C' s') : wp F p Q' E' C' m s := by
  intro w hw hF
  have hrun := h w hw hF
  revert hrun
  cases p m w with
  | ok a m' w' => exact fun hs => ⟨hs.1, hQ _ _ _ hs.2⟩
  | err e m' w' => exact fun hs => ⟨hs.1, hE _ _ _ hs.2⟩
  | down w' => exact fun hs => hC _ hs
  | spin => exact fun _ => trivial

/-- Conjunction: programs are deterministic, so two specifications combine. -/
theorem wp_and {p : Prog μ σ ε α} (h : wp F p Q E C m s) (h' : wp F p Q' E' C' m s) :
    wp F p (fun a m' s' => Q a m' s' ∧ Q' a m' s') (fun e m' s' => E e m' s' ∧ E' e m' s')
      (fun s' => C s' ∧ C' s') m s := by
  intro w hw hF
  have hrun := h w hw hF
  have hrun' := h' w hw hF
  revert hrun hrun'
  cases p m w with
  | ok a m' w' => exact fun hs hs' => ⟨hs.1, hs.2, hs'.2⟩
  | err e m' w' => exact fun hs hs' => ⟨hs.1, hs.2, hs'.2⟩
  | down w' => exact fun hs hs' => ⟨hs, hs'⟩
  | spin => exact fun _ _ => trivial

theorem wp_pure {a : α} (h : Q a m s) : wp F (pure a : Prog μ σ ε α) Q E C m s := by
  intro w hw hF
  exact ⟨hF, by rw [hw]; exact h⟩

/-- A program that is known to return without touching the store. -/
theorem wp_returns {p : Prog μ σ ε α} {a : α} {m' : μ} (hp : ∀ w : World σ, p m w = .ok a m' w)
    (h : Q a m' s) : wp F p Q E C m s := by
  intro w hw hF
  rw [hp w]
  exact ⟨hF, by rw [hw]; exact h⟩

theorem wp_bind {p : Prog μ σ ε α} {f : α → Prog μ σ ε β} {R : β → μ → σ → Prop}
    (h : wp F p (fun a m' s' => wp F (f a) R E C m' s') E C m s) :
    wp F (p >>= f) R E C m s := by
  intro w hw hF
  have hrun := h w hw hF
  show (Prog.andThen p f m w).Sat F R E C
  unfold Prog.andThen
  revert hrun
  cases p m w with
  | ok a m' w' => exact fun hs => hs.2 w' rfl hs.1
  | err e m' w' => exact fun hs => hs
  | down w' => exact fun hs => hs
  | spin => exact fun _ => trivial

/-- Sequencing through a stated intermediate condition. -/
theorem wp_seq {p : Prog μ σ ε α} {f : α → Prog μ σ ε β} {R : β → μ → σ → Prop}
    (h : wp F p Q E C m s) (hf : ∀ a m' s', Q a m' s' → wp F (f a) R E C m' s') :
    wp F (p >>= f) R E C m s :=
  wp_bind (wp_mono h hf (fun _ _ _ h => h) (fun _ h => h))

theorem wp_mem {R : μ → μ → σ → Prop} (h : R m m s) :
    wp F (Prog.mem : Prog μ σ ε μ) R E C m s := by
  intro w hw hF
  exact ⟨hF, by rw [hw]; exact h⟩

theorem wp_update {f : μ → μ} {R : Unit → μ → σ → Prop} (h : R () (f m) s) :
    wp F (Prog.update f : Prog μ σ ε Unit) R E C m s := by
  intro w hw hF
  exact ⟨hF, by rw [hw]; exact h⟩

theorem wp_fail {e : ε} (h : E e m s) : wp F (Prog.fail e : Prog μ σ ε α) Q E C m s := by
  intro w hw hF
  exact ⟨hF, by rw [hw]; exact h⟩

theorem wp_panic (h : C s) : wp F (Prog.panic : Prog μ σ ε α) Q E C m s := by
  intro w hw _
  show C w.st
  rw [hw]
  exact h

theorem wp_spin : wp F (Prog.spin : Prog μ σ ε α) Q E C m s := fun _ _ _ => trivial

theorem wp_instant {R : ℕ → μ → σ → Prop} (h : ∀ t, R t m s) :
    wp F (Prog.instant : Prog μ σ ε ℕ) R E C m s := by
  intro w hw hF
  exact ⟨hF, by show R _ m w.st; rw [hw]; exact h _⟩

theorem wp_note {f : σ → σ} {R : Unit → μ → σ → Prop} (h : R () m (f s)) :
    wp F (Prog.note f : Prog μ σ ε Unit) R E C m s := by
  intro w hw hF
  exact ⟨hF, by show R () m (f w.st); rw [hw]; exact h⟩

theorem wp_joint {f : μ → σ → μ × σ} {R : Unit → μ → σ → Prop} (h : R () (f m s).1 (f m s).2) :
    wp F (Prog.joint f : Prog μ σ ε Unit) R E C m s := by
  intro w hw hF
  exact ⟨hF, by show R () (f m w.st).1 (f m w.st).2; rw [hw]; exact h⟩

/-- The rule of a storage call: the process may go down before it, an injected fault
may strike it, or it takes effect. -/
theorem wp_call {act : σ → Except ε α × σ} {torn : ℕ → σ → σ} {e : ε}
    (hcut : F .cut → C s) (hfault : ∀ k, F (.fault k) → E e m (torn k s))
    (hok : ∀ a s', act s = (.ok a, s') → Q a m s')
    (herr : ∀ e' s', act s = (.error e', s') → E e' m s') :
    wp F (Prog.call act torn e) Q E C m s := by
  rintro w rfl hF
  unfold Prog.call
  split
  · rename_i rest heq
    exact hcut (hF _ (by rw [heq]; exact List.mem_cons_self ..))
  · rename_i k rest heq
    exact ⟨fun f hf => hF f (by rw [heq]; exact List.mem_cons_of_mem _ hf),
      hfault k (hF _ (by rw [heq]; exact List.mem_cons_self ..))⟩
  · have htail : ∀ f ∈ w.fates.tail, F f := fun f hf => hF f (List.mem_of_mem_tail hf)
    split
    · rename_i a s' heq
      exact ⟨htail, hok a s' heq⟩
    · rename_i e' s' heq
      exact ⟨htail, herr e' s' heq⟩

theorem wp_zoom {get : μ → ν} {set : ν → μ → μ} {p : Prog ν σ ε α}
    (h : wp F p (fun a n s' => Q a (set n m) s') (fun e n s' => E e (set n m) s') C (get m) s) :
    wp F (Prog.zoom get set p) Q E C m s := by
  intro w hw hF
  have hrun := h w hw hF
  unfold Prog.zoom
  revert hrun
  cases p (get m) w with
  | ok a n w' => exact fun hs => hs
  | err e n w' => exact fun hs => hs
  | down w' => exact fun hs => hs
  | spin => exact fun _ => trivial

theorem wp_owning {n : ν} {p : Prog ν σ ε Unit} {R : ν → μ → σ → Prop}
    (h : wp F p (fun _ n' s' => R n' m s') (fun e _ s' => E e m s') C n s) :
    wp F (Prog.owning n p) R E C m s := by
  intro w hw hF
  have hrun := h w hw hF
  unfold Prog.owning
  revert hrun
  cases p n w with
  | ok a n w' => exact fun hs => hs
  | err e n w' => exact fun hs => hs
  | down w' => exact fun hs => hs
  | spin => exact fun _ => trivial

theorem wp_mapErr {f : ε → ε'} {p : Prog μ σ ε α} {E₂ : ε' → μ → σ → Prop}
    (h : wp F p Q (fun e => E₂ (f e)) C m s) : wp F (Prog.mapErr f p) Q E₂ C m s := by
  intro w hw hF
  have hrun := h w hw hF
  unfold Prog.mapErr
  revert hrun
  cases p m w with
  | ok a n w' => exact fun hs => hs
  | err e n w' => exact fun hs => hs
  | down w' => exact fun hs => hs
  | spin => exact fun _ => trivial

theorem wp_attempt {p : Prog μ σ ε α} {R : Except ε α → μ → σ → Prop} {E₂ : ε' → μ → σ → Prop}
    (h : wp F p (fun a => R (.ok a)) (fun e => R (.error e)) C m s) :
    wp F (Prog.attempt p) R E₂ C m s := by
  intro w hw hF
  have hrun := h w hw hF
  unfold Prog.attempt
  revert hrun
  cases p m w with
  | ok a n w' => exact fun hs => hs
  | err e n w' => exact fun hs => hs
  | down w' => exact fun hs => hs
  | spin => exact fun _ => trivial

theorem wp_when {c : Prop} [Decidable c] {p : Prog μ σ ε Unit} {R : Unit → μ → σ → Prop}
    (hpos : c → wp F p R E C m s) (hneg : ¬c → R () m s) : wp F (Prog.when c p) R E C m s := by
  unfold Prog.when
  split
  · exact hpos ‹_›
  · exact wp_pure (hneg ‹_›)

theorem wp_ofExcept {x : Except ε α} (hok : ∀ a, x = .ok a → Q a m s)
    (herr : ∀ e, x = .error e → E e m s) : wp F (Prog.ofExcept x) Q E C m s := by
  cases x with
  | ok a => exact wp_pure (hok a rfl)
  | error e => exact wp_fail (herr e rfl)

/-- Anything holds vacuously of a program whose every ending is unconstrained. -/
theorem wp_trivial {p : Prog μ σ ε α} (h : ∀ f, F f) :
    wp F p (fun _ _ _ => True) (fun _ _ _ => True) (fun _ => True) m s := by
  intro w _ _
  cases p m w with
  | ok a m' w' => exact ⟨fun f _ => h f, trivial⟩
  | err e m' w' => exact ⟨fun f _ => h f, trivial⟩
  | down w' => trivial
  | spin => trivial

/-! ## Store invariants

`Keeps F I p`: at every point of every run of `p`, and however it ends, the store satisfies `I`
if it did at the start. -/

/-- `p` keeps the store predicate `I` throughout. -/
def Keeps (F : Fate → Prop) (I : σ → Prop) (p : Prog μ σ ε α) : Prop :=
  ∀ m s, I s → wp F p (fun _ _ s' => I s') (fun _ _ s' => I s') I m s

section Keeps

variable {I : σ → Prop}

theorem keeps_pure (a : α) : Keeps F I (pure a : Prog μ σ ε α) := fun _ _ h => wp_pure h

theorem keeps_bind {p : Prog μ σ ε α} {f : α → Prog μ σ ε β} (hp : Keeps F I p)
    (hf : ∀ a, Keeps F I (f a)) : Keeps F I (p >>= f) := fun m s h =>
  wp_seq (hp m s h) (fun a m' s' h' => hf a m' s' h')

theorem keeps_mem : Keeps F I (Prog.mem : Prog μ σ ε μ) := fun _ _ h => wp_mem h

theorem keeps_update (f : μ → μ) : Keeps F I (Prog.update f : Prog μ σ ε Unit) := fun _ _ h =>
  wp_update h

theorem keeps_fail (e : ε) : Keeps F I (Prog.fail e : Prog μ σ ε α) := fun _ _ h => wp_fail h

theorem keeps_panic : Keeps F I (Prog.panic : Prog μ σ ε α) := fun _ _ h => wp_panic h

theorem keeps_spin : Keeps F I (Prog.spin : Prog μ σ ε α) := fun _ _ _ => wp_spin

theorem keeps_instant : Keeps F I (Prog.instant : Prog μ σ ε ℕ) := fun _ _ h =>
  wp_instant fun _ => h

theorem keeps_note {f : σ → σ} (h : ∀ s, I s → I (f s)) :
    Keeps F I (Prog.note f : Prog μ σ ε Unit) := fun _ s hs => wp_note (h s hs)

theorem keeps_call {act : σ → Except ε α × σ} {torn : ℕ → σ → σ} {e : ε}
    (htorn : ∀ k s, I s → I (torn k s)) (hact : ∀ s, I s → I (act s).2) :
    Keeps F I (Prog.call act torn e : Prog μ σ ε α) := fun _ s hs =>
  wp_call (fun _ => hs) (fun k _ => htorn k s hs)
    (fun _ _ h => by have := hact s hs; rwa [h] at this)
    (fun _ _ h => by have := hact s hs; rwa [h] at this)

theorem keeps_when {c : Prop} [Decidable c] {p : Prog μ σ ε Unit} (h : Keeps F I p) :
    Keeps F I (Prog.when c p) := fun m s hs => wp_when (fun _ => h m s hs) (fun _ => hs)

theorem keeps_ofExcept (x : Except ε α) : Keeps F I (Prog.ofExcept x : Prog μ σ ε α) :=
  fun _ _ hs => wp_ofExcept (fun _ _ => hs) (fun _ _ => hs)

theorem keeps_zoom {get : μ → ν} {set : ν → μ → μ} {p : Prog ν σ ε α} (h : Keeps F I p) :
    Keeps F I (Prog.zoom get set p) := fun m s hs => wp_zoom (h (get m) s hs)

theorem keeps_owning {n : ν} {p : Prog ν σ ε Unit} (h : Keeps F I p) :
    Keeps F I (Prog.owning n p : Prog μ σ ε ν) := fun _ s hs => wp_owning (h n s hs)

theorem keeps_mapErr {f : ε → ε'} {p : Prog μ σ ε α} (h : Keeps F I p) :
    Keeps F I (Prog.mapErr f p) := fun m s hs => wp_mapErr (h m s hs)

theorem keeps_attempt {p : Prog μ σ ε α} (h : Keeps F I p) :
    Keeps F I (Prog.attempt p : Prog μ σ ε' (Except ε α)) := fun m s hs => wp_attempt (h m s hs)

end Keeps

/-! ## Programs without open loops

`Ends p`: no run of `p` uses up its fuel. For such a program a specification that rules out errors
and lost processes is one of total correctness. -/

/-- `p` always returns, fails or goes down. -/
def Ends (p : Prog μ σ ε α) : Prop := ∀ m w, p m w ≠ .spin

section Ends

theorem ends_pure (a : α) : Ends (pure a : Prog μ σ ε α) := fun _ _ h => by cases h

theorem ends_bind {p : Prog μ σ ε α} {f : α → Prog μ σ ε β} (hp : Ends p) (hf : ∀ a, Ends (f a)) :
    Ends (p >>= f) := by
  intro m w
  show Prog.andThen p f m w ≠ .spin
  unfold Prog.andThen
  cases hrun : p m w with
  | ok a m' w' => exact hf a m' w'
  | err e m' w' => exact fun h => by cases h
  | down w' => exact fun h => by cases h
  | spin => exact absurd hrun (hp m w)

theorem ends_mem : Ends (Prog.mem : Prog μ σ ε μ) := fun _ _ h => by cases h

theorem ends_update (f : μ → μ) : Ends (Prog.update f : Prog μ σ ε Unit) := fun _ _ h => by cases h

theorem ends_fail (e : ε) : Ends (Prog.fail e : Prog μ σ ε α) := fun _ _ h => by cases h

theorem ends_panic : Ends (Prog.panic : Prog μ σ ε α) := fun _ _ h => by cases h

theorem ends_instant : Ends (Prog.instant : Prog μ σ ε ℕ) := fun _ _ h => by cases h

theorem ends_note (f : σ → σ) : Ends (Prog.note f : Prog μ σ ε Unit) := fun _ _ h => by cases h

theorem ends_call (act : σ → Except ε α × σ) (torn : ℕ → σ → σ) (e : ε) :
    Ends (Prog.call act torn e : Prog μ σ ε α) := by
  intro m w
  unfold Prog.call
  split
  · exact fun h => by cases h
  · exact fun h => by cases h
  · split <;> exact fun h => by cases h

theorem ends_mapErr {f : ε → ε'} {p : Prog μ σ ε α} (h : Ends p) : Ends (Prog.mapErr f p) := by
  intro m w
  unfold Prog.mapErr
  cases hrun : p m w with
  | spin => exact absurd hrun (h m w)
  | _ => exact fun h => by cases h

theorem ends_zoom {get : μ → ν} {set : ν → μ → μ} {p : Prog ν σ ε α} (h : Ends p) :
    Ends (Prog.zoom get set p) := by
  intro m w
  unfold Prog.zoom
  cases hrun : p (get m) w with
  | spin => exact absurd hrun (h (get m) w)
  | _ => exact fun h => by cases h

theorem ends_owning {n : ν} {p : Prog ν σ ε Unit} (h : Ends p) : Ends (Prog.owning n p : Prog μ σ ε ν) := by
  intro m w
  unfold Prog.owning
  cases hrun : p n w with
  | spin => exact absurd hrun (h n w)
  | _ => exact fun h => by cases h

theorem ends_attempt {p : Prog μ σ ε α} (h : Ends p) :
    Ends (Prog.attempt p : Prog μ σ ε' (Except ε α)) := by
  intro m w
  unfold Prog.attempt
  cases hrun : p m w with
  | spin => exact absurd hrun (h m w)
  | _ => exact fun h => by cases h

theorem ends_when {c : Prop} [Decidable c] {p : Prog μ σ ε Unit} (h : Ends p) :
    Ends (Prog.when c p) := by
  unfold Prog.when
  split
  · exact h
  · exact ends_pure ()

theorem ends_ofExcept (x : Except ε α) : Ends (Prog.ofExcept x : Prog μ σ ε α) := by
  cases x with
  | ok a => exact ends_pure a
  | error e => exact ends_fail e

/-- A program that cannot fail, go down or spin returns. -/
theorem wp_total {p : Prog μ σ ε α} {w : World σ}
    (h : wp F p Q (fun _ _ _ => False) (fun _ => False) m w.st) (hF : ∀ f ∈ w.fates, F f)
    (hends : Ends p) :
    ∃ a m' w', p m w = .ok a m' w' ∧ (∀ f ∈ w'.fates, F f) ∧ Q a m' w'.st := by
  have hs := h w rfl hF
  cases hrun : p m w with
  | ok a m' w' =>
    rw [hrun] at hs
    exact ⟨a, m', w', rfl, hs.1, hs.2⟩
  | err e m' w' =>
    rw [hrun] at hs
    exact hs.2.elim
  | down w' =>
    rw [hrun] at hs
    exact hs.elim
  | spin => exact absurd hrun (hends m w)

/-- A program that cannot go down or spin returns or fails. -/
theorem wp_outcome {p : Prog μ σ ε α} {w : World σ} (h : wp F p Q E (fun _ => False) m w.st)
    (hF : ∀ f ∈ w.fates, F f) (hends : Ends p) :
    (∃ a m' w', p m w = .ok a m' w' ∧ Q a m' w'.st) ∨ ∃ e m' w', p m w = .err e m' w' ∧ E e m' w'.st := by
  have hs := h w rfl hF
  cases hrun : p m w with
  | ok a m' w' =>
    rw [hrun] at hs
    exact Or.inl ⟨a, m', w', rfl, hs.2⟩
  | err e m' w' =>
    rw [hrun] at hs
    exact Or.inr ⟨e, m', w', rfl, hs.2⟩
  | down w' =>
    rw [hrun] at hs
    exact hs.elim
  | spin => exact absurd hrun (hends m w)

end Ends

/-! ## Taking a run apart -/

section Runs

variable {p : Prog μ σ ε α} {f : α → Prog μ σ ε β} {a : α} {e : ε} {m m' : μ} {w w' : World σ}

/-- Sequencing behind a program that returns. -/
theorem Prog.bind_of_ok (h : p m w = .ok a m' w') : (p >>= f) m w = f a m' w' := by
  show Prog.andThen p f m w = _
  rw [Prog.andThen, h]

/-- Nothing runs behind a program that fails. -/
theorem Prog.bind_of_err (h : p m w = .err e m' w') : (p >>= f) m w = .err e m' w' := by
  show Prog.andThen p f m w = _
  rw [Prog.andThen, h]

/-- A sequence fails in its first part or in its second. -/
theorem Prog.bind_err (h : (p >>= f) m w = .err e m' w') :
    p m w = .err e m' w' ∨ ∃ a m₁ w₁, p m w = .ok a m₁ w₁ ∧ f a m₁ w₁ = .err e m' w' := by
  replace h : Prog.andThen p f m w = .err e m' w' := h
  unfold Prog.andThen at h
  cases hrun : p m w with
  | ok a m₁ w₁ =>
    rw [hrun] at h
    exact Or.inr ⟨a, m₁, w₁, rfl, h⟩
  | err e₁ m₁ w₁ =>
    rw [hrun] at h
    cases h
    exact Or.inl rfl
  | down w₁ =>
    rw [hrun] at h
    cases h
  | spin =>
    rw [hrun] at h
    cases h

/-- A sequence returns when both parts do. -/
theorem Prog.bind_ok {b : β} (h : (p >>= f) m w = .ok b m' w') :
    ∃ a m₁ w₁, p m w = .ok a m₁ w₁ ∧ f a m₁ w₁ = .ok b m' w' := by
  replace h : Prog.andThen p f m w = .ok b m' w' := h
  unfold Prog.andThen at h
  cases hrun : p m w with
  | ok a m₁ w₁ =>
    rw [hrun] at h
    exact ⟨a, m₁, w₁, rfl, h⟩
  | err e₁ m₁ w₁ =>
    rw [hrun] at h
    cases h
  | down w₁ =>
    rw [hrun] at h
    cases h
  | spin =>
    rw [hrun] at h
    cases h

/-- Memory of its own does not change what a program does. -/
theorem Prog.owning_err {n : ν} {q : Prog ν σ ε Unit} (h : Prog.owning n q m w = .err e m' w') :
    ∃ n', q n w = .err e n' w' := by
  unfold Prog.owning at h
  cases hrun : q n w with
  | ok a n' w₁ =>
    rw [hrun] at h
    cases h
  | err e₁ n' w₁ =>
    rw [hrun] at h
    cases h
    exact ⟨n', rfl⟩
  | down w₁ =>
    rw [hrun] at h
    cases h
  | spin =>
    rw [hrun] at h
    cases h

theorem Prog.owning_ok {n n' : ν} {q : Prog ν σ ε Unit} (h : Prog.owning n q m w = .ok n' m' w') :
    q n w = .ok () n' w' ∧ m = m' := by
  unfold Prog.owning at h
  cases hrun : q n w with
  | ok a n₁ w₁ =>
    rw [hrun] at h
    cases h
    exact ⟨rfl, rfl⟩
  | err e₁ n₁ w₁ =>
    rw [hrun] at h
    cases h
  | down w₁ =>
    rw [hrun] at h
    cases h
  | spin =>
    rw [hrun] at h
    cases h

end Runs

/-! ## Runs behind a specification

What a specification says of the final states it can also say of the runs that lead there. -/

/-- Some run of `p` from `m` and `s`, under fates in `F`, returns `a` with `m'` and `s'`. -/
def Returns (F : Fate → Prop) (p : Prog μ σ ε α) (m : μ) (s : σ) (a : α) (m' : μ) (s' : σ) : Prop :=
  ∃ w w', w.st = s ∧ (∀ f ∈ w.fates, F f) ∧ p m w = .ok a m' w' ∧ w'.st = s'

/-- Some run of `p` from `m` and `s`, under fates in `F`, fails with `e`. -/
def Fails (F : Fate → Prop) (p : Prog μ σ ε α) (m : μ) (s : σ) (e : ε) : Prop :=
  ∃ w m' w', w.st = s ∧ (∀ f ∈ w.fates, F f) ∧ p m w = .err e m' w'

theorem wp_runs {p : Prog μ σ ε α} (h : wp F p Q E C m s) :
    wp F p (fun a m' s' => Q a m' s' ∧ Returns F p m s a m' s') (fun e m' s' => E e m' s' ∧ Fails F p m s e) C
      m s := by
  intro w hw hF
  have hrun := h w hw hF
  cases hp : p m w with
  | ok a m' w' =>
    rw [hp] at hrun
    exact ⟨hrun.1, hrun.2, w, w', hw, hF, hp, rfl⟩
  | err e m' w' =>
    rw [hp] at hrun
    exact ⟨hrun.1, hrun.2, w, m', w', hw, hF, hp⟩
  | down w' =>
    rw [hp] at hrun
    exact hrun
  | spin => trivial

/-! ## Reading a specification off a run -/

/-- A returning run satisfies the postcondition. -/
theorem wp_ok {p : Prog μ σ ε α} {w w' : World σ} {a : α} {m' : μ}
    (h : wp F p Q E C m w.st) (hF : ∀ f ∈ w.fates, F f) (hrun : p m w = .ok a m' w') :
    Q a m' w'.st := by
  have hs := h w rfl hF
  rw [hrun] at hs
  exact hs.2

/-- A failing run satisfies the error condition. -/
theorem wp_err {p : Prog μ σ ε α} {w w' : World σ} {e : ε} {m' : μ}
    (h : wp F p Q E C m w.st) (hF : ∀ f ∈ w.fates, F f) (hrun : p m w = .err e m' w') :
    E e m' w'.st := by
  have hs := h w rfl hF
  rw [hrun] at hs
  exact hs.2

/-- A lost process leaves a store that satisfies the crash condition. -/
theorem wp_down {p : Prog μ σ ε α} {w w' : World σ}
    (h : wp F p Q E C m w.st) (hF : ∀ f ∈ w.fates, F f) (hrun : p m w = .down w') :
    C w'.st := by
  have hs := h w rfl hF
  rw [hrun] at hs
  exact hs

end Ticktape.Lib
