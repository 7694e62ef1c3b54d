import Ticktape.Lib.Prog

/-!
# Specifications of one run

`wpAt p Q E m w` says what the one run of `p` from memory `m` in the world `w` leaves, where `wp` speaks of every
world of a kind. It is for facts that depend on which of several calls fails: the postconditions see the world, so
they can count the fates that were used up. Nothing is said of a process that goes down.
-/

namespace Ticktape.Lib

variable {μ ν σ ε ε' α β : Type}

/-- The run of `p` returns with `Q` or fails with `E`, if it ends at all. -/
def wpAt (p : Prog μ σ ε α) (Q : α → μ → World σ → Prop) (E : ε → μ → World σ → Prop) (m : μ) (w : World σ) :
    Prop :=
  match p m w with
  | .ok a m' w' => Q a m' w'
  | .err e m' w' => E e m' w'
  | _ => True

variable {F : Fate → Prop} {Q Q' : α → μ → World σ → Prop} {E E' : ε → μ → World σ → Prop} {m : μ} {w : World σ}

theorem wpAt_mono {p : Prog μ σ ε α} (h : wpAt p Q E m w) (hQ : ∀ a m' w', Q a m' w' → Q' a m' w')
    (hE : ∀ e m' w', E e m' w' → E' e m' w') : wpAt p Q' E' m w := by
  unfold wpAt at h ⊢
  revert h
  cases p m w with
  | ok a m' w' => exact hQ _ _ _
  | err e m' w' => exact hE _ _ _
  | down w' => exact id
  | spin => exact id

theorem wpAt_pure {a : α} (h : Q a m w) : wpAt (pure a : Prog μ σ ε α) Q E m w := h

theorem wpAt_bind {p : Prog μ σ ε α} {f : α → Prog μ σ ε β} {R : β → μ → World σ → Prop}
    (h : wpAt p (fun a m' w' => wpAt (f a) R E m' w') E m w) : wpAt (p >>= f) R E m w := by
  unfold wpAt at h
  show match Prog.andThen p f m w with
    | .ok b m' w' => R b m' w'
    | .err e m' w' => E e m' w'
    | _ => True
  unfold Prog.andThen
  revert h
  cases p m w with
  | ok a m' w' => exact id
  | err e m' w' => exact id
  | down w' => exact id
  | spin => exact id

/-- Sequencing through a stated intermediate condition. -/
theorem wpAt_seq {p : Prog μ σ ε α} {f : α → Prog μ σ ε β} {R : β → μ → World σ → Prop} (h : wpAt p Q E m w)
    (hf : ∀ a m' w', Q a m' w' → wpAt (f a) R E m' w') : wpAt (p >>= f) R E m w :=
  wpAt_bind (wpAt_mono h hf fun _ _ _ h => h)

theorem wpAt_mem {R : μ → μ → World σ → Prop} (h : R m m w) : wpAt (Prog.mem : Prog μ σ ε μ) R E m w := h

theorem wpAt_update {f : μ → μ} {R : Unit → μ → World σ → Prop} (h : R () (f m) w) :
    wpAt (Prog.update f : Prog μ σ ε Unit) R E m w := h

theorem wpAt_fail {e : ε} (h : E e m w) : wpAt (Prog.fail e : Prog μ σ ε α) Q E m w := h

theorem wpAt_panic : wpAt (Prog.panic : Prog μ σ ε α) Q E m w := trivial

theorem wpAt_instant {R : ℕ → μ → World σ → Prop}
    (h : R (w.instants 0) m { w with instants := fun i => w.instants (i + 1) }) :
    wpAt (Prog.instant : Prog μ σ ε ℕ) R E m w := h

theorem wpAt_note {f : σ → σ} {R : Unit → μ → World σ → Prop} (h : R () m { w with st := f w.st }) :
    wpAt (Prog.note f : Prog μ σ ε Unit) R E m w := h

/-- The rule of a storage call: it uses up one fate, which strikes it or lets it take effect. -/
theorem wpAt_call {act : σ → Except ε α × σ} {torn : ℕ → σ → σ} {e : ε}
    (hfault : ∀ k, w.fates[0]? = some (.fault k) → E e m { w with st := torn k w.st, fates := w.fates.drop 1 })
    (hok : ∀ a s', act w.st = (.ok a, s') → Q a m { w with st := s', fates := w.fates.drop 1 })
    (herr : ∀ e' s', act w.st = (.error e', s') → E e' m { w with st := s', fates := w.fates.drop 1 }) :
    wpAt (Prog.call act torn e) Q E m w := by
  unfold wpAt Prog.call
  rw [List.drop_one] at hfault hok herr
  cases hfates : w.fates with
  | nil =>
    rw [hfates] at hok herr
    cases hact : act w.st with
    | mk result s' =>
      cases result with
      | ok a => exact hok a s' hact
      | error e' => exact herr e' s' hact
  | cons fate rest =>
    rw [hfates] at hfault hok herr
    cases fate with
    | cut => trivial
    | fault k => exact hfault k rfl
    | ok =>
      cases hact : act w.st with
      | mk result s' =>
        cases result with
        | ok a => exact hok a s' hact
        | error e' => exact herr e' s' hact

theorem wpAt_mapErr {f : ε → ε'} {p : Prog μ σ ε α} {E₂ : ε' → μ → World σ → Prop}
    (h : wpAt p Q (fun e => E₂ (f e)) m w) : wpAt (Prog.mapErr f p) Q E₂ m w := by
  unfold wpAt at h ⊢
  unfold Prog.mapErr
  revert h
  cases p m w with
  | ok a m' w' => exact id
  | err e m' w' => exact id
  | down w' => exact id
  | spin => exact id

theorem wpAt_zoom {get : μ → ν} {set : ν → μ → μ} {p : Prog ν σ ε α}
    (h : wpAt p (fun a n w' => Q a (set n m) w') (fun e n w' => E e (set n m) w') (get m) w) :
    wpAt (Prog.zoom get set p) Q E m w := by
  unfold wpAt at h ⊢
  unfold Prog.zoom
  revert h
  cases p (get m) w with
  | ok a n w' => exact id
  | err e n w' => exact id
  | down w' => exact id
  | spin => exact id

/-- The error becomes a value, so the caller goes on with it. -/
theorem wpAt_attempt {p : Prog μ σ ε α} {E₂ : ε' → μ → World σ → Prop} {R : Except ε α → μ → World σ → Prop}
    (h : wpAt p (fun a => R (.ok a)) (fun e => R (.error e)) m w) :
    wpAt (Prog.attempt p : Prog μ σ ε' (Except ε α)) R E₂ m w := by
  unfold wpAt at h ⊢
  unfold Prog.attempt
  revert h
  cases p m w with
  | ok a m' w' => exact id
  | err e m' w' => exact id
  | down w' => exact id
  | spin => exact id

/-- The specification that says what the run is. -/
theorem wpAt_self {p : Prog μ σ ε α} :
    wpAt p (fun a m' w' => p m w = .ok a m' w') (fun e m' w' => p m w = .err e m' w') m w := by
  unfold wpAt
  cases p m w with
  | ok a m' w' => rfl
  | err e m' w' => rfl
  | down w' => trivial
  | spin => trivial

theorem wpAt_when {c : Prop} [Decidable c] {p : Prog μ σ ε Unit} {R : Unit → μ → World σ → Prop}
    (hpos : c → wpAt p R E m w) (hneg : ¬c → R () m w) : wpAt (Prog.when c p) R E m w := by
  unfold Prog.when
  split
  · exact hpos ‹_›
  · exact hneg ‹_›

/-- A returning run satisfies the postcondition. -/
theorem wpAt_ok {p : Prog μ σ ε α} {w' : World σ} {a : α} {m' : μ} (h : wpAt p Q E m w)
    (hrun : p m w = .ok a m' w') : Q a m' w' := by
  unfold wpAt at h
  rwa [hrun] at h

/-- A failing run satisfies the error condition. -/
theorem wpAt_err {p : Prog μ σ ε α} {w' : World σ} {e : ε} {m' : μ} (h : wpAt p Q E m w)
    (hrun : p m w = .err e m' w') : E e m' w' := by
  unfold wpAt at h
  rwa [hrun] at h

end Ticktape.Lib
