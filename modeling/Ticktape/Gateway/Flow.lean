import Mathlib.Algebra.Order.Ring.Nat

/-!
# Per-session admission

Dedup, gap detection and windowed flow control (`ticktape-gateway/src/flow.rs`), as a pure state
machine. The counters are `u64` and `u32` in the source; only `next` can reach the end of its
range, and there admission panics.
-/

namespace Ticktape.Gateway

/-- `+ 1` on a `u64`. -/
def u64Succ (n : ℕ) : Option ℕ := if n + 1 < 2 ^ 64 then some (n + 1) else none

theorem u64Succ_eq_some {n m : ℕ} (h : u64Succ n = some m) : m = n + 1 := by
  unfold u64Succ at h
  split at h
  · exact (Option.some.inj h).symm
  · cases h

/-- The verdict on one incoming client command. -/
inductive Admit where
  /-- In order and within the window: sequence it. -/
  | accept
  /-- Below the expected number: drop it. -/
  | duplicate
  /-- The client skipped ahead. -/
  | gap (expected : ℕ)
  /-- The window of unacknowledged commands is full; the number was not consumed. -/
  | throttled
  deriving DecidableEq, Repr

/-- One session's admission state. `client_seq` starts at 1. -/
structure SessionFlow where
  next : ℕ
  window : ℕ
  outstanding : ℕ
  deriving DecidableEq, Repr

namespace SessionFlow

/-- Resume a session whose last admitted client seq was `lastAdmitted`. -/
def resume (lastAdmitted window : ℕ) : Option SessionFlow :=
  (u64Succ lastAdmitted).map fun next => ⟨next, max window 1, 0⟩

/-- A fresh session: it expects `client_seq = 1`. -/
def new (window : ℕ) : SessionFlow := ⟨1, max window 1, 0⟩

/-- The verdict on a command and the state after it; `none` is the overflow of `next`. -/
def admitSeq (flow : SessionFlow) (clientSeq : ℕ) : Option (Admit × SessionFlow) :=
  if clientSeq < flow.next then some (.duplicate, flow)
  else if clientSeq > flow.next then some (.gap flow.next, flow)
  else if flow.outstanding ≥ flow.window then some (.throttled, flow)
  else (u64Succ flow.next).map fun next =>
    (.accept, { flow with next := next, outstanding := flow.outstanding + 1 })

/-- An admitted command was sequenced and acked: the window frees a slot. -/
def onAcked (flow : SessionFlow) : SessionFlow := { flow with outstanding := flow.outstanding - 1 }

/-- What each verdict means. -/
theorem admit_cases {flow flow' : SessionFlow} {clientSeq : ℕ} {verdict : Admit}
    (h : flow.admitSeq clientSeq = some (verdict, flow')) :
    (verdict = .duplicate ∧ clientSeq < flow.next ∧ flow' = flow) ∨
    (verdict = .gap flow.next ∧ flow.next < clientSeq ∧ flow' = flow) ∨
    (verdict = .throttled ∧ clientSeq = flow.next ∧ flow.window ≤ flow.outstanding ∧ flow' = flow) ∨
    (verdict = .accept ∧ clientSeq = flow.next ∧ flow.outstanding < flow.window ∧
      flow' = ⟨flow.next + 1, flow.window, flow.outstanding + 1⟩) := by
  unfold admitSeq at h
  split at h
  · next hlt =>
    obtain ⟨rfl, rfl⟩ := Prod.mk.inj (Option.some.inj h)
    exact .inl ⟨rfl, hlt, rfl⟩
  split at h
  · next hgt =>
    obtain ⟨rfl, rfl⟩ := Prod.mk.inj (Option.some.inj h)
    exact .inr (.inl ⟨rfl, hgt, rfl⟩)
  have heq : clientSeq = flow.next := by omega
  split at h
  · next hfull =>
    obtain ⟨rfl, rfl⟩ := Prod.mk.inj (Option.some.inj h)
    exact .inr (.inr (.inl ⟨rfl, heq, hfull, rfl⟩))
  · next hroom =>
    obtain ⟨next, hnext, hflow⟩ := Option.map_eq_some_iff.mp h
    obtain ⟨rfl, rfl⟩ := Prod.mk.inj hflow
    obtain rfl := u64Succ_eq_some hnext
    exact .inr (.inr (.inr ⟨rfl, heq, by omega, rfl⟩))

/-- The expected number is accepted while the window has room. -/
theorem admitSeq_next (flow : SessionFlow) (hroom : flow.outstanding < flow.window)
    (hnext : flow.next + 1 < 2 ^ 64) :
    flow.admitSeq flow.next =
      some (.accept, ⟨flow.next + 1, flow.window, flow.outstanding + 1⟩) := by
  have hsucc : u64Succ flow.next = some (flow.next + 1) := if_pos hnext
  simp [admitSeq, hsucc, hroom]

/-! ## The window -/

/-- The states a session can reach by admissions and acks, in any order. -/
inductive Reach (window : ℕ) : SessionFlow → Prop
  | resume {last : ℕ} {flow : SessionFlow} (h : SessionFlow.resume last window = some flow) : Reach window flow
  | admitted {flow flow' : SessionFlow} {clientSeq : ℕ} {verdict : Admit} (h : Reach window flow)
      (hverdict : flow.admitSeq clientSeq = some (verdict, flow')) : Reach window flow'
  | onAcked {flow : SessionFlow} (h : Reach window flow) : Reach window flow.onAcked

/-- The window is the configured one, at least 1, and never overrun. -/
theorem Reach.bounded {window : ℕ} {flow : SessionFlow} (h : Reach window flow) :
    flow.window = max window 1 ∧ flow.outstanding ≤ flow.window := by
  induction h with
  | resume h =>
    obtain ⟨next, -, rfl⟩ := Option.map_eq_some_iff.mp h
    exact ⟨rfl, Nat.zero_le _⟩
  | admitted _ hverdict ih =>
    rcases admit_cases hverdict with ⟨-, -, rfl⟩ | ⟨-, -, rfl⟩ | ⟨-, -, -, rfl⟩ | ⟨-, -, hroom, rfl⟩
    · exact ih
    · exact ih
    · exact ih
    · exact ⟨ih.1, hroom⟩
  | onAcked _ ih => exact ⟨ih.1, Nat.le_trans (Nat.sub_le _ 1) ih.2⟩

/-- A throttled command is admissible as soon as an ack frees a slot. -/
theorem admit_after_throttled {window : ℕ} {flow flow' : SessionFlow} {clientSeq : ℕ}
    (h : Reach window flow) (hverdict : flow.admitSeq clientSeq = some (.throttled, flow'))
    (hnext : clientSeq + 1 < 2 ^ 64) :
    ∃ flow'', flow'.onAcked.admitSeq clientSeq = some (.accept, flow'') := by
  obtain ⟨hwindow, hbound⟩ := h.bounded
  rcases admit_cases hverdict with ⟨hv, -⟩ | ⟨hv, -⟩ | ⟨-, rfl, hfull, rfl⟩ | ⟨hv, -⟩
  · cases hv
  · cases hv
  · have hroom : flow'.onAcked.outstanding < flow'.onAcked.window := by
      show flow'.outstanding - 1 < flow'.window
      omega
    exact ⟨_, admitSeq_next flow'.onAcked hroom hnext⟩
  · cases hv

end SessionFlow

end Ticktape.Gateway
