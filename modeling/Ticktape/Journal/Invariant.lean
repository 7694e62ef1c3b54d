import Ticktape.Journal.Journal
import Ticktape.Journal.Layout

/-!
# The journal invariant

`JInv t j s`: the open journal `j` on the store `s` holds the frames `t`. `JLoss s`: what a power
loss can leave of such a store, at any point of any operation. A store is *intact* when its
segments hold a prefix of the tape (and perhaps a damaged tail); the other two forms are the
windows in which an operation leaves the segment files incomplete: a segment without a whole
header, and a reseated segment next to older ones.
-/

namespace Ticktape.Journal

open Ticktape.Lib Ticktape.Core

/-- The segments of a store. -/
abbrev segs (s : JStore) : List (ℕ × FileData) := filesOf .seg s.disk

/-- How the frames `t` lie on the store of an open journal. -/
def Holds (t : List Frame) (j : Journal) (s : JStore) : Prop :=
  match j.current with
  | none => segs s = [] ∧ t = [] ∧ s.ghost.durable = 0
  | some c => ∃ pre a f k, segs s = pre ++ [(a, f)] ∧ c.file = a ∧ Chain t pre a k f [] ∧
      f.unsynced = encodeAll (t.drop k) ∧ s.ghost.durable ≤ k ∧
      startOf pre a ≤ s.ghost.cutoff + 1 ∧ (j.dirty = false → k = t.length)

/-- **The invariant of an open journal.** The frames `t` it holds are the tape, or, between
opening and resuming, the part of the tape that survived. -/
structure JInv (t : List Frame) (j : Journal) (s : JStore) : Prop where
  run : SeqRun 1 s.ghost.tape
  part : ∃ n, t = s.ghost.tape.take n
  last : j.lastSeq = t.length
  holds : Holds t j s

/-- Nothing is waiting for a sync. -/
def Settled (s : JStore) : Prop := ∀ k f, s.disk.get k = some f → f.unsynced = []

/-- The segments hold the first `k` frames of the tape, from the first segment on. -/
def IntactTo (s : JStore) (k : ℕ) : Prop :=
  (segs s = [] ∧ k = 0) ∨ ∃ pre a f q, segs s = pre ++ [(a, f)] ∧ Chain s.ghost.tape pre a k f q ∧
    (q = [] ∨ ∃ e, Frame.readFrom q = .error e) ∧ startOf pre a ≤ s.ghost.cutoff + 1

/-- A store whose segments can be opened, with at least every synced frame. -/
def Intact (s : JStore) : Prop := ∃ k, IntactTo s k ∧ s.ghost.durable ≤ k

/-- The newest segment has no whole header. -/
def HeaderTorn (s : JStore) : Prop :=
  s.ghost.window ≠ .none ∧ ∃ pre b a f, segs s = pre ++ [(a, f)] ∧
    Sealed s.ghost.tape pre b ∧ b - 1 ≤ s.ghost.tape.length ∧ b < 2 ^ 64 ∧
    ∀ segment, ∃ e, parseSegmentHeader segment f.combined = .error e

/-- A reseated segment stands next to older ones, with a hole between them. -/
def Hole (s : JStore) : Prop :=
  s.ghost.window = .reseat ∧ ∃ pre b a f epoch, pre ≠ [] ∧ segs s = pre ++ [(a, f)] ∧
    Sealed s.ghost.tape pre b ∧ b - 1 ≤ s.ghost.tape.length ∧ b < a ∧ a < 2 ^ 64 ∧
    f.combined = segmentHeaderBytes a epoch

/-- **What a power loss leaves.** -/
structure JLoss (s : JStore) : Prop where
  settled : Settled s
  run : SeqRun 1 s.ghost.tape
  shape : Intact s ∨ HeaderTorn s ∨ Hole s

/-- The process may go down here. -/
def JCrash (s : JStore) : Prop := ∀ s', s.PowerLoss s' → JLoss s'

/-! ## Losing power -/

theorem settled_of_powerLoss {s s' : JStore} (h : s.PowerLoss s') : Settled s' := by
  intro k f' hf'
  obtain ⟨f, -, hs⟩ := h.1.of_some hf'
  exact hs.unsynced_eq

/-- A settled store survives unchanged. -/
theorem Settled.segs_eq {s s' : JStore} (h : Settled s) (hl : s.PowerLoss s') (e : Ext) :
    filesOf e s'.disk = filesOf e s.disk := by
  refine filesOf_congr fun n => ?_
  have hrel := hl.1 (.numbered e n)
  cases hd : s.disk.get (.numbered e n) with
  | none =>
    cases hd' : s'.disk.get (.numbered e n) with
    | none => rfl
    | some f' => rw [hd, hd'] at hrel; cases hrel
  | some f =>
    obtain ⟨f', hf', hs⟩ := hl.1.some hd
    rw [hf', hs.eq_of_synced (h _ _ hd)]

/-- Losing power again changes nothing. -/
theorem JLoss.crash {s : JStore} (h : JLoss s) : JCrash s := by
  intro s' hl
  have hsegs : segs s' = segs s := h.settled.segs_eq hl .seg
  refine ⟨settled_of_powerLoss hl, hl.2 ▸ h.run, ?_⟩
  rcases h.shape with hi | hh | ho
  · refine Or.inl ?_
    unfold Intact IntactTo at hi ⊢
    rwa [hsegs, hl.2]
  · refine Or.inr (Or.inl ?_)
    unfold HeaderTorn at hh ⊢
    rwa [hsegs, hl.2]
  · refine Or.inr (Or.inr ?_)
    unfold Hole at ho ⊢
    rwa [hsegs, hl.2]

/-- The listing after a loss: sealed segments as they were, and a survivor of the last one. -/
theorem segs_powerLoss {s s' : JStore} {tape : List Frame} {pre : List (ℕ × FileData)} {a b : ℕ}
    {f : FileData} (hl : s.PowerLoss s') (hsegs : segs s = pre ++ [(a, f)])
    (hpre : Sealed tape pre b) : ∃ f', segs s' = pre ++ [(a, f')] ∧ f.Survives f' := by
  have hall := filesOf_powerLoss (e := .seg) hl.1
  rw [show filesOf .seg s.disk = pre ++ [(a, f)] from hsegs] at hall
  exact hpre.survives hall

/-- **An open journal may lose power.** -/
theorem JInv.crash {t : List Frame} {j : Journal} {s : JStore} (h : JInv t j s) : JCrash s := by
  intro s' hl
  refine ⟨settled_of_powerLoss hl, hl.2 ▸ h.run, Or.inl ?_⟩
  have hholds := h.holds
  unfold Holds at hholds
  split at hholds
  · obtain ⟨hsegs, -, hd⟩ := hholds
    refine ⟨0, Or.inl ⟨?_, rfl⟩, by rw [hl.2, hd]⟩
    have hall := filesOf_powerLoss (e := .seg) hl.1
    rw [show filesOf .seg s.disk = [] from hsegs] at hall
    exact List.forall₂_nil_left_iff.mp hall
  · obtain ⟨pre, a, f, k, hsegs, -, hchain, hu, hd, hfloor, -⟩ := hholds
    obtain ⟨f', hsegs', hs⟩ := segs_powerLoss hl hsegs hchain.sealed
    obtain ⟨k', q, hkk', hchain', -, hq⟩ := hchain.survives hu hs
    obtain ⟨n, rfl⟩ := h.part
    refine ⟨k', Or.inr ⟨pre, a, f', q, hsegs', ?_, hq, by rw [hl.2]; exact hfloor⟩, ?_⟩
    · rw [hl.2]
      exact hchain'.of_take
    · rw [hl.2]
      omega

/-! ## Inside `startSegment` -/

/-- A new segment file stands behind sealed ones and has at most its header. -/
structure Starting (s : JStore) (pre : List (ℕ × FileData)) (b a : ℕ) (f : FileData) : Prop where
  run : SeqRun 1 s.ghost.tape
  listing : segs s = pre ++ [(a, f)]
  sealed : Sealed s.ghost.tape pre b
  pos : 1 ≤ b
  le : b ≤ a
  lt : a < 2 ^ 64
  bound : a - 1 ≤ s.ghost.tape.length
  durable : s.ghost.durable ≤ b - 1
  floor : startOf pre a ≤ s.ghost.cutoff + 1
  window : s.ghost.window ≠ .none ∨ ∃ epoch, f = ⟨segmentHeaderBytes a epoch, []⟩
  reseat : b < a → s.ghost.window = .reseat
  bytes : ∃ epoch n, f = ⟨[], (segmentHeaderBytes a epoch).take n⟩ ∨
    f = ⟨segmentHeaderBytes a epoch, []⟩

theorem Starting.survivor {s : JStore} {pre : List (ℕ × FileData)} {b a : ℕ} {f f' : FileData}
    (h : Starting s pre b a f) (hs : f.Survives f') :
    (∃ epoch, f'.combined = segmentHeaderBytes a epoch ∧ f'.unsynced = []) ∨
      (s.ghost.window ≠ .none ∧
        ∀ segment, ∃ e, parseSegmentHeader segment f'.combined = .error e) := by
  have hcomb : ∀ q : Bytes, (FileData.mk q []).combined = q := fun q => List.append_nil q
  rcases h.window with hwin | ⟨epoch, rfl⟩
  · obtain ⟨epoch, n, rfl | rfl⟩ := h.bytes
    · obtain ⟨q, hq, rfl⟩ := hs
      rw [List.nil_append, hcomb]
      have htorn : Torn (segmentHeaderBytes a epoch) q := by
        have := hq.append_right ((segmentHeaderBytes a epoch).drop n)
        rwa [List.take_append_drop] at this
      by_cases hwhole : q = segmentHeaderBytes a epoch
      · exact Or.inl ⟨epoch, hwhole, rfl⟩
      · exact Or.inr ⟨hwin, fun segment =>
          (parseSegmentHeader_torn htorn segment).resolve_left hwhole⟩
    · rw [hs.eq_of_synced rfl]
      exact Or.inl ⟨epoch, hcomb _, rfl⟩
  · rw [hs.eq_of_synced rfl]
    exact Or.inl ⟨epoch, hcomb _, rfl⟩

/-- **A segment that is being started may lose power.** -/
theorem Starting.crash {s : JStore} {pre : List (ℕ × FileData)} {b a : ℕ} {f : FileData}
    (h : Starting s pre b a f) : JCrash s := by
  intro s' hl
  refine ⟨settled_of_powerLoss hl, hl.2 ▸ h.run, ?_⟩
  obtain ⟨f', hsegs', hs⟩ := segs_powerLoss hl h.listing h.sealed
  rcases h.survivor hs with ⟨epoch, hbytes, hu⟩ | ⟨hwin, htorn⟩
  · have hsynced : f'.synced = segmentHeaderBytes a epoch := by
      rw [← hbytes, FileData.combined, hu, List.append_nil]
    have ha : 1 ≤ a := Nat.le_trans h.pos h.le
    have hstart : a - 1 + 1 = a := Nat.sub_add_cancel ha
    by_cases hhole : b < a ∧ pre ≠ []
    · refine Or.inr (Or.inr ⟨hl.2 ▸ h.reseat hhole.1, pre, b, a, f', epoch, hhole.2, hsegs', ?_, ?_,
        hhole.1, h.lt, hbytes⟩)
      · rw [hl.2]
        exact h.sealed
      · rw [hl.2]
        have := h.bound
        omega
    · -- no hole: the new segment continues the old ones, or there are none
      have hsealed : Sealed s'.ghost.tape pre a := by
        rw [hl.2]
        by_cases hlt : b < a
        · rw [show pre = [] from Classical.not_not.mp fun hne => hhole ⟨hlt, hne⟩]
          trivial
        · rw [show a = b from by have := h.le; omega]
          exact h.sealed
      rw [← hstart] at hsealed hsynced
      refine Or.inl ⟨a - 1, Or.inr ⟨pre, a, f', [], hsegs', ?_, Or.inl rfl, ?_⟩, ?_⟩
      · have hchain := Chain.fresh (f := f') hsealed (by rw [hl.2]; exact h.bound)
          (by rw [hstart]; exact h.lt) hsynced
        rwa [hstart] at hchain
      · rw [hl.2]
        exact h.floor
      · rw [hl.2]
        have := h.durable
        have := h.le
        omega
  · have := h.bound
    have := h.le
    have := h.lt
    refine Or.inr (Or.inl ⟨hl.2 ▸ hwin, pre, b, a, f', hsegs', ?_, ?_, by omega, htorn⟩)
    · rw [hl.2]
      exact h.sealed
    · rw [hl.2]
      omega

end Ticktape.Journal
