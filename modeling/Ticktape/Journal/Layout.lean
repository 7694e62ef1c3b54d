import Ticktape.Journal.Segment

/-!
# Segment layout

How the frames of the history lie on the segment files, as facts about the listing of segments
alone: which segments are sealed, what the last one holds, and what a power loss leaves of them.

The *tape* is the list of all frames written, frame `i` (from 1) being the one with seq `i`.
-/

namespace Ticktape.Journal

open Ticktape.Lib Ticktape.Core

/-! ## Spans of the tape -/

/-- The frames with seqs from `a` up to but not including `b`. -/
def span (tape : List Frame) (a b : ℕ) : List Frame := (tape.take (b - 1)).drop (a - 1)

section Span

variable {tape : List Frame} {a b c : ℕ}

@[simp] theorem span_self : span tape a a = [] := by
  rw [span, List.drop_eq_nil_iff]
  exact List.length_take_le _ _

theorem span_length (hb : b - 1 ≤ tape.length) : (span tape a b).length = b - 1 - (a - 1) := by
  rw [span, List.length_drop, List.length_take, Nat.min_eq_left hb]

theorem span_append (hab : a ≤ b) (hbc : b ≤ c) : span tape a b ++ span tape b c = span tape a c := by
  have hsplit : tape.take (c - 1) = tape.take (b - 1) ++ (tape.take (c - 1)).drop (b - 1) := by
    conv_lhs => rw [← List.take_append_drop (b - 1) (tape.take (c - 1))]
    rw [List.take_take, Nat.min_eq_left (by omega)]
  by_cases hlen : a - 1 ≤ (tape.take (b - 1)).length
  · rw [span, span, span, ← List.drop_append_of_le_length hlen, ← hsplit]
  · -- the tape ends before `a`: every part is empty
    have hshort : tape.length < a - 1 := by
      rw [List.length_take] at hlen
      omega
    have hnil : ∀ x y, a ≤ x → span tape x y = [] := by
      intro x y hx
      rw [span, List.drop_eq_nil_iff, List.length_take]
      omega
    rw [hnil a b (Nat.le_refl a), hnil b c hab, hnil a c (Nat.le_refl a), List.nil_append]

theorem span_run (h : SeqRun 1 tape) (ha : 1 ≤ a) (hb : b - 1 ≤ tape.length) :
    SeqRun a (span tape a b) := by
  by_cases hab : a ≤ b
  · have hrun := (h.take (b - 1)).drop (n := a - 1) (by
      rw [List.length_take, Nat.min_eq_left hb]
      omega)
    rwa [Nat.add_sub_cancel' ha] at hrun
  · have hnil : span tape a b = [] := by
      rw [span, List.drop_eq_nil_iff, List.length_take]
      omega
    rw [hnil]
    trivial

/-- Frames of a run are found by their seqs. -/
theorem SeqRun.getElem {first i : ℕ} (h : SeqRun first tape) (hi : i < tape.length) :
    (tape.get ⟨i, hi⟩).seq = first + i := by
  have hdrop := h.drop (n := i) (by omega)
  rw [List.drop_eq_getElem_cons hi] at hdrop
  exact hdrop.1

/-- Frames of a run have the seqs of the run. -/
theorem SeqRun.bounds {first : ℕ} (h : SeqRun first tape) {g : Frame} (hg : g ∈ tape) :
    first ≤ g.seq ∧ g.seq < first + tape.length := by
  obtain ⟨i, hi, rfl⟩ := List.mem_iff_getElem.mp hg
  have hseq := h.getElem hi
  simp only [List.get_eq_getElem] at hseq
  omega

/-- The tape from a seq on. -/
theorem SeqRun.filter_ge {first : ℕ} (h : SeqRun first tape) (seq : ℕ) :
    tape.filter (·.seq ≥ seq) = tape.drop (seq - first) := by
  induction tape generalizing first with
  | nil => simp
  | cons f rest ih =>
    obtain ⟨hf, hrest⟩ := h
    have htail := ih hrest
    by_cases hge : seq ≤ first
    · rw [show seq - first = 0 by omega, List.drop_zero, List.filter_cons_of_pos (by simp; omega), htail,
        show seq - (first + 1) = 0 by omega, List.drop_zero]
    · rw [List.filter_cons_of_neg (by simp; omega), htail, show seq - first = seq - (first + 1) + 1 by omega,
        List.drop_succ_cons]

theorem SeqRun.tail_run {first : ℕ} (h : SeqRun first tape) {seq : ℕ} (hge : first ≤ seq) (count : ℕ) :
    SeqRun seq ((tape.drop (seq - first)).take count) := by
  by_cases hlen : seq - first ≤ tape.length
  · have hrun := (h.drop hlen).take count
    rwa [Nat.add_sub_cancel' hge] at hrun
  · rw [List.drop_eq_nil_of_le (by omega), List.take_nil]
    trivial

theorem mem_span {g : Frame} (h : SeqRun 1 tape) (ha : 1 ≤ a) :
    g ∈ span tape a b ↔ g ∈ tape ∧ a ≤ g.seq ∧ g.seq < b := by
  constructor
  · intro hg
    obtain ⟨i, hi, rfl⟩ := List.mem_drop_iff_getElem.mp hg
    rw [List.length_take] at hi
    have hseq := h.getElem (show i + (a - 1) < tape.length by omega)
    simp only [List.get_eq_getElem, Nat.add_comm i] at hseq
    rw [List.getElem_take]
    refine ⟨List.getElem_mem _, ?_, ?_⟩ <;> rw [hseq] <;> omega
  · rintro ⟨hg, hlow, hhigh⟩
    obtain ⟨i, hi, rfl⟩ := List.getElem_of_mem hg
    have hseq := h.getElem hi
    simp only [List.get_eq_getElem] at hseq
    rw [hseq] at hlow hhigh
    refine List.mem_drop_iff_getElem.mpr ⟨i - (a - 1), ?_, ?_⟩
    · rw [List.length_take]
      omega
    · have hidx : a - 1 + (i - (a - 1)) = i := by omega
      simp only [List.getElem_take, hidx]

/-- Only the first `b - 1` frames of the tape matter. -/
theorem span_congr {tape' : List Frame} (h : tape'.take (b - 1) = tape.take (b - 1)) :
    span tape' a b = span tape a b := by
  rw [span, span, h]

theorem span_to_end (n : ℕ) : span tape (n + 1) (tape.length + 1) = tape.drop n := by
  rw [span, Nat.add_sub_cancel, Nat.add_sub_cancel, List.take_length]

end Span

/-! ## Sealed segments -/

/-- The seq at which the segments `l`, followed by one that starts at `b`, start. -/
def startOf : List (ℕ × FileData) → ℕ → ℕ
  | [], b => b
  | (a, _) :: _, _ => a

/-- The segments `l` are synced and hold, without a gap, the frames of the tape from where they
start up to `b`. -/
def Sealed (tape : List Frame) : List (ℕ × FileData) → ℕ → Prop
  | [], _ => True
  | (a, f) :: rest, b => 1 ≤ a ∧ a ≤ startOf rest b ∧ f.unsynced = [] ∧
      (∃ epoch, f.synced = segmentHeaderBytes a epoch ++ encodeAll (span tape a (startOf rest b))) ∧
      Sealed tape rest b

section Sealed

variable {tape : List Frame} {l : List (ℕ × FileData)} {a b : ℕ}

theorem Sealed.unsynced (h : Sealed tape l b) : ∀ p ∈ l, p.2.unsynced = [] := by
  induction l with
  | nil => simp
  | cons p l ih =>
    obtain ⟨-, -, hnone, -, hrest⟩ := h
    simpa [hnone] using ih hrest

theorem Sealed.startOf_le (h : Sealed tape l b) : startOf l b ≤ b := by
  induction l with
  | nil => exact Nat.le_refl b
  | cons p l ih => exact Nat.le_trans h.2.1 (ih h.2.2.2.2)

theorem Sealed.startOf_pos (h : Sealed tape l b) (hb : 1 ≤ b) : 1 ≤ startOf l b := by
  cases l with
  | nil => exact hb
  | cons p l => exact h.1

theorem startOf_append (p : ℕ × FileData) : startOf (l ++ [p]) b = startOf l p.1 := by
  cases l <;> rfl

/-- Sealing the last segment. -/
theorem Sealed.snoc {f : FileData} {epoch : UInt64} (h : Sealed tape l a) (ha : 1 ≤ a)
    (hab : a ≤ b) (hu : f.unsynced = [])
    (hf : f.synced = segmentHeaderBytes a epoch ++ encodeAll (span tape a b)) :
    Sealed tape (l ++ [(a, f)]) b := by
  induction l with
  | nil => exact ⟨ha, hab, hu, ⟨epoch, hf⟩, trivial⟩
  | cons p l ih =>
    obtain ⟨h₁, h₂, h₃, h₄, h₅⟩ := h
    have hstart : startOf (l ++ [(a, f)]) b = startOf l a := startOf_append _
    show 1 ≤ p.1 ∧ p.1 ≤ startOf (l ++ [(a, f)]) b ∧ _ ∧ _ ∧ _
    rw [hstart]
    exact ⟨h₁, h₂, h₃, by rw [List.append_eq, hstart]; exact h₄, ih h₅⟩

/-- Sealed segments only look at the frames below `b`. -/
theorem Sealed.congr {tape' : List Frame} (h : Sealed tape l b)
    (ht : tape'.take (b - 1) = tape.take (b - 1)) : Sealed tape' l b := by
  induction l with
  | nil => trivial
  | cons p l ih =>
    obtain ⟨h₁, h₂, h₃, ⟨epoch, h₄⟩, h₅⟩ := h
    refine ⟨h₁, h₂, h₃, ⟨epoch, ?_⟩, ih h₅⟩
    have hle : startOf l b - 1 ≤ b - 1 := Nat.sub_le_sub_right h₅.startOf_le 1
    have htake : tape'.take (startOf l b - 1) = tape.take (startOf l b - 1) := by
      have := congrArg (List.take (startOf l b - 1)) ht
      rwa [List.take_take, List.take_take, Nat.min_eq_left hle] at this
    rw [h₄, span_congr htake]

/-- A power loss does not touch sealed segments; a survivor of the last one follows them. -/
theorem Sealed.survives (h : Sealed tape l b) {f : FileData} {l' : List (ℕ × FileData)}
    (hl : List.Forall₂ (fun p p' => p'.1 = p.1 ∧ FileData.Survives p.2 p'.2) (l ++ [(a, f)]) l') :
    ∃ f', l' = l ++ [(a, f')] ∧ f.Survives f' := by
  induction l generalizing l' with
  | nil =>
    cases hl with
    | @cons _ p _ _ hp hnil =>
      cases hnil
      exact ⟨p.2, by rw [show p = (a, p.2) from Prod.ext hp.1 rfl]; rfl, hp.2⟩
  | cons r l ih =>
    obtain ⟨-, -, hu, -, hrest⟩ := h
    cases hl with
    | @cons _ p _ _ hp htail =>
      obtain ⟨f', rfl, hs⟩ := ih hrest htail
      exact ⟨f', by rw [show p = r from Prod.ext hp.1 (hp.2.eq_of_synced hu)]; rfl, hs⟩

end Sealed

/-! ## The whole listing -/

/-- The segments are `pre`, sealed, and a last one that starts at `a` and durably holds the
frames up to and including `k` and behind them the bytes `q`. -/
structure Chain (tape : List Frame) (pre : List (ℕ × FileData)) (a k : ℕ) (f : FileData)
    (q : Bytes) : Prop where
  sealed : Sealed tape pre a
  pos : 1 ≤ a
  le : a ≤ k + 1
  lt : a < 2 ^ 64
  bound : k ≤ tape.length
  bytes : ∃ epoch, f.synced =
    segmentHeaderBytes a epoch ++ (encodeAll (span tape a (k + 1)) ++ q)

section Chain

variable {tape : List Frame} {pre : List (ℕ × FileData)} {a k : ℕ} {f : FileData} {q : Bytes}

theorem Chain.congr {tape' : List Frame} (h : Chain tape pre a k f q)
    (ht : tape'.take k = tape.take k) (hk : k ≤ tape'.length) : Chain tape' pre a k f q := by
  refine ⟨h.sealed.congr ?_, h.pos, h.le, h.lt, hk, ?_⟩
  · have hle : a - 1 ≤ k := by have := h.le; omega
    have := congrArg (List.take (a - 1)) ht
    rwa [List.take_take, List.take_take, Nat.min_eq_left hle] at this
  · obtain ⟨epoch, hf⟩ := h.bytes
    exact ⟨epoch, by rw [hf, span_congr (b := k + 1) ht]⟩

theorem Chain.extend (h : Chain tape pre a k f q) (more : List Frame) :
    Chain (tape ++ more) pre a k f q :=
  h.congr (List.take_append_of_le_length h.bound)
    (Nat.le_trans h.bound (by rw [List.length_append]; omega))

theorem Chain.of_take {n : ℕ} (h : Chain (tape.take n) pre a k f q) : Chain tape pre a k f q := by
  have hk := h.bound
  rw [List.length_take] at hk
  exact h.congr (by rw [List.take_take, Nat.min_eq_left (by omega)]) (by omega)

theorem Chain.take {n : ℕ} (h : Chain tape pre a k f q) (hn : k ≤ n) :
    Chain (tape.take n) pre a k f q :=
  h.congr (by rw [List.take_take, Nat.min_eq_left hn])
    (by rw [List.length_take]; have := h.bound; omega)

/-- Once the last segment is wholly synced it can be sealed. -/
theorem Chain.seal (h : Chain tape pre a k f []) (hu : f.unsynced = []) :
    Sealed tape (pre ++ [(a, f)]) (k + 1) := by
  obtain ⟨epoch, hf⟩ := h.bytes
  rw [List.append_nil] at hf
  exact h.sealed.snoc h.pos h.le hu hf

/-- A fresh segment behind sealed ones. -/
theorem Chain.fresh {b : ℕ} {epoch : UInt64} (h : Sealed tape pre (b + 1)) (hb : b ≤ tape.length)
    (hlt : b + 1 < 2 ^ 64) (hf : f.synced = segmentHeaderBytes (b + 1) epoch) : Chain tape pre (b + 1) b f [] := by
  refine ⟨h, by omega, Nat.le_refl _, hlt, hb, epoch, ?_⟩
  rw [hf, span_self, encodeAll_nil, List.append_nil, List.append_nil]

/-- The last segment after more of it was synced. -/
theorem Chain.grow {n : ℕ} {f' : FileData} (h : Chain tape pre a k f []) (hkn : k ≤ n)
    (hn : n ≤ tape.length)
    (hf : f'.synced = f.synced ++ encodeAll (span tape (k + 1) (n + 1))) :
    Chain tape pre a n f' [] := by
  obtain ⟨epoch, hbytes⟩ := h.bytes
  refine ⟨h.sealed, h.pos, by have := h.le; omega, h.lt, hn, epoch, ?_⟩
  rw [hf, hbytes, List.append_nil, List.append_nil, List.append_assoc, ← encodeAll_append,
    span_append h.le (by omega)]

/-- **Power loss of the last segment**: of the frames behind `k` a prefix survives, and then
nothing or bytes that no reader accepts. -/
theorem Chain.survives {f' : FileData} (h : Chain tape pre a k f [])
    (hu : f.unsynced = encodeAll (tape.drop k)) (hs : f.Survives f') :
    ∃ k' q, k ≤ k' ∧ Chain tape pre a k' f' q ∧ f'.unsynced = [] ∧
      (q = [] ∨ ∃ e, Frame.readFrom q = .error e) := by
  obtain ⟨q₀, htorn, rfl⟩ := hs
  rw [hu] at htorn
  obtain ⟨i, q, hi, rfl, hq⟩ := encodeAll_torn _ htorn
  rw [List.length_drop] at hi
  obtain ⟨epoch, hbytes⟩ := h.bytes
  have hspan : (tape.drop k).take i = span tape (k + 1) (k + i + 1) := by
    rw [span, Nat.add_sub_cancel, Nat.add_sub_cancel, List.take_drop]
  refine ⟨k + i, q, Nat.le_add_right k i, ⟨h.sealed, h.pos, by have := h.le; omega, h.lt, ?_, epoch, ?_⟩,
    rfl, hq⟩
  · have := h.bound
    omega
  · rw [hspan]
    show f.synced ++ _ = _
    rw [hbytes, List.append_nil, List.append_assoc, ← List.append_assoc (encodeAll _) _ q,
      ← encodeAll_append, span_append h.le (by omega)]

/-- Truncating the damaged tail of the last segment. -/
theorem Chain.truncate (h : Chain tape pre a k f q) (hu : f.unsynced = []) :
    Chain tape pre a k (f.truncate (f.combined.length - q.length)) [] := by
  obtain ⟨epoch, hbytes⟩ := h.bytes
  refine ⟨h.sealed, h.pos, h.le, h.lt, h.bound, epoch, ?_⟩
  have hcomb : f.combined = (segmentHeaderBytes a epoch ++ encodeAll (span tape a (k + 1))) ++ q := by
    rw [FileData.combined, hu, List.append_nil, hbytes, List.append_assoc]
  show f.combined.take _ = _
  rw [hcomb, List.length_append, Nat.add_sub_cancel, List.take_left, List.append_nil]

end Chain

end Ticktape.Journal
