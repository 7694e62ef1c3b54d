import Ticktape.Journal.Frames

/-!
# The tape

What the operations do to the list of frames written, whatever the state of the store: appending
adds its frame, and nothing else that a running node does touches it. These facts need no invariant
and hold under any fault, so a layer that only cares for the history can use them alone.
-/

namespace Ticktape.Journal

open Ticktape.Lib Ticktape.Core

variable {F : Fate → Prop} {P : List Frame → Prop}

/-- The tape satisfies `P`. -/
def OfTape (P : List Frame → Prop) : JStore → Prop := fun s => P s.ghost.tape

theorem appendStable_ofTape (P : List Frame → Prop) : AppendStable (OfTape P) where
  put := fun _ _ _ h => h
  dir := fun _ h => h
  durable := fun _ _ h => h
  window := fun _ _ h => h

theorem jstable_ofTape (P : List Frame → Prop) : JStable (OfTape P) where
  disk := fun _ _ h _ => h
  durable := fun _ _ h => h
  window := fun _ _ h => h

theorem sstable_ofTape (P : List Frame → Prop) : SStable (OfTape P) where
  disk := fun _ _ h _ => h
  oversize := fun _ _ h => h

/-- Frames of a kind that `P` does not mind may be written. -/
theorem keeps_append {frame : Frame} (h : ∀ t, P t → P (t ++ [frame])) :
    Keeps F (OfTape P) (Journal.append frame) :=
  (appendStable_ofTape P).append fun s hs => h s.ghost.tape hs

theorem keeps_compactBelow (cutoff : ℕ) : Keeps F (OfTape P) (Journal.compactBelow cutoff) :=
  (jstable_ofTape P).compactBelow cutoff fun _ h => h

/-- A step that keeps the tape where it is, in front of one that moves it on. -/
theorem wp_keeping {μ ε α : Type} {p : Prog μ JStore ε α} {R : List Frame → Prop} {m : μ} {s : JStore}
    (h : Keeps F (OfTape P) p) (hs : OfTape P s) (himp : ∀ t, P t → R t) :
    wp F p (fun _ _ => OfTape P) (fun _ _ => OfTape R) (OfTape R) m s :=
  wp_mono (h m s hs) (fun _ _ _ h => h) (fun _ _ _ h => himp _ h) fun _ h => himp _ h

/-- A write puts its frames on the tape; one that fails or goes down may have. -/
theorem wp_writeFrames_tape {frames t : List Frame} {j : Journal} {s : JStore} (first last len : ℕ)
    (h : s.ghost.tape = t) :
    wp F (writeFrames frames first last len) (fun _ _ => OfTape (· = t ++ frames))
      (fun _ _ => OfTape fun t' => t' = t ∨ t' = t ++ frames)
      (OfTape fun t' => t' = t ∨ t' = t ++ frames) j s := by
  have before := appendStable_ofTape (· = t)
  have after := appendStable_ofTape (· = t ++ frames)
  have hroll : Keeps F (OfTape (· = t)) (rollSegment first) :=
    keeps_bind before.sync fun _ => before.startSegment _ _ _
  apply wp_bind
  apply wp_mem
  apply wp_seq (wp_keeping (keeps_when hroll) h fun _ => Or.inl)
  intro _ j' s' hs'
  apply wp_bind
  apply wp_mem
  cases j'.current with
  | none => exact wp_panic (Or.inl hs')
  | some c =>
    apply wp_seq (wp_keeping (keeps_io (before.writeAll c.file (encodeAll frames))) hs' fun _ => Or.inl)
    intro _ j'' s'' hs''
    -- the frames are written: from here on they are on the tape
    apply wp_bind
    apply wp_note
    have hrecorded : OfTape (· = t ++ frames)
        { s'' with ghost := { s''.ghost with tape := s''.ghost.tape ++ frames } } := by
      show s''.ghost.tape ++ frames = t ++ frames
      rw [show s''.ghost.tape = t from hs'']
    exact wp_keeping (keeps_bind (keeps_update _) fun _ => after.maybeSync) hrecorded fun _ => Or.inr

theorem wp_append_tape {frame : Frame} {t : List Frame} {j : Journal} {s : JStore}
    (h : s.ghost.tape = t) :
    wp F (Journal.append frame) (fun _ _ => OfTape (· = t ++ [frame]))
      (fun _ _ => OfTape fun t' => t' = t ∨ t' = t ++ [frame])
      (OfTape fun t' => t' = t ∨ t' = t ++ [frame]) j s := by
  apply wp_bind
  apply wp_mem
  apply wp_seq (wp_keeping (P := (· = t)) (keeps_nextSeq _) h fun _ => Or.inl)
  intro expected j' s' hs'
  split
  · exact wp_fail (Or.inl hs')
  · exact wp_writeFrames_tape _ _ _ hs'

/-- A batch goes onto the tape as a whole or not at all. -/
theorem wp_appendBatch_tape {frames t : List Frame} {j : Journal} {s : JStore} (h : s.ghost.tape = t) :
    wp F (Journal.appendBatch frames) (fun _ _ => OfTape (· = t ++ frames))
      (fun _ _ => OfTape fun t' => t' = t ∨ t' = t ++ frames)
      (OfTape fun t' => t' = t ∨ t' = t ++ frames) j s := by
  cases frames with
  | nil => exact wp_pure (show s.ghost.tape = t ++ [] by rw [h, List.append_nil])
  | cons frame rest =>
    apply wp_bind
    apply wp_mem
    apply wp_seq (wp_keeping (P := (· = t)) (keeps_nextSeq _) h fun _ => Or.inl)
    intro expected j' s' hs'
    apply wp_seq (wp_keeping (AppendStable.checkBatch _ _) hs' fun _ => Or.inl)
    intro _ j'' s'' hs''
    exact wp_writeFrames_tape _ _ _ hs''

end Ticktape.Journal
