import Ticktape.Core.Frame
import Std.Data.ExtTreeMap.Lemmas

/-!
# The reassembler

A follower's receiving side (`ticktape-transport/src/reassembler.rs`): an unordered, lossy, duplicated
stream of packets goes in, frames come out in seq order. The first copy of a seq is the one that
counts; nothing in a frame says which leader sequenced it, so a copy is a copy whoever sent it.
-/

namespace Ticktape.Transport

open Ticktape.Lib Ticktape.Core Std

/-- Bound on the frames buffered ahead of a gap. -/
def PENDING_CAP : ℕ := 64 * 1024

/-- One datagram on the sequenced stream. -/
inductive Packet where
  | data (session : UInt64) (frames : List Frame)
  /-- `nextSeq` is the next seq the publisher will assign. -/
  | heartbeat (session : UInt64) (nextSeq : ℕ)

namespace Packet

def session : Packet → UInt64
  | data session _ => session
  | heartbeat session _ => session

/-- The frames a packet carries. -/
def frames : Packet → List Frame
  | data _ frames => frames
  | heartbeat _ _ => []

end Packet

/-- What the transport fails with. -/
inductive TransportError where
  | io
  | corrupt (what : String)
  | frame (err : FrameError)
  | sessionMismatch (expected got : UInt64)
  | gapUnrecoverable (first count : ℕ)

/-- The state of the receiving side. -/
structure Reassembler where
  /-- Locked on the first packet seen. -/
  session : Option UInt64
  /-- Next seq to deliver. -/
  next : ℕ
  pending : ExtTreeMap ℕ Frame
  /-- One above the highest seq known to exist. -/
  announcedNext : ℕ
  packetsSeen : ℕ

namespace Reassembler

/-- Expect `first` as the first delivered seq. -/
def new (first : ℕ) : Reassembler := ⟨none, max first 1, ∅, max first 1, 0⟩

/-- Next seq that will be delivered. -/
def nextExpected (r : Reassembler) : ℕ := r.next

/-- Highest seq known to exist upstream. -/
def announcedHighWater (r : Reassembler) : ℕ := r.announcedNext - 1

/-- Take in one frame; a second copy of a seq is discarded. -/
def accept (r : Reassembler) (frame : Frame) : Reassembler :=
  { r with
    announcedNext := max r.announcedNext (frame.seq + 1)
    pending :=
      if frame.seq < r.next ∨ frame.seq ∈ r.pending then r.pending
      else r.pending.insert frame.seq frame }

/-- Drop the farthest-ahead frames until at most `PENDING_CAP` are left. -/
def bound (r : Reassembler) : Reassembler :=
  match r.pending.toList[PENDING_CAP]? with
  | none => r
  | some (cut, _) => { r with pending := r.pending.filter fun seq _ => seq < cut }

/-- Feed one packet, from a feed channel or from a retransmit reply. -/
def ingest (r : Reassembler) (packet : Packet) : Except TransportError Reassembler :=
  let expected := r.session.getD packet.session
  if expected ≠ packet.session then .error (.sessionMismatch expected packet.session)
  else
    let r := { r with session := some expected, packetsSeen := r.packetsSeen + 1 }
    match packet with
    | .heartbeat _ nextSeq => .ok { r with announcedNext := max r.announcedNext nextSeq }
    | .data _ frames => .ok (frames.foldl accept r).bound

/-- Pop the next in-order frame, if it has arrived. -/
def nextFrame (r : Reassembler) : Option (Frame × Reassembler) :=
  match r.pending[r.next]? with
  | none => none
  | some frame => some (frame, { r with pending := r.pending.erase r.next, next := r.next + 1 })

/-- The missing range: frames that exist upstream and have not been received. -/
def gap (r : Reassembler) : Option (ℕ × ℕ) :=
  let upto := match r.pending.toList.head? with
    | some (firstPending, _) => firstPending
    | none => r.announcedNext
  if upto > r.next then some (r.next, upto - r.next) else none

/-! ## What is buffered -/

section Pending

variable {r r' : Reassembler} {seq : ℕ} {frame : Frame}

/-- Whether a second copy of this seq would be discarded. -/
def Seen (r : Reassembler) (seq : ℕ) : Prop := seq < r.next ∨ seq ∈ r.pending

theorem pending_accept {f : Frame} (h : (r.accept f).pending[seq]? = some frame) :
    r.pending[seq]? = some frame ∨ (frame = f ∧ seq = f.seq ∧ ¬ r.Seen f.seq) := by
  simp only [accept] at h
  split at h
  · exact Or.inl h
  · rename_i hnew
    simp only [ExtTreeMap.getElem?_insert, Std.compare_eq_iff_eq] at h
    split at h
    · rename_i heq
      exact Or.inr ⟨(Option.some.inj h).symm, heq.symm, hnew⟩
    · exact Or.inl h

/-- Taking in a frame forgets nothing. -/
theorem Seen.accept (h : r.Seen seq) (f : Frame) : (r.accept f).Seen seq := by
  rcases h with hnext | hmem
  · exact Or.inl hnext
  · refine Or.inr ?_
    simp only [Reassembler.accept]
    split
    · exact hmem
    · exact ExtTreeMap.mem_insert.mpr (Or.inr hmem)

theorem pending_acceptAll {frames : List Frame}
    (h : (frames.foldl accept r).pending[seq]? = some frame) :
    r.pending[seq]? = some frame ∨ (frame ∈ frames ∧ seq = frame.seq ∧ ¬ r.Seen frame.seq) := by
  induction frames generalizing r with
  | nil => exact Or.inl h
  | cons f fs ih =>
    rcases ih h with haccept | ⟨hmem, hseq, hnew⟩
    · rcases pending_accept haccept with hold | ⟨rfl, hseq, hnew⟩
      · exact Or.inl hold
      · exact Or.inr ⟨List.mem_cons_self .., hseq, hnew⟩
    · exact Or.inr ⟨List.mem_cons_of_mem _ hmem, hseq, fun hseen => hnew (hseen.accept f)⟩

theorem pending_bound (h : r.bound.pending[seq]? = some frame) : r.pending[seq]? = some frame := by
  unfold bound at h
  split at h
  · exact h
  · simp only [ExtTreeMap.getElem?_filter] at h
    obtain ⟨hget, -⟩ := Option.pfilter_eq_some_iff.mp h
    exact hget

/-- **What a packet brings**: a frame is buffered because it was before, or because the packet carries
it as the first copy of its seq. -/
theorem pending_ingest {packet : Packet} (hrun : r.ingest packet = .ok r')
    (h : r'.pending[seq]? = some frame) :
    r.pending[seq]? = some frame ∨
      (frame ∈ packet.frames ∧ seq = frame.seq ∧ ¬ r.Seen frame.seq) := by
  unfold ingest at hrun
  simp only at hrun
  split at hrun
  · cases hrun
  · cases packet with
    | heartbeat session nextSeq =>
      cases hrun
      exact Or.inl h
    | data session frames =>
      cases hrun
      have hbrought := pending_acceptAll (pending_bound h)
      exact hbrought

/-- **What is delivered** was buffered. -/
theorem nextFrame_cases (h : r.nextFrame = some (frame, r')) :
    r.pending[r.next]? = some frame ∧
      ∀ {seq : ℕ} {f : Frame}, r'.pending[seq]? = some f → r.pending[seq]? = some f := by
  unfold nextFrame at h
  split at h
  · cases h
  · rename_i hget
    cases h
    refine ⟨hget, fun {seq f} hold => ?_⟩
    simp only [ExtTreeMap.getElem?_erase] at hold
    split at hold
    · cases hold
    · exact hold

end Pending

end Reassembler

end Ticktape.Transport
