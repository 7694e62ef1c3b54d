import Ticktape.Cluster.Election
import Ticktape.Transport.Reassembler
import Ticktape.Transport.Replica

/-!
# A follower at work

`Server::pump` (`ticktape-server/src/lib.rs`) with the receiver's `poll`
(`ticktape-transport/src/net.rs`): packets go into the reassembler, and each frame that comes out in
order is journaled, applied and reported to the co-located acceptor. `Follower.pump_induct` is the rule
for invariants: what every packet taken in and every frame journaled preserves, a pump preserves.
-/

namespace Ticktape.Server

open Ticktape.Lib Ticktape.Core Ticktape.Journal Ticktape.Transport Ticktape.Cluster

/-! ## Fences -/

/-- What the first frame of a new epoch says (`ticktape-cluster/src/epoch.rs`). -/
structure EpochChange where
  epoch : UInt64
  firstSeq : UInt64
  schemaVersion : UInt32

/-- Decode a fence; the older one of two fields carries no schema version. -/
def EpochChange.fromFrame (frame : Frame) : Except CodecError EpochChange :=
  if frame.payload.length ≥ 20 then
    match (decodeAll frame.payload : Except CodecError (UInt64 × UInt64 × UInt32)) with
    | .error err => .error err
    | .ok (epoch, firstSeq, schemaVersion) => .ok ⟨epoch, firstSeq, schemaVersion⟩
  else
    match (decodeAll frame.payload : Except CodecError (UInt64 × UInt64)) with
    | .error err => .error err
    | .ok (epoch, firstSeq) => .ok ⟨epoch, firstSeq, 0⟩

/-! ## The receiver -/

/-- What the sockets and the clock give one turn of the receiver's loop. -/
structure Round where
  /-- The datagram that has arrived, if any, or why it could not be read. -/
  datagram : Option (Except TransportError Packet)
  /-- What a retransmit request made now would bring, and the error that would end it. -/
  replies : List Packet
  failure : Option TransportError
  /-- The time to wait is over. -/
  expired : Bool

/-- The packets a round can bring. -/
def Round.packets (round : Round) : List Packet :=
  match round.datagram with
  | some (.ok packet) => packet :: round.replies
  | _ => round.replies

namespace Receiver

/-- Take in what is on the feed channel. -/
def recv (r : Reassembler) : Option (Except TransportError Packet) → Except TransportError Reassembler
  | none => .ok r
  | some (.error e) => .error e
  | some (.ok packet) => r.ingest packet

/-- Take in retransmit replies, one packet after the other; an error keeps those before it. -/
def fillGap (r : Reassembler) (failure : Option TransportError) :
    List Packet → Option TransportError × Reassembler
  | [] => (failure, r)
  | packet :: rest =>
    match r.ingest packet with
    | .error e => (some e, r)
    | .ok r' => fillGap r' failure rest

/-- Wait for the next in-order frame; no more rounds is the end of the waiting time. -/
def wait (r : Reassembler) :
    List Round → Except TransportError (Option Frame) × Reassembler × List Round
  | [] => (.ok none, r, [])
  | round :: rest =>
    match recv r round.datagram with
    | .error e => (.error e, r, rest)
    | .ok r =>
      match r.nextFrame with
      | some (frame, r) => (.ok (some frame), r, rest)
      | none =>
        match r.gap with
        | none => if round.expired then (.ok none, r, rest) else wait r rest
        | some _ =>
          match fillGap r round.failure round.replies with
          | (some e, r) => (.error e, r, rest)
          | (none, r) =>
            match r.nextFrame with
            | some (frame, r) => (.ok (some frame), r, rest)
            | none => if round.expired then (.ok none, r, rest) else wait r rest

/-- The next in-order frame, waiting for it if it is not there yet. -/
def poll (r : Reassembler) (rounds : List Round) :
    Except TransportError (Option Frame) × Reassembler × List Round :=
  match r.nextFrame with
  | some (frame, r) => (.ok (some frame), r, rounds)
  | none => wait r rounds

end Receiver

/-! ## The follower -/

/-- A server in the follower role. Of its journal, what matters here is which frames it holds; of its
durable acceptor, the high-water it reports. -/
structure Follower (svc : Service) where
  reassembler : Reassembler
  /-- The frames journaled, oldest first. -/
  journal : List Frame
  replica : Replica svc
  applied : ℕ
  acceptor : Acceptor
  epoch : UInt64

namespace Follower

variable {svc : Service}

/-- Rebuild the replica from journaled frames; a refused frame changes nothing. -/
def rebuild (r : Replica svc) (frames : List Frame) : Replica svc :=
  frames.foldl (fun r frame => ((r.apply frame).map Prod.snd).getD r) r

/-- A follower that starts, or starts again, on a journal that holds `frames`. -/
def openFollower (config : svc.Config) (acceptor : Acceptor) (frames : List Frame) :
    Follower svc where
  reassembler := .new (frames.length + 1)
  journal := frames
  replica := rebuild (.new config) frames
  applied := frames.length
  acceptor := acceptor.observeSeq frames.length
  epoch := 1

/-- One frame out of the receiver: journal it, apply it, report it, adopt the epoch of a fence. -/
def onFrame (f : Follower svc) (frame : Frame) : Follower svc :=
  if frame.seq = f.applied + 1 then
    { f with
      journal := f.journal ++ [frame]
      replica := ((f.replica.apply frame).map Prod.snd).getD f.replica
      applied := frame.seq
      acceptor := f.acceptor.observeSeq frame.seq
      epoch := if frame.kind = .epochChange then
          match EpochChange.fromFrame frame with
          | .ok change => max f.epoch change.epoch
          | .error _ => f.epoch
        else f.epoch }
  else f

/-- Poll until the rounds are over, for at most `fuel` polls. -/
def pump (f : Follower svc) : ℕ → List Round → Except TransportError Unit × Follower svc
  | 0, _ => (.ok (), f)
  | fuel + 1, rounds =>
    match Receiver.poll f.reassembler rounds with
    | (.error e, r, _) => (.error e, { f with reassembler := r })
    | (.ok (some frame), r, rest) => pump (onFrame { f with reassembler := r } frame) fuel rest
    | (.ok none, r, rest) =>
      if rest.isEmpty then (.ok (), { f with reassembler := r })
      else pump { f with reassembler := r } fuel rest

/-! ## An induction rule for `pump` -/

section Induct

variable {P : Reassembler → Prop} {allowed : Packet → Prop} {r : Reassembler}

theorem recv_induct (hingest : ∀ {r r' packet}, P r → allowed packet → r.ingest packet = .ok r' → P r')
    {datagram : Option (Except TransportError Packet)} {r' : Reassembler}
    (hall : ∀ packet, datagram = some (.ok packet) → allowed packet) (h : P r)
    (hrun : Receiver.recv r datagram = .ok r') : P r' := by
  match datagram with
  | none => cases hrun; exact h
  | some (.error e) => cases hrun
  | some (.ok packet) => exact hingest h (hall packet rfl) hrun

theorem fillGap_induct
    (hingest : ∀ {r r' packet}, P r → allowed packet → r.ingest packet = .ok r' → P r')
    (failure : Option TransportError) {packets : List Packet} (hall : ∀ p ∈ packets, allowed p)
    (h : P r) : P (Receiver.fillGap r failure packets).2 := by
  induction packets generalizing r with
  | nil => exact h
  | cons packet rest ih =>
    simp only [Receiver.fillGap]
    split
    · exact h
    · rename_i r' hrun
      exact ih (fun p hp => hall p (List.mem_cons_of_mem _ hp))
        (hingest h (hall packet (List.mem_cons_self ..)) hrun)

/-- What a poll that ends in `result` leaves: a state with `P`, or one right after a delivery from
such a state. -/
def Polled (P : Reassembler → Prop) (result : Except TransportError (Option Frame))
    (r : Reassembler) : Prop :=
  match result with
  | .ok (some frame) => ∃ r₀, P r₀ ∧ r₀.nextFrame = some (frame, r)
  | _ => P r

theorem wait_induct
    (hingest : ∀ {r r' packet}, P r → allowed packet → r.ingest packet = .ok r' → P r')
    {rounds : List Round} (hall : ∀ round ∈ rounds, ∀ p ∈ round.packets, allowed p) (h : P r) :
    Polled P (Receiver.wait r rounds).1 (Receiver.wait r rounds).2.1 ∧
      ∀ round ∈ (Receiver.wait r rounds).2.2, round ∈ rounds := by
  induction rounds generalizing r with
  | nil => exact ⟨h, fun _ hr => hr⟩
  | cons round rest ih =>
    have hround := hall round (List.mem_cons_self ..)
    have hrest : ∀ x ∈ rest, x ∈ round :: rest := fun x hx => List.mem_cons_of_mem _ hx
    -- the loop goes on with the rounds that are left
    have hagain : ∀ {r}, P r → Polled P (Receiver.wait r rest).1 (Receiver.wait r rest).2.1 ∧
        ∀ x ∈ (Receiver.wait r rest).2.2, x ∈ round :: rest := by
      intro r hr
      obtain ⟨hpolled, hsub⟩ := ih (fun x hx => hall x (hrest x hx)) hr
      exact ⟨hpolled, fun x hx => hrest x (hsub x hx)⟩
    simp only [Receiver.wait]
    split
    · exact ⟨h, hrest⟩
    rename_i r₁ hrecv
    have h₁ : P r₁ := by
      refine recv_induct hingest (fun packet heq => ?_) h hrecv
      exact hround packet (by simp [Round.packets, heq])
    split
    · exact ⟨⟨r₁, h₁, ‹_›⟩, hrest⟩
    split
    · split
      · exact ⟨h₁, hrest⟩
      · exact hagain h₁
    · have hreplies : ∀ p ∈ round.replies, allowed p := by
        intro p hp
        refine hround p ?_
        unfold Round.packets
        split
        · exact List.mem_cons_of_mem _ hp
        · exact hp
      have h₂ := fillGap_induct hingest round.failure hreplies h₁
      split
      · rename_i hfill
        rw [hfill] at h₂
        exact ⟨h₂, hrest⟩
      · rename_i hfill
        rw [hfill] at h₂
        split
        · exact ⟨⟨_, h₂, ‹_›⟩, hrest⟩
        · split
          · exact ⟨h₂, hrest⟩
          · exact hagain h₂

theorem poll_induct
    (hingest : ∀ {r r' packet}, P r → allowed packet → r.ingest packet = .ok r' → P r')
    {rounds : List Round} (hall : ∀ round ∈ rounds, ∀ p ∈ round.packets, allowed p) (h : P r) :
    Polled P (Receiver.poll r rounds).1 (Receiver.poll r rounds).2.1 ∧
      ∀ round ∈ (Receiver.poll r rounds).2.2, round ∈ rounds := by
  unfold Receiver.poll
  split
  · exact ⟨⟨r, h, ‹_›⟩, fun _ hr => hr⟩
  · exact wait_induct hingest hall h

end Induct

/-- **The induction rule for `pump`.** -/
theorem pump_induct {P : Follower svc → Prop} {allowed : Packet → Prop}
    (hingest : ∀ {f r packet}, P f → allowed packet → f.reassembler.ingest packet = .ok r →
      P { f with reassembler := r })
    (hframe : ∀ {f r frame}, P f → f.reassembler.nextFrame = some (frame, r) →
      P (onFrame { f with reassembler := r } frame))
    {f : Follower svc} {fuel : ℕ} {rounds : List Round}
    (hall : ∀ round ∈ rounds, ∀ p ∈ round.packets, allowed p) (h : P f) :
    P (f.pump fuel rounds).2 := by
  induction fuel generalizing f rounds with
  | zero => exact h
  | succ fuel ih =>
    have hpoll := poll_induct (P := fun r => P { f with reassembler := r })
      (fun {r _ _} hr hp hrun => hingest (f := { f with reassembler := r }) hr hp hrun) hall h
    simp only [pump]
    split
    · rename_i heq
      rw [heq] at hpoll
      exact hpoll.1
    · rename_i frame r rest heq
      rw [heq] at hpoll
      obtain ⟨⟨r₀, h₀, hnext⟩, hsub⟩ := hpoll
      exact ih (fun round hr => hall round (hsub round hr)) 
        (hframe (f := { f with reassembler := r₀ }) h₀ hnext)
    · rename_i r rest heq
      rw [heq] at hpoll
      split
      · exact hpoll.1
      · exact ih (fun round hr => hall round (hpoll.2 round hr)) hpoll.1

end Follower

end Ticktape.Server
