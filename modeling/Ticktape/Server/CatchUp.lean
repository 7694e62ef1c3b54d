import Ticktape.Server.Fanout
import Ticktape.Transport.GapFill

/-!
# Catching up

Whatever a follower missed, it can still get: a heartbeat tells it how far the publisher has come, and the
retransmitter answers with the frames that are due. One pump brings at least one frame, so finitely many bring all that
was announced.
-/

namespace Ticktape.Server.Fanout

open Ticktape.Lib Ticktape.Core Ticktape.Journal Ticktape.Transport Ticktape.Runtime

variable {svc : Service} {Addr ι : Type}

section CatchUp

variable {config : svc.Config} {peers : List Addr} {c : Fanout svc Addr ι} {stream : Transport.Stream} {r : Reassembler}
  {session : UInt64} {f : Follower svc} {nextSeq : ℕ}

/-- What was announced and is not there is a gap. -/
theorem exists_gap (hlow : ∀ k, k ∈ r.pending → r.next ≤ k) (hnone : r.nextFrame = none)
    (hannounced : r.next < r.announcedNext) : ∃ range, r.gap = some range := by
  have hmissing := Reassembler.next_not_mem hnone
  unfold Reassembler.gap
  cases hhead : r.pending.toList.head? with
  | none => exact ⟨_, if_pos hannounced⟩
  | some entry =>
    have hmem := (Reassembler.pending_head hhead).1
    have hne : entry.1 ≠ r.next := fun heq => hmissing (heq ▸ hmem)
    exact ⟨_, if_pos (Nat.lt_of_le_of_ne (hlow _ hmem) hne.symm)⟩

/-- A heartbeat arrives, and the retransmitter answers with the frame that is due. -/
def fetch (session : UInt64) (nextSeq : ℕ) (frame : Frame) : Round :=
  ⟨some (.ok (.heartbeat session nextSeq)), [.data session [frame]], none, true⟩

/-- Polling with it brings a frame. -/
theorem poll_fetch (h : Copies config session stream f) {frame : Frame} (hseq : frame.seq = f.applied + 1)
    (hannounced : f.applied + 1 < nextSeq) : ∃ got r' rest,
      Receiver.poll f.reassembler [fetch session nextSeq frame] = (.ok (some got), r', rest) := by
  obtain ⟨start, delivered, fed, hinv, hnext⟩ := h.received
  have hlocks : (Packet.heartbeat session nextSeq).session = session ∧ (Packet.data session [frame]).session = session :=
    ⟨rfl, rfl⟩
  obtain ⟨r₁, hbeat⟩ := Reassembler.ingest_ok hinv.locked hlocks.1
  obtain ⟨hnext₁, hsession₁, -, -⟩ := Reassembler.ingest_spec hbeat
  obtain ⟨r₂, hdata⟩ := Reassembler.ingest_ok (r := r₁) (.inr hsession₁) hlocks.2
  have hpending : r₁.pending = f.reassembler.pending ∧ nextSeq ≤ r₁.announcedNext := by
    unfold Reassembler.ingest at hbeat
    simp only at hbeat
    split at hbeat
    · cases hbeat
    · obtain rfl := Except.ok.inj hbeat
      exact ⟨rfl, le_max_right ..⟩
  have hlow : ∀ k, k ∈ r₁.pending → r₁.next ≤ k := by
    rw [hpending.1, hnext₁]
    exact hinv.low
  -- the frame that is due is there once the reply was taken in
  obtain ⟨got, r', hpop⟩ : ∃ got r', r₂.nextFrame = some (got, r') := by
    have hdue := Reassembler.ingest_keeps_next hlow hdata
      (.inr ⟨frame, List.mem_singleton.mpr rfl, by rw [hseq, hnext₁, hnext]⟩)
    rw [← (Reassembler.ingest_spec hdata).1, Std.ExtTreeMap.mem_iff_isSome_getElem?] at hdue
    obtain ⟨got, hgot⟩ := Option.isSome_iff_exists.mp hdue
    refine ⟨got, { r₂ with pending := r₂.pending.erase r₂.next, next := r₂.next + 1 }, ?_⟩
    rw [Reassembler.nextFrame, hgot]
  unfold Receiver.poll
  cases hready : f.reassembler.nextFrame with
  | some popped => exact ⟨popped.1, popped.2, _, rfl⟩
  | none =>
    simp only [Receiver.wait, fetch, Receiver.recv, hbeat]
    cases hready₁ : r₁.nextFrame with
    | some popped => exact ⟨popped.1, popped.2, _, rfl⟩
    | none =>
      obtain ⟨range, hgap⟩ := exists_gap hlow hready₁ (by omega)
      simp only [hgap, Receiver.fillGap, hdata, hpop]
      exact ⟨_, _, _, rfl⟩

/-- A pump with it moves the follower on by one frame. -/
theorem pump_fetch (h : Copies config session stream f) (hfirst : stream.first = 1)
    {frame : Frame} (hget : stream.frames[f.applied]? = some frame) (hannounced : f.applied + 1 < nextSeq)
    (hbelow : nextSeq ≤ stream.past) :
    (f.pump 1 [fetch session nextSeq frame]).2.applied = f.applied + 1 := by
  obtain ⟨hlt, hframe⟩ := List.getElem?_eq_some_iff.mp hget
  have hseq : frame.seq = f.applied + 1 := by
    have hindex := stream.run.getElem hlt
    rw [List.get_eq_getElem, hframe, hfirst] at hindex
    omega
  have hpackets : ∀ round ∈ [fetch session nextSeq frame], ∀ packet ∈ round.packets, packet.Of session stream := by
    intro round hround packet hpacket
    rw [List.mem_singleton.mp hround] at hpacket
    rcases List.mem_cons.mp hpacket with rfl | hpacket
    · exact ⟨rfl, hbelow⟩
    · rw [List.mem_singleton.mp hpacket]
      refine ⟨rfl, fun g hg => ?_⟩
      rw [List.mem_singleton.mp hg]
      exact List.mem_of_getElem? hget
  obtain ⟨got, r', rest, hpoll⟩ := poll_fetch h hseq hannounced
  have hpolled := (Follower.poll_induct (P := fun r => Copies config session stream { f with reassembler := r })
    (fun {r r' packet} hr (hof : packet.Of session stream) hrun => hr.ingest hof hrun) hpackets h).1
  rw [hpoll] at hpolled
  obtain ⟨r₀, hcopy, hpop⟩ := hpolled
  obtain ⟨hgot, -⟩ := hcopy.next hfirst hpop
  have hgot : got.seq = f.applied + 1 := hgot
  rw [Follower.pump, hpoll]
  show (Follower.onFrame { f with reassembler := r' } got).applied = _
  rw [Follower.onFrame, if_pos hgot]
  exact hgot

/-- One more frame after the other, until all that was announced is there. -/
theorem exists_catch_up [DecidableEq ι] (hcaught : Caught config c.leader) (h : Inv config peers c stream) (i : ι)
    {buf : Bytes} (hbuf : buf ∈ c.wire)
    (hdecode : Packet.decode buf = some (.ok (.heartbeat c.publisher.session c.publisher.nextSeq))) :
    ∃ c', Relation.ReflTransGen (Step config peers) c c' ∧ c'.leader = c.leader ∧ c'.publisher = c.publisher ∧
      Inv config peers c' stream ∧ c.publisher.nextSeq ≤ (c'.follower i).applied + 1 := by
  induction hmissing : c.publisher.nextSeq - ((c.follower i).applied + 1) generalizing c with
  | zero => exact ⟨c, .refl, rfl, rfl, h, by omega⟩
  | succ k ih =>
    have hcopy := h.follower i
    have hannounced : (c.follower i).applied + 1 < c.publisher.nextSeq := by omega
    have hlt : (c.follower i).applied < stream.frames.length := by
      have hbelow := h.announced
      rw [Transport.Stream.past, h.first] at hbelow
      omega
    obtain ⟨frame, hget⟩ : ∃ frame, stream.frames[(c.follower i).applied]? = some frame :=
      ⟨_, List.getElem?_eq_getElem hlt⟩
    have hrounds : ∀ round ∈ [fetch c.publisher.session c.publisher.nextSeq frame], round.From c := by
      intro round hround
      rw [List.mem_singleton.mp hround]
      refine ⟨fun packet hpacket => ⟨buf, hbuf, ?_⟩, fun packet hpacket => ⟨[frame], ?_, fun g hg => ?_⟩⟩
      · rw [hdecode, ← Except.ok.inj (Option.some.inj hpacket)]
      · exact List.mem_singleton.mp hpacket
      · rw [List.mem_singleton.mp hg, ← h.frames]
        exact List.mem_of_getElem? hget
    have hmoved := pump_fetch hcopy h.first hget hannounced h.announced
    have hpumped : Copies config c.publisher.session stream
        ((c.follower i).pump 1 [fetch c.publisher.session c.publisher.nextSeq frame]).2 := h.pumped hcaught i hrounds
    have hless : c.publisher.nextSeq - ((Function.update c.follower i
        ((c.follower i).pump 1 [fetch c.publisher.session c.publisher.nextSeq frame]).2 i).applied + 1) = k := by
      rw [Function.update_self, hmoved]
      omega
    obtain ⟨c', hsteps, hleader, hpublisher, hinv', hdone⟩ := ih
      (c := { c with follower := Function.update c.follower i ((c.follower i).pump 1
        [fetch c.publisher.session c.publisher.nextSeq frame]).2 }) hcaught (h.update i hpumped) hbuf hdecode hless
    exact ⟨c', .head (.pumped i 1 _ hrounds) hsteps, hleader, hpublisher, hinv', hdone⟩

end CatchUp

/-- **A follower is never lost**: from every deployment that runs lead to, a heartbeat and pumps bring any one of the
followers to everything the publisher announced; if it has sent all there was, to the state of the leader. -/
theorem followers_can_catch_up [DecidableEq ι] {config : svc.Config} {peers : List Addr} {c : Fanout svc Addr ι}
    (hcodec : svc.Codecs) (h : Reachable config peers c) (hseq : c.leader.seq + 1 < 2 ^ 64) (i : ι) :
    ∃ c', Relation.ReflTransGen (Step config peers) c c' ∧ c'.leader = c.leader ∧
      c.publisher.nextSeq ≤ (c'.follower i).applied + 1 ∧
      (peers ≠ [] → c.stream = [] →
        (c'.follower i).applied = c.leader.seq ∧ (c'.follower i).replica.service = c.leader.service) := by
  have hcaught := h.caught hcodec
  obtain ⟨stream, hinv⟩ := h.inv hcodec hseq
  have hnext : c.publisher.nextSeq < 2 ^ 64 := Nat.lt_of_le_of_lt hinv.announced stream.fits
  obtain ⟨buf, hencode, hdecode⟩ := decode_heartbeat c.publisher.session hnext
  have hbeat : Step config peers c { c with wire := c.wire ++ [buf] } := .heartbeat hencode
  obtain ⟨c', hsteps, hleader, -, hinv', hdone⟩ := exists_catch_up (c := { c with wire := c.wire ++ [buf] }) hcaught
    (hinv.heartbeat hencode) i (List.mem_append_right _ (List.mem_singleton.mpr rfl)) hdecode
  refine ⟨c', .head hbeat hsteps, hleader, hdone, fun hpeers hsent => ?_⟩
  -- everything was announced
  have hcurrent := hinv.current hpeers
  rw [hsent, List.length_nil, Nat.add_zero, Transport.Stream.past, hinv.first] at hcurrent
  have hle := (hinv'.follower i).le
  have hlength : stream.frames.length = c.leader.seq := by
    rw [hinv.frames]
    exact length_published hcaught
  have happlied : (c'.follower i).applied = c.leader.seq := by
    have hdone : c.publisher.nextSeq ≤ (c'.follower i).applied + 1 := hdone
    omega
  refine ⟨happlied, ?_⟩
  have hstate := hinv'.state (hleader ▸ hcaught) i
  have hlast := state_feed hcaught.feed
  rw [length_published hcaught] at hlast
  rw [happlied, hleader] at hstate
  have hstates : publishedTrace c.leader = c.leader.ledger.map fun e => (e.state, e.outputs) := rfl
  rw [hstates, List.map_map] at hlast
  have hsame : (Replica.new config : Replica svc).service = svc.genesis config := rfl
  rw [hsame] at hlast
  exact Option.some.inj (hstate.symm.trans hlast)

/-- A follower that saw nothing of the two frames gets to where the leader is. -/
theorem followers_can_catch_up_of_input : ∃ c c' : Fanout doubler Unit Bool, c.leader.seq = 2 ∧
    Relation.ReflTransGen (Step () [()]) c c' ∧ c'.leader = c.leader ∧ (c'.follower true).applied = c.leader.seq ∧
    (c'.follower true).replica.service = c.leader.service := by
  obtain ⟨c, hreach, hseq, hsent⟩ := exists_fanout
  obtain ⟨c', hsteps, hleader, -, hdone⟩ :=
    followers_can_catch_up doubler_codecs hreach (by rw [hseq]; decide) true
  obtain ⟨happlied, hservice⟩ := hdone (List.cons_ne_nil _ _) hsent
  exact ⟨c, c', hseq, hsteps, hleader, happlied, hservice⟩

end Ticktape.Server.Fanout
