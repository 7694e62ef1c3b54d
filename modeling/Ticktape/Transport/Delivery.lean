import Ticktape.Transport.Reassembler
import Ticktape.Journal.Segment

/-!
# Exact delivery

Whatever a network does to the packets of one stream, the reassembler hands out the stream itself: loss,
duplication, reordering, repackaging and eviction only decide how far it gets. A `Schedule` is any
interleaving of packets and pops; `Inv` is what every schedule keeps.
-/

namespace Ticktape.Transport

open Ticktape.Lib Ticktape.Core Ticktape.Journal Std

/-! ## Streams and schedules -/

/-- A stream of frames with consecutive seqs. One past its end is a seq too: it is what the publisher
announces in its heartbeats. -/
structure Stream where
  first : ℕ
  frames : List Frame
  run : SeqRun first frames
  fits : first + frames.length < 2 ^ 64

/-- One past the last seq of the stream. -/
def Stream.past (stream : Stream) : ℕ := stream.first + stream.frames.length

/-- A packet of `session` that carries frames of the stream, or announces at most one past its end. -/
def Packet.Of (session : UInt64) (stream : Stream) : Packet → Prop
  | .data s frames => s = session ∧ ∀ f ∈ frames, f ∈ stream.frames
  | .heartbeat s nextSeq => s = session ∧ nextSeq ≤ stream.past

namespace Reassembler

/-- The states a reassembler that starts at `start` can get into, with the frames it has handed out and
the seqs it has been fed, in order. -/
inductive Schedule (session : UInt64) (stream : Stream) (start : ℕ) :
    Reassembler → List Frame → List ℕ → Prop where
  | new : Schedule session stream start (.new start) [] []
  | ingest {r r' : Reassembler} {delivered : List Frame} {fed : List ℕ} (packet : Packet) :
      Schedule session stream start r delivered fed → packet.Of session stream →
      r.ingest packet = .ok r' →
      Schedule session stream start r' delivered (fed ++ packet.frames.map (·.seq))
  | nextFrame {r r' : Reassembler} {delivered : List Frame} {fed : List ℕ} {frame : Frame} :
      Schedule session stream start r delivered fed → r.nextFrame = some (frame, r') →
      Schedule session stream start r' (delivered ++ [frame]) fed

/-! ## One call at a time -/

section Calls

variable {r r' : Reassembler} {frames : List Frame} {packet : Packet}

@[simp] theorem acceptAll_next : (frames.foldl accept r).next = r.next := by
  induction frames generalizing r with
  | nil => rfl
  | cons f fs ih =>
    rw [List.foldl_cons, ih]
    rfl

@[simp] theorem acceptAll_session : (frames.foldl accept r).session = r.session := by
  induction frames generalizing r with
  | nil => rfl
  | cons f fs ih =>
    rw [List.foldl_cons, ih]
    rfl

/-- The high-water covers what was announced before and every frame taken in, and nothing else. -/
theorem acceptAll_announcedNext_le_iff {bound : ℕ} :
    (frames.foldl accept r).announcedNext ≤ bound ↔
      r.announcedNext ≤ bound ∧ ∀ f ∈ frames, f.seq < bound := by
  induction frames generalizing r with
  | nil => simp
  | cons f fs ih =>
    rw [List.foldl_cons, ih]
    simp only [accept, Nat.max_le, List.forall_mem_cons, and_assoc, Nat.succ_le_iff]

theorem seen_of_acceptAll {seq : ℕ} (h : r.Seen seq) : (frames.foldl accept r).Seen seq := by
  induction frames generalizing r with
  | nil => exact h
  | cons g gs ih => exact ih (h.accept g)

theorem seen_acceptAll {f : Frame} (h : f ∈ frames) : (frames.foldl accept r).Seen f.seq := by
  induction frames generalizing r with
  | nil => cases h
  | cons g gs ih =>
    rcases List.mem_cons.mp h with rfl | h
    · -- seen once it has been offered, and from then on
      apply seen_of_acceptAll (r := r.accept f)
      by_cases hseen : f.seq < r.next ∨ f.seq ∈ r.pending
      · exact Seen.accept hseen f
      · apply Or.inr
        simp only [accept, if_neg hseen]
        exact ExtTreeMap.mem_insert_self
    · exact ih h

@[simp] theorem bound_next : r.bound.next = r.next := by
  unfold bound
  split <;> rfl

@[simp] theorem bound_session : r.bound.session = r.session := by
  unfold bound
  split <;> rfl

@[simp] theorem bound_announcedNext : r.bound.announcedNext = r.announcedNext := by
  unfold bound
  split <;> rfl

/-- **The buffer is bounded.** -/
theorem bound_size : r.bound.pending.size ≤ PENDING_CAP := by
  unfold bound
  split
  · rename_i hnone
    rw [← ExtTreeMap.length_toList]
    exact List.getElem?_eq_none_iff.mp hnone
  · rename_i cut f hcut
    have hsorted : r.pending.toList.Pairwise (fun a b => compare a.1 b.1 = .lt) :=
      ExtTreeMap.ordered_keys_toList
    obtain ⟨hlt, hget⟩ := List.getElem?_eq_some_iff.mp hcut
    simp only
    rw [← ExtTreeMap.length_toList, ExtTreeMap.toList_filter]
    -- nothing from the cut on is kept
    have hdrop : (r.pending.toList.drop PENDING_CAP).filter (fun p => decide (p.1 < cut)) = [] := by
      rw [List.drop_eq_getElem_cons hlt, hget]
      rw [← List.take_append_drop PENDING_CAP r.pending.toList, List.pairwise_append,
        List.drop_eq_getElem_cons hlt, hget, List.pairwise_cons] at hsorted
      rw [List.filter_eq_nil_iff]
      intro p hp
      rcases List.mem_cons.mp hp with rfl | hp
      · simp
      · have := Nat.compare_eq_lt.mp (hsorted.2.1.1 p hp)
        simp
        omega
    calc (r.pending.toList.filter (fun p => decide (p.1 < cut))).length
        = ((r.pending.toList.take PENDING_CAP).filter (fun p => decide (p.1 < cut)) ++
            (r.pending.toList.drop PENDING_CAP).filter (fun p => decide (p.1 < cut))).length := by
          rw [← List.filter_append, List.take_append_drop]
      _ = ((r.pending.toList.take PENDING_CAP).filter (fun p => decide (p.1 < cut))).length := by
          rw [hdrop, List.append_nil]
      _ ≤ PENDING_CAP := Nat.le_trans (List.length_filter_le ..) (List.length_take_le ..)

/-- **Eviction spares the head of the stream**: a seq below which nothing is buffered stays. -/
theorem mem_bound {seq : ℕ} (hlow : ∀ k, k ∈ r.pending → seq ≤ k) (h : seq ∈ r.pending) :
    seq ∈ r.bound.pending := by
  unfold bound
  split
  · exact h
  · rename_i cut f hcut
    have hsorted : r.pending.toList.Pairwise (fun a b => compare a.1 b.1 = .lt) :=
      ExtTreeMap.ordered_keys_toList
    obtain ⟨hlt, hget⟩ := List.getElem?_eq_some_iff.mp hcut
    -- the first of the buffered seqs lies strictly below the cut
    have hpos : 0 < r.pending.toList.length := Nat.lt_of_le_of_lt (Nat.zero_le _) hlt
    have hfirst := List.pairwise_iff_getElem.mp hsorted 0 PENDING_CAP hpos hlt (by decide)
    rw [hget, Nat.compare_eq_lt] at hfirst
    have hmem : (r.pending.toList[0]).1 ∈ r.pending := by
      have hin : r.pending.toList[0] ∈ r.pending.toList := List.getElem_mem hpos
      rw [← Prod.mk.eta (p := r.pending.toList[0])] at hin
      rw [ExtTreeMap.mem_iff_isSome_getElem?,
        ExtTreeMap.mem_toList_iff_getElem?_eq_some.mp hin]
      rfl
    have hle := hlow _ hmem
    rw [ExtTreeMap.mem_filter]
    refine ⟨h, ?_⟩
    simp only [decide_eq_true_eq]
    rw [ExtTreeMap.getKey_eq]
    omega

/-- A packet of the session the reassembler is locked on is taken in. -/
theorem ingest_ok {session : UInt64} (hlock : r.session = none ∨ r.session = some session)
    (hpacket : packet.session = session) : ∃ r', r.ingest packet = .ok r' := by
  have hexpected : r.session.getD packet.session = packet.session := by
    rcases hlock with h | h <;> simp [h, hpacket]
  cases packet <;> simp [ingest, hexpected]

/-- What a packet does, apart from the buffer. -/
theorem ingest_spec (h : r.ingest packet = .ok r') :
    r'.next = r.next ∧ r'.session = some packet.session ∧ r.announcedNext ≤ r'.announcedNext ∧
      ∀ f ∈ packet.frames, f.seq < r'.announcedNext := by
  unfold ingest at h
  simp only at h
  split at h
  · cases h
  · rename_i hsession
    have hsession := Classical.not_not.mp hsession
    cases packet with
    | heartbeat session nextSeq =>
      cases h
      exact ⟨rfl, congrArg some hsession, Nat.le_max_left .., fun f hf => by cases hf⟩
    | data session frames =>
      cases h
      have hbound := acceptAll_announcedNext_le_iff.mp
        (Nat.le_refl (frames.foldl accept { r with
          session := some (r.session.getD session), packetsSeen := r.packetsSeen + 1 }).announcedNext)
      simp only [bound_next, acceptAll_next, bound_session, acceptAll_session, bound_announcedNext]
      exact ⟨trivial, congrArg some hsession, hbound⟩

/-- The high-water goes no further than what the packet announces. -/
theorem ingest_announcedNext_le {session : UInt64} {stream : Stream} {bound : ℕ}
    (h : r.ingest packet = .ok r') (hof : packet.Of session stream)
    (hstream : ∀ f ∈ stream.frames, f.seq < bound) (hpast : stream.past ≤ bound)
    (hle : r.announcedNext ≤ bound) : r'.announcedNext ≤ bound := by
  unfold ingest at h
  simp only at h
  split at h
  · cases h
  · cases packet with
    | heartbeat session nextSeq =>
      cases h
      exact Nat.max_le.mpr ⟨hle, Nat.le_trans hof.2 hpast⟩
    | data session frames =>
      cases h
      rw [bound_announcedNext, acceptAll_announcedNext_le_iff]
      exact ⟨hle, fun f hf => hstream f (hof.2 f hf)⟩

/-- After a packet the buffer is bounded. -/
theorem ingest_size (hcap : r.pending.size ≤ PENDING_CAP) (h : r.ingest packet = .ok r') :
    r'.pending.size ≤ PENDING_CAP := by
  unfold ingest at h
  simp only at h
  split at h
  · cases h
  · cases packet with
    | heartbeat session nextSeq =>
      cases h
      exact hcap
    | data session frames =>
      cases h
      exact bound_size

/-- The frame that is due next is kept if it was buffered or comes with the batch. -/
theorem bound_acceptAll_keeps_next (hlow : ∀ k, k ∈ r.pending → r.next ≤ k)
    (hnext : r.next ∈ r.pending ∨ ∃ f ∈ frames, f.seq = r.next) :
    r.next ∈ (frames.foldl accept r).bound.pending := by
  -- before the eviction the frame is there, and nothing lies below it
  have hseen : (frames.foldl accept r).Seen r.next := by
    rcases hnext with hmem | ⟨f, hf, hseq⟩
    · exact seen_of_acceptAll (Or.inr hmem)
    · rw [← hseq]
      exact seen_acceptAll hf
  rw [Seen, acceptAll_next] at hseen
  apply mem_bound _ (hseen.resolve_left (Nat.lt_irrefl _))
  intro k hk
  rw [ExtTreeMap.mem_iff_isSome_getElem?, Option.isSome_iff_exists] at hk
  obtain ⟨f, hf⟩ := hk
  rcases pending_acceptAll hf with hold | ⟨-, rfl, hnew⟩
  · apply hlow k
    rw [ExtTreeMap.mem_iff_isSome_getElem?, hold]
    rfl
  · exact Nat.le_of_not_lt fun hlt => hnew (Or.inl hlt)

theorem ingest_keeps_next (hlow : ∀ k, k ∈ r.pending → r.next ≤ k) (h : r.ingest packet = .ok r')
    (hnext : r.next ∈ r.pending ∨ ∃ f ∈ packet.frames, f.seq = r.next) : r.next ∈ r'.pending := by
  unfold ingest at h
  simp only at h
  split at h
  · cases h
  · cases packet with
    | heartbeat session nextSeq =>
      cases h
      rcases hnext with hmem | ⟨f, hf, -⟩
      · exact hmem
      · cases hf
    | data session frames =>
      cases h
      have hkept := bound_acceptAll_keeps_next (r := { r with
        session := some (r.session.getD session), packetsSeen := r.packetsSeen + 1 }) hlow hnext
      exact hkept

end Calls

/-! ## Every schedule -/

/-- **What every schedule keeps.** -/
structure Inv (session : UInt64) (stream : Stream) (start : ℕ) (r : Reassembler)
    (delivered : List Frame) (fed : List ℕ) : Prop where
  locked : r.session = none ∨ r.session = some session
  next : r.next = start + delivered.length
  delivered : ∀ i f, delivered[i]? = some f → f ∈ stream.frames ∧ f.seq = start + i
  pending : ∀ seq f, r.pending[seq]? = some f → f ∈ stream.frames ∧ f.seq = seq ∧ r.next ≤ seq
  cap : r.pending.size ≤ PENDING_CAP
  fed : ∀ seq ∈ fed, seq < r.announcedNext
  announced : start ≤ r.announcedNext ∧ r.announcedNext ≤ max start stream.past

theorem Stream.seq_lt (stream : Stream) {f : Frame} (hf : f ∈ stream.frames) :
    f.seq < stream.past := by
  obtain ⟨i, hi, hget⟩ := List.getElem_of_mem hf
  have hrun := stream.run.drop (n := i) (Nat.le_of_lt hi)
  rw [List.drop_eq_getElem_cons hi, hget] at hrun
  rw [hrun.1]
  exact Nat.add_lt_add_left hi _

section Schedules

variable {session : UInt64} {stream : Stream} {start : ℕ} {r r' : Reassembler}
  {delivered : List Frame} {fed : List ℕ} {packet : Packet} {frame : Frame}

theorem Packet.Of.session_eq (h : packet.Of session stream) : packet.session = session := by
  cases packet <;> exact h.1

theorem Packet.Of.mem (h : packet.Of session stream) {f : Frame} (hf : f ∈ packet.frames) :
    f ∈ stream.frames := by
  cases packet with
  | data s frames => exact h.2 f hf
  | heartbeat s nextSeq => cases hf

theorem Inv.low (h : Inv session stream start r delivered fed) : ∀ k, k ∈ r.pending → r.next ≤ k := by
  intro k hk
  rw [ExtTreeMap.mem_iff_isSome_getElem?, Option.isSome_iff_exists] at hk
  obtain ⟨f, hf⟩ := hk
  exact (h.pending k f hf).2.2

/-- A packet of the stream keeps the invariant. -/
theorem Inv.ingest (h : Inv session stream start r delivered fed) (hof : packet.Of session stream)
    (hrun : r.ingest packet = .ok r') :
    Inv session stream start r' delivered (fed ++ packet.frames.map (·.seq)) := by
  obtain ⟨hnext, hsession, hmono, hframes⟩ := ingest_spec hrun
  refine ⟨Or.inr ?_, hnext.trans h.next, h.delivered, ?_, ingest_size h.cap hrun, ?_, ?_, ?_⟩
  · rw [hsession, Packet.Of.session_eq hof]
  · intro seq f hf
    rcases pending_ingest hrun hf with hold | ⟨hmem, rfl, hnew⟩
    · rw [hnext]
      exact h.pending seq f hold
    · refine ⟨Packet.Of.mem hof hmem, rfl, ?_⟩
      rw [hnext]
      exact Nat.le_of_not_lt fun hlt => hnew (Or.inl hlt)
  · intro seq hseq
    rcases List.mem_append.mp hseq with hold | hnew
    · exact Nat.lt_of_lt_of_le (h.fed seq hold) hmono
    · obtain ⟨f, hf, rfl⟩ := List.mem_map.mp hnew
      exact hframes f hf
  · exact Nat.le_trans h.announced.1 hmono
  · exact ingest_announcedNext_le hrun hof
      (fun f hf => Nat.lt_of_lt_of_le (Stream.seq_lt stream hf) (Nat.le_max_right ..))
      (Nat.le_max_right ..) h.announced.2

/-- Popping a frame keeps the invariant. -/
theorem Inv.nextFrame (h : Inv session stream start r delivered fed)
    (hrun : r.nextFrame = some (frame, r')) :
    Inv session stream start r' (delivered ++ [frame]) fed := by
  obtain ⟨hget, -⟩ := nextFrame_cases hrun
  obtain ⟨hmem, hseq, -⟩ := h.pending _ _ hget
  unfold Reassembler.nextFrame at hrun
  rw [hget] at hrun
  cases hrun
  refine ⟨h.locked, ?_, ?_, ?_, ?_, h.fed, h.announced⟩
  · simp only [List.length_append, List.length_singleton]
    rw [h.next, Nat.add_assoc]
  · intro i f hi
    rcases Nat.lt_or_ge i delivered.length with hlt | hge
    · rw [List.getElem?_append_left hlt] at hi
      exact h.delivered i f hi
    · -- the popped frame is the last one
      rw [List.getElem?_append_right hge, List.getElem?_singleton] at hi
      split at hi
      · rename_i hzero
        cases hi
        refine ⟨hmem, ?_⟩
        rw [hseq, h.next]
        omega
      · cases hi
  · intro seq f hf
    simp only [ExtTreeMap.getElem?_erase, Std.compare_eq_iff_eq] at hf
    split at hf
    · cases hf
    · rename_i hne
      obtain ⟨hstream, rfl, hle⟩ := h.pending seq f hf
      exact ⟨hstream, rfl, Nat.lt_of_le_of_ne hle hne⟩
  · exact Nat.le_trans ExtTreeMap.size_erase_le h.cap

theorem Inv.new : Inv session stream (max start 1) (.new start) [] [] := by
  refine ⟨Or.inl rfl, rfl, ?_, ?_, Nat.zero_le _, ?_, Nat.le_refl _, Nat.le_max_left ..⟩
  · intro i f hf
    simp at hf
  · intro seq f hf
    simp [Reassembler.new] at hf
  · intro seq hseq
    cases hseq

/-- **Run lemma.** -/
theorem Schedule.inv (h : Schedule session stream start r delivered fed) :
    Inv session stream (max start 1) r delivered fed := by
  induction h with
  | new => exact Inv.new
  | ingest packet _ hof hrun ih => exact ih.ingest hof hrun
  | nextFrame _ hrun ih => exact ih.nextFrame hrun

/-- **Exact delivery.** After any schedule the frames handed out are the stream's frames `start`,
`start + 1`, … in order, each once and unaltered; the buffer is within its cap; every seq that was fed
and not yet handed out is buffered or still announced; a packet of the stream is never refused, and the
eviction that may follow spares the frame that is due next. No counter leaves its 64 bits. -/
theorem reassembly_exact (hstart : start < 2 ^ 64)
    (h : Schedule session stream start r delivered fed) :
    (∀ i f, delivered[i]? = some f → f ∈ stream.frames ∧ f.seq = max start 1 + i) ∧
    r.nextExpected = max start 1 + delivered.length ∧
    r.pending.size ≤ PENDING_CAP ∧
    (∀ seq ∈ fed, r.nextExpected ≤ seq → seq ∈ r.pending ∨ seq < r.announcedHighWater + 1) ∧
    (∀ packet : Packet, packet.Of session stream → ∃ r', r.ingest packet = .ok r' ∧
      r'.pending.size ≤ PENDING_CAP ∧ r'.nextExpected = r.nextExpected ∧
      (r.nextExpected ∈ r.pending ∨ (∃ f ∈ packet.frames, f.seq = r.nextExpected) →
        r.nextExpected ∈ r'.pending)) ∧
    r.nextExpected < 2 ^ 64 ∧ r.announcedNext < 2 ^ 64 := by
  have hinv := h.inv
  have hpos : 1 ≤ r.announcedNext := Nat.le_trans (Nat.le_max_right start 1) hinv.announced.1
  have hfits := stream.fits
  have hpast : stream.past < 2 ^ 64 := hfits
  refine ⟨hinv.delivered, hinv.next, hinv.cap, ?_, ?_, ?_, ?_⟩
  · intro seq hseq _
    have := hinv.fed seq hseq
    refine Or.inr ?_
    unfold announcedHighWater
    omega
  · intro packet hof
    obtain ⟨r', hrun⟩ := ingest_ok hinv.locked (Packet.Of.session_eq hof)
    exact ⟨r', hrun, ingest_size hinv.cap hrun, (ingest_spec hrun).1,
      ingest_keeps_next hinv.low hrun⟩
  · -- what is due next is the start, or follows a frame of the stream
    show r.next < 2 ^ 64
    rw [hinv.next]
    cases hlast : delivered.getLast? with
    | none =>
      rw [List.getLast?_eq_none_iff.mp hlast, List.length_nil, Nat.add_zero]
      omega
    | some f =>
      rw [List.getLast?_eq_getElem?] at hlast
      obtain ⟨hmem, hseq⟩ := hinv.delivered _ f hlast
      have hlt := Stream.seq_lt stream hmem
      omega
  · have := hinv.announced.2
    omega

end Schedules

/-- A stream of one frame. -/
def tickStream : Stream := ⟨1, [⟨1, 0, 1, .tick, [], one_lt_seqs, nil_payload_le⟩], ⟨rfl, trivial⟩, by decide⟩

/-- Two copies of it and a heartbeat arrive; it is handed out once. -/
theorem reassembly_exact_of_duplicates : ∃ r delivered fed,
    Schedule 7 tickStream 1 r delivered fed ∧ fed = [1, 1] ∧ delivered.length = 1 ∧
    (∀ i f, delivered[i]? = some f → f ∈ tickStream.frames ∧ f.seq = max 1 1 + i) ∧
    r.nextExpected = max 1 1 + delivered.length ∧
    r.pending.size ≤ PENDING_CAP ∧
    (∀ seq ∈ fed, r.nextExpected ≤ seq → seq ∈ r.pending ∨ seq < r.announcedHighWater + 1) ∧
    (∀ packet : Packet, packet.Of 7 tickStream → ∃ r', r.ingest packet = .ok r' ∧
      r'.pending.size ≤ PENDING_CAP ∧ r'.nextExpected = r.nextExpected ∧
      (r.nextExpected ∈ r.pending ∨ (∃ f ∈ packet.frames, f.seq = r.nextExpected) →
        r.nextExpected ∈ r'.pending)) ∧
    r.nextExpected < 2 ^ 64 ∧ r.announcedNext < 2 ^ 64 := by
  have hdata : (Packet.data 7 tickStream.frames).Of 7 tickStream := ⟨rfl, fun _ hf => hf⟩
  have hbeat : (Packet.heartbeat 7 2).Of 7 tickStream := ⟨rfl, Nat.le_refl 2⟩
  have h₀ : Schedule 7 tickStream 1 _ _ _ := Schedule.new
  have h₁ := Schedule.ingest _ h₀ hbeat rfl
  have h₂ := Schedule.ingest _ h₁ hdata rfl
  have h₃ := Schedule.nextFrame h₂ rfl
  have h₄ := Schedule.ingest _ h₃ hdata rfl
  exact ⟨_, _, _, h₄, rfl, rfl, reassembly_exact (by decide) h₄⟩

end Reassembler

end Ticktape.Transport
