import Ticktape.Transport.Delivery

/-!
# Filling gaps

The loop a follower closes its gaps with: drain what is in order, ask for what is missing, take it
in, and start over. A fill can be larger than the buffer, so a part of it may be evicted again; but
never the frame that is due next, so every round delivers at least one frame more of those that
were announced.
-/

namespace Ticktape.Transport

open Ticktape.Lib Ticktape.Core Ticktape.Journal Std

/-- The frames of the stream in a range of seqs, as a retransmitter serves them. -/
def Stream.served (stream : Stream) (first count : ℕ) : List Frame :=
  stream.frames.filter fun f => first ≤ f.seq ∧ f.seq < first + count

theorem Stream.mem_served {stream : Stream} {first count : ℕ} {f : Frame} :
    f ∈ stream.served first count ↔ f ∈ stream.frames ∧ first ≤ f.seq ∧ f.seq < first + count := by
  simp [Stream.served]

/-- A stream has a frame for each of its seqs. -/
theorem Stream.exists_frame (stream : Stream) {seq : ℕ} (hfirst : stream.first ≤ seq)
    (hpast : seq < stream.past) : ∃ f ∈ stream.frames, f.seq = seq := by
  have hlt : seq - stream.first < stream.frames.length := by
    rw [Stream.past] at hpast
    omega
  have hrun := stream.run.drop (Nat.le_of_lt hlt)
  rw [List.drop_eq_getElem_cons hlt] at hrun
  refine ⟨stream.frames[seq - stream.first], List.getElem_mem hlt, ?_⟩
  rw [hrun.1]
  omega

namespace Reassembler

theorem nextFrame_size {r r' : Reassembler} {frame : Frame} (h : r.nextFrame = some (frame, r')) :
    r'.pending.size < r.pending.size := by
  unfold nextFrame at h
  split at h
  · cases h
  · next frame hget =>
    cases h
    have hmem : r.next ∈ r.pending := by
      rw [ExtTreeMap.mem_iff_isSome_getElem?, hget]
      rfl
    have hpos : r.pending.size ≠ 0 := by
      intro hzero
      rw [ExtTreeMap.eq_empty_iff_size_eq_zero.mpr hzero] at hmem
      exact ExtTreeMap.not_mem_empty hmem
    rw [ExtTreeMap.size_erase, if_pos (ExtTreeMap.mem_iff_contains.mp hmem)]
    omega

/-- Pop frames until the next one is missing. -/
def drain (r : Reassembler) : List Frame × Reassembler :=
  match _hpop : r.nextFrame with
  | none => ([], r)
  | some (frame, r') =>
    let (frames, r'') := r'.drain
    (frame :: frames, r'')
termination_by r.pending.size
decreasing_by exact nextFrame_size _hpop

/-- The gap-fill loop. `none` is running out of fuel. -/
def fillGaps (session : UInt64) (stream : Stream) :
    ℕ → Reassembler → Option (Except TransportError (List Frame × Reassembler))
  | 0, _ => none
  | fuel + 1, r =>
    let (frames, r) := r.drain
    match r.gap with
    | none => some (.ok (frames, r))
    | some (first, count) =>
      match r.ingest (.data session (stream.served first count)) with
      | .error e => some (.error e)
      | .ok r =>
        (fillGaps session stream fuel r).map fun result =>
          result.map fun (more, r) => (frames ++ more, r)

/-! ## Rounds -/

section Rounds

variable {session : UInt64} {stream : Stream} {start : ℕ} {r r' : Reassembler}
  {delivered : List Frame} {fed : List ℕ} {first count : ℕ}

/-- Every buffered seq has been announced. -/
theorem Schedule.pending_lt (h : Schedule session stream start r delivered fed) :
    ∀ seq ∈ r.pending, seq < r.announcedNext := by
  induction h with
  | new =>
    intro seq hseq
    exact absurd hseq ExtTreeMap.not_mem_empty
  | ingest packet _ _ hrun ih =>
    intro seq hseq
    rw [ExtTreeMap.mem_iff_isSome_getElem?, Option.isSome_iff_exists] at hseq
    obtain ⟨f, hf⟩ := hseq
    obtain ⟨-, -, hmono, hframes⟩ := ingest_spec hrun
    rcases pending_ingest hrun hf with hold | ⟨hmem, rfl, -⟩
    · apply Nat.lt_of_lt_of_le _ hmono
      apply ih
      rw [ExtTreeMap.mem_iff_isSome_getElem?, hold]
      rfl
    · exact hframes f hmem
  | nextFrame _ hrun ih =>
    intro seq hseq
    unfold Reassembler.nextFrame at hrun
    split at hrun
    · cases hrun
    · cases hrun
      exact ih seq (ExtTreeMap.mem_of_mem_erase hseq)

/-- The frame that is due is announced, or the next to be. -/
theorem Schedule.next_le (h : Schedule session stream start r delivered fed) :
    r.next ≤ r.announcedNext := by
  induction h with
  | new => exact Nat.le_refl _
  | ingest packet _ _ hrun ih =>
    obtain ⟨hnext, -, hmono, -⟩ := ingest_spec hrun
    rw [hnext]
    exact Nat.le_trans ih hmono
  | nextFrame hsched hrun ih =>
    unfold Reassembler.nextFrame at hrun
    split at hrun
    · cases hrun
    · next hget =>
      cases hrun
      apply hsched.pending_lt
      rw [ExtTreeMap.mem_iff_isSome_getElem?, hget]
      rfl

/-- Draining pops a part of the schedule, and stops where a frame is missing. -/
theorem Schedule.drain (h : Schedule session stream start r delivered fed) :
    Schedule session stream start r.drain.2 (delivered ++ r.drain.1) fed ∧
      r.drain.2.nextFrame = none ∧ r.drain.2.announcedNext = r.announcedNext ∧
      r.next ≤ r.drain.2.next := by
  induction hsize : r.pending.size using Nat.strong_induction_on generalizing r delivered with
  | _ n ih =>
    unfold Reassembler.drain
    split
    · next hnone => exact ⟨by simpa using h, hnone, rfl, Nat.le_refl _⟩
    · next frame r' hpop =>
      obtain ⟨hsched, hnone, hannounced, hle⟩ :=
        ih _ (hsize ▸ nextFrame_size hpop) (h.nextFrame hpop) rfl
      have hstep : r'.announcedNext = r.announcedNext ∧ r'.next = r.next + 1 := by
        unfold Reassembler.nextFrame at hpop
        split at hpop
        · cases hpop
        · cases hpop
          exact ⟨rfl, rfl⟩
      have hle' : r.next ≤ r'.drain.2.next := by omega
      refine ⟨?_, hnone, hannounced.trans hstep.1, hle'⟩
      rw [List.append_assoc] at hsched
      exact hsched

/-- A frame that is due is popped. -/
theorem Schedule.drain_advances (h : Schedule session stream start r delivered fed)
    (hdue : r.next ∈ r.pending) : r.next < r.drain.2.next := by
  obtain ⟨frame, hframe⟩ := Option.isSome_iff_exists.mp (ExtTreeMap.mem_iff_isSome_getElem?.mp hdue)
  have hpop : r.nextFrame = some (frame, { r with pending := r.pending.erase r.next, next := r.next + 1 }) := by
    simp [Reassembler.nextFrame, hframe]
  have hle := (h.nextFrame hpop).drain.2.2.2
  unfold Reassembler.drain
  split
  · next hnone =>
    rw [hpop] at hnone
    cases hnone
  · next frame' r' hpop' =>
    rw [hpop] at hpop'
    cases hpop'
    exact hle

/-- The head of the buffer is its lowest seq. -/
theorem pending_head {seq : ℕ} {f : Frame} (h : r.pending.toList.head? = some (seq, f)) :
    seq ∈ r.pending ∧ ∀ k ∈ r.pending, seq ≤ k := by
  obtain ⟨rest, hrest⟩ := List.head?_eq_some_iff.mp h
  have hin : ∀ k g, (k, g) ∈ r.pending.toList ↔ r.pending[k]? = some g :=
    fun _ _ => ExtTreeMap.mem_toList_iff_getElem?_eq_some
  have hsorted : r.pending.toList.Pairwise (fun a b => compare a.1 b.1 = .lt) :=
    ExtTreeMap.ordered_keys_toList
  rw [hrest] at hsorted hin
  constructor
  · rw [ExtTreeMap.mem_iff_isSome_getElem?, (hin seq f).mp (List.mem_cons_self ..)]
    rfl
  · intro k hk
    obtain ⟨g, hg⟩ := Option.isSome_iff_exists.mp (ExtTreeMap.mem_iff_isSome_getElem?.mp hk)
    rcases List.mem_cons.mp ((hin k g).mpr hg) with heq | hmem
    · cases heq
      exact Nat.le_refl _
    · exact Nat.le_of_lt (Nat.compare_eq_lt.mp ((List.pairwise_cons.mp hsorted).1 _ hmem))

theorem pending_nil (h : r.pending.toList.head? = none) : r.pending = ∅ := by
  rw [List.head?_eq_none_iff] at h
  rw [ExtTreeMap.eq_empty_iff_size_eq_zero, ← ExtTreeMap.length_toList, h, List.length_nil]

/-- After a drain the frame that is due next is missing. -/
theorem next_not_mem (hdrained : r.nextFrame = none) : r.next ∉ r.pending := by
  unfold Reassembler.nextFrame at hdrained
  split at hdrained
  · next hget =>
    rw [ExtTreeMap.mem_iff_isSome_getElem?, hget]
    simp
  · cases hdrained

/-- **What a gap names**: seqs from the one that is due up to the announced end or to the first
buffered one. -/
theorem Schedule.gap_spec (h : Schedule session stream start r delivered fed)
    (hgap : r.gap = some (first, count)) :
    first = r.next ∧ 0 < count ∧ first + count ≤ r.announcedNext ∧
      ∀ seq ∈ r.pending, first + count ≤ seq := by
  unfold gap at hgap
  cases hhead : r.pending.toList.head? with
  | none =>
    simp only [hhead] at hgap
    obtain ⟨hlt, heq⟩ := Option.ite_none_right_eq_some.mp hgap
    cases heq
    rw [pending_nil hhead]
    exact ⟨rfl, by omega, by omega, fun seq hseq => absurd hseq ExtTreeMap.not_mem_empty⟩
  | some entry =>
    obtain ⟨low, f⟩ := entry
    obtain ⟨hmem, hlow⟩ := pending_head hhead
    have hannounced := h.pending_lt low hmem
    simp only [hhead] at hgap
    obtain ⟨hlt, heq⟩ := Option.ite_none_right_eq_some.mp hgap
    cases heq
    refine ⟨rfl, by omega, by omega, fun seq hseq => ?_⟩
    have := hlow seq hseq
    omega

/-- Nothing is missing: everything announced has been delivered. -/
theorem Schedule.complete (h : Schedule session stream start r delivered fed)
    (hdrained : r.nextFrame = none) (hgap : r.gap = none) :
    r.next = r.announcedNext ∧ r.pending = ∅ := by
  unfold gap at hgap
  cases hhead : r.pending.toList.head? with
  | none =>
    have hle := h.next_le
    refine ⟨Nat.le_antisymm hle (Nat.le_of_not_lt fun hlt => ?_), pending_nil hhead⟩
    simp only [hhead] at hgap
    rw [if_pos hlt] at hgap
    cases hgap
  | some entry =>
    obtain ⟨low, f⟩ := entry
    obtain ⟨hmem, -⟩ := pending_head hhead
    -- a buffered seq is never below the one that is due, which is missing
    have hle := h.inv.low low hmem
    have hne : low ≠ r.next := fun heq => next_not_mem hdrained (heq ▸ hmem)
    simp only [hhead] at hgap
    rw [if_pos (by omega)] at hgap
    cases hgap

/-! ## The loop -/

/-- **One round**: what a drained reassembler misses is taken in, the frame that is due among it. -/
theorem Schedule.refill (h : Schedule session stream start r delivered fed)
    (hfirst : stream.first ≤ max start 1) (hgap : r.gap = some (first, count)) :
    ∃ r' fed', r.ingest (.data session (stream.served first count)) = .ok r' ∧
      Schedule session stream start r' delivered fed' ∧ r'.announcedNext = r.announcedNext ∧
      r'.next = r.next ∧ r.next ∈ r'.pending := by
  obtain ⟨rfl, hcount, hle, -⟩ := h.gap_spec hgap
  have hinv := h.inv
  have hof : (Packet.data session (stream.served r.next count)).Of session stream :=
    ⟨rfl, fun f hf => (Stream.mem_served.mp hf).1⟩
  obtain ⟨r', hrun⟩ := ingest_ok hinv.locked (Packet.Of.session_eq hof)
  obtain ⟨hnext, -, hmono, -⟩ := ingest_spec hrun
  -- what is missing lies within the stream, so the frame that is due is served
  obtain ⟨f, hf, hseq⟩ : ∃ f ∈ stream.frames, f.seq = r.next := by
    apply stream.exists_frame
    · rw [hinv.next]
      omega
    · have := hinv.next
      have := hinv.announced.2
      omega
  have hdue := ingest_keeps_next hinv.low hrun
    (.inr ⟨f, Stream.mem_served.mpr ⟨hf, by omega, by omega⟩, hseq⟩)
  -- and nothing beyond the announced end is
  have hannounced : r'.announcedNext ≤ r.announcedNext := by
    unfold Reassembler.ingest at hrun
    simp only at hrun
    split at hrun
    · cases hrun
    · cases hrun
      rw [bound_announcedNext, acceptAll_announcedNext_le_iff]
      refine ⟨Nat.le_refl _, fun g hg => ?_⟩
      have := (Stream.mem_served.mp hg).2.2
      omega
  exact ⟨r', _, hrun, h.ingest _ hof hrun, Nat.le_antisymm hannounced hmono, hnext, hdue⟩

/-- **The loop terminates**: each round but the last delivers at least one announced frame. -/
theorem Schedule.fillGaps {fuel : ℕ} (h : Schedule session stream start r delivered fed)
    (hfirst : stream.first ≤ max start 1) (hfuel : r.announcedNext - r.drain.2.next < fuel) :
    ∃ frames r' fed', fillGaps session stream fuel r = some (.ok (frames, r')) ∧
      Schedule session stream start r' (delivered ++ frames) fed' ∧
      r'.next = r'.announcedNext ∧ r'.pending = ∅ := by
  induction fuel generalizing r delivered fed with
  | zero => exact absurd hfuel (Nat.not_lt_zero _)
  | succ fuel ih =>
    obtain ⟨hsched, hdrained, hannounced, -⟩ := h.drain
    cases hgap : r.drain.2.gap with
    | none =>
      obtain ⟨hnext, hempty⟩ := hsched.complete hdrained hgap
      refine ⟨r.drain.1, r.drain.2, fed, ?_, hsched, hnext, hempty⟩
      simp only [Reassembler.fillGaps, hgap]
    | some range =>
      obtain ⟨first, count⟩ := range
      obtain ⟨r₁, fed₁, hrun, hsched₁, hannounced₁, hnext₁, hdue⟩ := hsched.refill hfirst hgap
      obtain ⟨hstart, hcount, hle, -⟩ := hsched.gap_spec hgap
      have hadvances := hsched₁.drain_advances (hnext₁ ▸ hdue)
      obtain ⟨more, r', fed', hmore, hsched', hnext, hempty⟩ := ih hsched₁ (by omega)
      refine ⟨r.drain.1 ++ more, r', fed', ?_, ?_, hnext, hempty⟩
      · simp only [Reassembler.fillGaps, hgap, hrun, hmore]
        rfl
      · rw [← List.append_assoc]
        exact hsched'

/-- **Gap filling always completes.** After any schedule of packets and pops of a stream that reaches
back to the starting seq (seqs start at 1, so a stream read from its beginning always does), the loop
ends with everything announced delivered and nothing buffered; and a gap reported after a drain names
only seqs below the announced end that are neither delivered nor buffered. -/
theorem gap_filling_completes (h : Schedule session stream start r delivered fed)
    (hfirst : stream.first ≤ max start 1) :
    (∃ fuel frames r', Reassembler.fillGaps session stream fuel r = some (.ok (frames, r')) ∧
      r'.nextExpected = r'.announcedHighWater + 1 ∧ r'.pending = ∅ ∧
      ∀ seq, max start 1 ≤ seq → seq ≤ r'.announcedHighWater →
        ∃ i f, (delivered ++ frames)[i]? = some f ∧ f ∈ stream.frames ∧ f.seq = seq ∧
          seq = max start 1 + i) ∧
    ∀ first count, r.drain.2.gap = some (first, count) →
      ∀ seq, first ≤ seq → seq < first + count →
        seq < r.drain.2.announcedNext ∧ (∀ f ∈ delivered ++ r.drain.1, f.seq ≠ seq) ∧
          seq ∉ r.drain.2.pending := by
  constructor
  · obtain ⟨frames, r', fed', hrun, hsched, hnext, hempty⟩ :=
      h.fillGaps hfirst (Nat.lt_succ_self (r.announcedNext - r.drain.2.next))
    have hinv := hsched.inv
    have hpos := hinv.announced.1
    have hlast := hinv.next
    refine ⟨_, frames, r', hrun, ?_, hempty, fun seq hge hle => ?_⟩
    · rw [nextExpected, announcedHighWater]
      omega
    · -- the frames handed out are numbered from the start on, up to the announced end
      rw [announcedHighWater] at hle
      have hlt : seq - max start 1 < (delivered ++ frames).length := by omega
      obtain ⟨hmem, hseq⟩ := hinv.delivered _ _ (List.getElem?_eq_getElem hlt)
      exact ⟨_, _, List.getElem?_eq_getElem hlt, hmem, by omega, by omega⟩
  · intro first count hgap seq hge hlt
    obtain ⟨hsched, -, -, -⟩ := h.drain
    obtain ⟨rfl, -, hle, hbuffered⟩ := hsched.gap_spec hgap
    refine ⟨Nat.lt_of_lt_of_le hlt hle, fun f hf hseq => ?_, fun hmem => ?_⟩
    · obtain ⟨i, hi, hget⟩ := List.getElem_of_mem hf
      have hdelivered := (hsched.inv.delivered i f (by rw [List.getElem?_eq_getElem hi, hget])).2
      have hnext := hsched.inv.next
      omega
    · have := hbuffered seq hmem
      omega

end Rounds

/-- A heartbeat announces the only frame of a stream: the loop fetches it. -/
theorem gap_filling_completes_of_heartbeat : ∃ r delivered fed,
    Schedule 7 tickStream 1 r delivered fed ∧ r.pending = ∅ ∧ r.announcedHighWater = 1 ∧
      ∃ fuel frames r', Reassembler.fillGaps 7 tickStream fuel r = some (.ok (frames, r')) ∧
        r'.nextExpected = r'.announcedHighWater + 1 ∧ r'.pending = ∅ := by
  have hbeat : (Packet.heartbeat 7 2).Of 7 tickStream := ⟨rfl, Nat.le_refl 2⟩
  have hnew : Schedule 7 tickStream 1 _ _ _ := Schedule.new
  have hsched := Schedule.ingest _ hnew hbeat rfl
  obtain ⟨fuel, frames, r', hrun, hnext, hempty, -⟩ :=
    (gap_filling_completes hsched (by decide)).1
  exact ⟨_, _, _, hsched, rfl, rfl, fuel, frames, r', hrun, hnext, hempty⟩

end Reassembler

end Ticktape.Transport
