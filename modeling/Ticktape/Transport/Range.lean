import Ticktape.Transport.Delivery
import Ticktape.Transport.Wire

/-!
# The top of the seq range

The seqs of a stream come from the network, and its arithmetic is that of `u64`. Here the
reassembler's additions and subtraction are the checked ones of `Packet.decode`: `none` is a sum
that does not fit, or a difference below zero.

Only the frame with the largest seq can make one fail. The reader adds one to it when the packet
goes on behind it, and the reassembler when the packet ends with it (`runs_iff_below_top`);
the receiver's own counter and the gap it reports never get there.
-/

namespace Ticktape.Transport

open Ticktape.Lib Ticktape.Core Ticktape.Journal Std

/-- A subtraction of `u64`. -/
def subU64 (a b : ℕ) : Option ℕ := if b ≤ a then some (a - b) else none

namespace Reassembler

/-! ## The operations in `u64` -/

/-- Take in one frame. -/
def acceptU64 (r : Reassembler) (frame : Frame) : Option Reassembler :=
  match addU64 frame.seq 1 with
  | none => none
  | some after => some { r with
      announcedNext := max r.announcedNext after
      pending :=
        if frame.seq < r.next ∨ frame.seq ∈ r.pending then r.pending
        else r.pending.insert frame.seq frame }

/-- Take in the frames of a packet one after the other. -/
def acceptAllU64 (r : Reassembler) : List Frame → Option Reassembler
  | [] => some r
  | frame :: frames =>
    match r.acceptU64 frame with
    | none => none
    | some r' => r'.acceptAllU64 frames

/-- Feed one packet. -/
def ingestU64 (r : Reassembler) (packet : Packet) : Option (Except TransportError Reassembler) :=
  let expected := r.session.getD packet.session
  if expected ≠ packet.session then some (.error (.sessionMismatch expected packet.session))
  else
    let r := { r with session := some expected, packetsSeen := r.packetsSeen + 1 }
    match packet with
    | .heartbeat _ nextSeq => some (.ok { r with announcedNext := max r.announcedNext nextSeq })
    | .data _ frames =>
      match r.acceptAllU64 frames with
      | none => none
      | some r' => some (.ok r'.bound)

/-- Pop the next in-order frame, if it has arrived. -/
def nextFrameU64 (r : Reassembler) : Option (Option (Frame × Reassembler)) :=
  match r.pending[r.next]? with
  | none => some none
  | some frame =>
    match addU64 r.next 1 with
    | none => none
    | some next => some (some (frame, { r with pending := r.pending.erase r.next, next := next }))

/-- Where the missing range would end: at what is buffered ahead, or at what was announced. -/
def upto (r : Reassembler) : ℕ :=
  match r.pending.toList.head? with
  | some (firstPending, _) => firstPending
  | none => r.announcedNext

/-- The missing range. -/
def gapU64 (r : Reassembler) : Option (Option (ℕ × ℕ)) :=
  if r.upto > r.next then
    match subU64 r.upto r.next with
    | none => none
    | some count => some (some (r.next, count))
  else some none

/-- What is called on the receiving side. -/
inductive Call where
  /-- Bytes that arrived: decoded and, when accepted, ingested. -/
  | packet (bytes : Bytes)
  | nextFrame
  | gap

/-- One call; `none` is an overflow. -/
def call (r : Reassembler) : Call → Option Reassembler
  | .packet bytes =>
    match Packet.decode bytes with
    | none => none
    | some (.error _) => some r
    | some (.ok packet) =>
      match r.ingestU64 packet with
      | none => none
      | some (.error _) => some r
      | some (.ok r') => some r'
  | .nextFrame =>
    match r.nextFrameU64 with
    | none => none
    | some none => some r
    | some (some (_, r')) => some r'
  | .gap =>
    match r.gapU64 with
    | none => none
    | some _ => some r

/-- Calls one after the other, up to the first overflow. -/
def calls (r : Reassembler) : List Call → Option Reassembler
  | [] => some r
  | c :: cs =>
    match r.call c with
    | none => none
    | some r' => r'.calls cs

/-! ## Without an overflow they are the reassembler's -/

variable {r r' : Reassembler}

theorem acceptU64_some {frame : Frame} (h : r.acceptU64 frame = some r') :
    r' = r.accept frame ∧ frame.seq + 1 < 2 ^ 64 := by
  unfold acceptU64 addU64 at h
  split at h
  · cases h
  next after hafter =>
  split at hafter
  · obtain rfl := Option.some.inj hafter
    exact ⟨(Option.some.inj h).symm, by assumption⟩
  · cases hafter

theorem acceptAllU64_some {frames : List Frame} (h : r.acceptAllU64 frames = some r') :
    r' = frames.foldl accept r ∧ ∀ f ∈ frames, f.seq + 1 < 2 ^ 64 := by
  induction frames generalizing r with
  | nil => exact ⟨(Option.some.inj h).symm, by simp⟩
  | cons f fs ih =>
    rw [acceptAllU64] at h
    split at h
    · cases h
    next r₁ haccept =>
    obtain ⟨rfl, hf⟩ := acceptU64_some haccept
    obtain ⟨rfl, hfs⟩ := ih h
    exact ⟨rfl, by simpa using ⟨hf, hfs⟩⟩

/-- An overflow is at the frame with the largest seq. -/
theorem acceptAllU64_none {frames : List Frame} :
    r.acceptAllU64 frames = none ↔ ∃ f ∈ frames, f.seq + 1 = 2 ^ 64 := by
  induction frames generalizing r with
  | nil => simp [acceptAllU64]
  | cons f fs ih =>
    have hlt := f.seq_lt
    rw [acceptAllU64, acceptU64, addU64]
    by_cases htop : f.seq + 1 < 2 ^ 64
    · rw [if_pos htop]
      simp only [List.mem_cons, exists_eq_or_imp]
      rw [ih]
      exact ⟨Or.inr, fun h => h.resolve_left fun heq => by omega⟩
    · rw [if_neg htop]
      exact ⟨fun _ => ⟨f, List.mem_cons_self .., by omega⟩, fun _ => rfl⟩

/-- Packets that make no sum overflow are ingested as ever. -/
theorem ingestU64_some {packet : Packet} {result : Except TransportError Reassembler}
    (h : r.ingestU64 packet = some result) : result = r.ingest packet := by
  unfold ingestU64 at h
  unfold ingest
  simp only at h ⊢
  split at h
  next hsession =>
    rw [if_pos hsession]
    exact (Option.some.inj h).symm
  next hsession =>
    rw [if_neg hsession]
    cases packet with
    | heartbeat session nextSeq => exact (Option.some.inj h).symm
    | data session frames =>
      simp only at h
      split at h
      · cases h
      next r' haccept =>
      rw [(acceptAllU64_some haccept).1] at h
      exact (Option.some.inj h).symm

/-! ## Where a packet overflows -/

/-- Reading frames overflows exactly behind the frame with the largest seq, where one more frame is
wanted and found. -/
theorem readFrames_none {firstSeq i n : ℕ} {cursor : Bytes} (hle : firstSeq + i ≤ 2 ^ 64) :
    readFrames firstSeq i n cursor = none ↔
      ∃ (run : List Frame) (f : Frame) (more : Bytes), run.length < n ∧
        SeqRun (firstSeq + i) run ∧ firstSeq + i + run.length = 2 ^ 64 ∧ cursor = encodeAll run ++ (f.toBytes ++ more) := by
  induction n generalizing i cursor with
  | zero =>
    rw [readFrames]
    constructor
    · intro hnone
      cases hnone
    · rintro ⟨run, f, more, hlt, -⟩
      exact absurd hlt (Nat.not_lt_zero _)
  | succ n ih =>
    rw [readFrames]
    constructor
    · intro h
      split at h
      · cases h
      next f cursor' hread =>
      unfold addU64 at h
      split at h
      next hadd =>
        -- here: the frame just read is the one too many
        split at hadd
        · cases hadd
        · refine ⟨[], f, cursor', Nat.succ_pos n, trivial, ?_, Frame.readFrom_ok hread⟩
          rw [List.length_nil]
          omega
      next expected hadd =>
      split at hadd
      next hlt =>
        obtain rfl := Option.some.inj hadd
        split at h
        · cases h
        next hseq =>
        split at h
        next hframes =>
          obtain ⟨run, g, more, hlen, hrun, htop, rfl⟩ :=
            (ih (i := i + 1) (by omega)).mp hframes
          refine ⟨f :: run, g, more, ?_, ⟨not_not.mp hseq, hrun⟩, ?_, ?_⟩
          · rw [List.length_cons]
            omega
          · rw [List.length_cons]
            omega
          · rw [Frame.readFrom_ok hread, encodeAll_cons, List.append_assoc]
        · cases h
        · cases h
      · cases hadd
    · rintro ⟨run, g, more, hlen, hrun, htop, rfl⟩
      cases run with
      | nil =>
        rw [encodeAll_nil, List.nil_append, Frame.readFrom_toBytes]
        have hadd : addU64 firstSeq i = none := by
          rw [List.length_nil] at htop
          rw [addU64, if_neg (by omega)]
        simp only [hadd]
      | cons f run =>
        obtain ⟨hseq, hrun⟩ := hrun
        have hadd : addU64 firstSeq i = some f.seq := by
          rw [addU64, ← hseq, if_pos f.seq_lt]
        rw [List.length_cons] at hlen htop
        have hframes : readFrames firstSeq (i + 1) n (encodeAll run ++ (g.toBytes ++ more)) = none :=
          (ih (by omega)).mpr ⟨run, g, more, by omega, hrun, by omega, rfl⟩
        rw [encodeAll_cons, List.append_assoc, Frame.readFrom_toBytes]
        simp only [hadd, ne_eq, not_true_eq_false, if_false, hframes]

/-- The frames of a data packet, as far as they follow from its header, run up to the one with the
largest seq. -/
structure ToTop (bytes : Bytes) (h : PacketHeader) (run : List Frame) (rest : Bytes) : Prop where
  layout : bytes = encodeHeader h ++ (encodeAll run ++ rest)
  kind : h.kind = KIND_DATA
  seqs : SeqRun h.firstSeq.toNat run
  top : h.firstSeq.toNat + run.length = 2 ^ 64

/-- A packet that overflows a stream locked on `session`: behind the frame with the largest seq
stands a further frame that the count covers; or nothing does, and the packet belongs to the
stream. -/
def Overflows (session : Option UInt64) (bytes : Bytes) : Prop :=
  ∃ h run rest, ToTop bytes h run rest ∧
    ((run.length < h.count.toNat ∧ ∃ (f : Frame) (more : Bytes), rest = f.toBytes ++ more) ∨
      (run.length = h.count.toNat ∧ rest = [] ∧ session.getD h.session = h.session))

theorem ToTop.run_pos {bytes rest : Bytes} {h : PacketHeader} {run : List Frame}
    (htop : ToTop bytes h run rest) : 0 < run.length := by
  have hlt : h.firstSeq.toNat < 2 ^ 64 := h.firstSeq.toNat_lt
  have := htop.top
  omega

/-- **A packet overflows** exactly if it is one of these. -/
theorem call_packet_none {bytes : Bytes} :
    r.call (.packet bytes) = none ↔ Overflows r.session bytes := by
  rcases decode_cases bytes with ⟨e, hparse, herr⟩ | ⟨h, body, rfl, hbody⟩
  · -- without a header there is no packet
    rw [call, herr]
    refine ⟨nofun, ?_⟩
    rintro ⟨h, run, rest, htop, -⟩
    rw [htop.layout, parseHeader_encode] at hparse
    cases hparse
  have hfirst : h.firstSeq.toNat + 0 ≤ 2 ^ 64 := by
    have hlt : h.firstSeq.toNat < 2 ^ 64 := h.firstSeq.toNat_lt
    omega
  rw [call, hbody]
  constructor
  · intro hnone
    split at hnone
    next hdecode =>
      -- the reader's addition
      unfold decodeBody at hdecode
      split at hdecode
      · cases hdecode
      split at hdecode
      next hkind =>
        split at hdecode
        · cases hdecode
        split at hdecode
        next hread =>
          obtain ⟨run, f, more, hlen, hrun, htop, rfl⟩ := (readFrames_none hfirst).mp hread
          exact ⟨h, run, f.toBytes ++ more, ⟨rfl, hkind, hrun, htop⟩, Or.inl ⟨hlen, f, more, rfl⟩⟩
        · cases hdecode
        · split at hdecode <;> cases hdecode
      · cases hdecode
    · cases hnone
    next packet hdecode =>
      -- the reassembler's addition
      split at hnone
      next hingest =>
        unfold ingestU64 at hingest
        simp only at hingest
        split at hingest
        · cases hingest
        next hsession =>
        cases packet with
        | heartbeat session nextSeq => cases hingest
        | data session frames =>
          simp only at hingest
          split at hingest
          next haccept =>
            obtain ⟨hkind, -, rfl, hread⟩ := decodeBody_data hdecode
            obtain ⟨hlen, hrun, rfl⟩ := readFrames_ok hread
            have htop := (seqRun_top hrun h.firstSeq.toNat_lt).mp (acceptAllU64_none.mp haccept)
            exact ⟨h, frames, [], ⟨rfl, hkind, hrun, htop⟩, Or.inr ⟨hlen, rfl, not_not.mp hsession⟩⟩
          · cases hingest
      · cases hnone
      · cases hnone
  · rintro ⟨h', run, rest, htop, hends⟩
    have hlayout := htop.layout
    -- the header that was read is the packet's
    have hparse := parseHeader_encode h body
    rw [hlayout, parseHeader_encode] at hparse
    obtain rfl := Except.ok.inj hparse
    obtain rfl := List.append_cancel_left hlayout
    have hpos := htop.run_pos
    rcases hends with ⟨hlt, f, more, rfl⟩ | ⟨hlen, rfl, hsession⟩
    · have hread : readFrames h'.firstSeq.toNat 0 h'.count.toNat
          (encodeAll run ++ (f.toBytes ++ more)) = none :=
        (readFrames_none hfirst).mpr ⟨run, f, more, hlt, htop.seqs, htop.top, rfl⟩
      have hcount : h'.count ≠ 0 := by
        intro hzero
        rw [hzero] at hlt
        exact Nat.not_lt_zero _ hlt
      rw [decodeBody, if_neg (htop.kind ▸ data_ne_heartbeat), if_pos htop.kind, if_neg hcount]
      simp only [hread]
    · have hread : readFrames h'.firstSeq.toNat 0 run.length (encodeAll run ++ []) =
          some (.ok (run, [])) := readFrames_encodeAll htop.seqs []
      have hcount : h'.count ≠ 0 := by
        intro hzero
        rw [hzero] at hlen
        rw [hlen] at hpos
        exact Nat.lt_irrefl _ hpos
      have haccept : ∀ r₁ : Reassembler, r₁.acceptAllU64 run = none := fun r₁ =>
        acceptAllU64_none.mpr ((seqRun_top htop.seqs h'.firstSeq.toNat_lt).mpr htop.top)
      rw [decodeBody, if_neg (htop.kind ▸ data_ne_heartbeat), if_pos htop.kind, if_neg hcount,
        ← hlen, hread]
      simp only [ne_eq, not_true_eq_false, if_false, ingestU64, Packet.session, hsession, haccept]

/-! ## Every run -/

/-- What the reassembler keeps below the top: its counter, and every seq it has buffered. -/
structure Below (r : Reassembler) : Prop where
  next : r.next < 2 ^ 64
  pending : ∀ (seq : ℕ) (f : Frame), r.pending[seq]? = some f → seq + 1 < 2 ^ 64

theorem below_new (start : UInt64) : Below (new start.toNat) where
  next := by
    have hlt : start.toNat < 2 ^ 64 := start.toNat_lt
    exact Nat.max_lt.mpr ⟨hlt, by decide⟩
  pending := by simp [new]

/-- Popping never overflows: what is popped was buffered below the top. -/
theorem Below.nextFrame (h : Below r) : ∃ r', r.call .nextFrame = some r' ∧ Below r' := by
  rw [call, nextFrameU64]
  cases hget : r.pending[r.next]? with
  | none => exact ⟨r, rfl, h⟩
  | some frame =>
    have htop : r.next + 1 < 2 ^ 64 := h.pending _ _ hget
    simp only [addU64, if_pos htop]
    refine ⟨_, rfl, htop, fun seq f hpending => ?_⟩
    simp only [ExtTreeMap.getElem?_erase] at hpending
    split at hpending
    · cases hpending
    · exact h.pending seq f hpending

/-- Asking for the gap never underflows. -/
theorem gapU64_eq : r.gapU64 = some r.gap := by
  have hgap : r.gap = if r.upto > r.next then some (r.next, r.upto - r.next) else none := rfl
  rw [hgap]
  unfold gapU64 subU64
  split
  next hgt => rw [if_pos (Nat.le_of_lt hgt)]
  · rfl

theorem call_gap : r.call .gap = some r := by
  rw [call, gapU64_eq]

/-- A packet that did not overflow leaves everything below the top. -/
theorem Below.packet (h : Below r) {bytes : Bytes} (hcall : r.call (.packet bytes) = some r') :
    Below r' := by
  rw [call] at hcall
  split at hcall
  · cases hcall
  · obtain rfl := Option.some.inj hcall
    exact h
  next packet hdecode =>
  split at hcall
  · cases hcall
  · obtain rfl := Option.some.inj hcall
    exact h
  next r₁ hingest =>
  obtain rfl := Option.some.inj hcall
  have hrun := (ingestU64_some hingest).symm
  refine ⟨?_, fun seq f hpending => ?_⟩
  · -- ingesting does not move the counter
    rw [(ingest_spec hrun).1]
    exact h.next
  · rcases pending_ingest hrun hpending with hold | ⟨hmem, rfl, -⟩
    · exact h.pending seq f hold
    · -- a frame of the packet was accepted below the top
      unfold ingestU64 at hingest
      simp only at hingest
      split at hingest
      · cases hingest
      cases packet with
      | heartbeat session nextSeq => cases hmem
      | data session frames =>
        simp only at hingest
        split at hingest
        · cases hingest
        next haccept => exact (acceptAllU64_some haccept).2 f hmem

/-- One call keeps everything below the top, unless it is given a packet that overflows. -/
theorem Below.call (h : Below r) (c : Call) :
    (∃ r', r.call c = some r' ∧ Below r' ∧ ∀ bytes, c = .packet bytes → ¬Overflows r.session bytes) ∨
      (r.call c = none ∧ ∃ bytes, c = .packet bytes ∧ Overflows r.session bytes) := by
  cases c with
  | packet bytes =>
    cases hcall : r.call (.packet bytes) with
    | none => exact Or.inr ⟨rfl, bytes, rfl, call_packet_none.mp hcall⟩
    | some r' =>
      refine Or.inl ⟨r', rfl, h.packet hcall, ?_⟩
      rintro bytes' heq hover
      obtain rfl := Call.packet.inj heq
      rw [call_packet_none.mpr hover] at hcall
      cases hcall
  | nextFrame =>
    obtain ⟨r', hcall, hbelow⟩ := h.nextFrame
    exact Or.inl ⟨r', hcall, hbelow, nofun⟩
  | gap => exact Or.inl ⟨r, call_gap, h, nofun⟩

/-- The packet of one bare frame with the largest seq overflows a new stream. -/
theorem top_frame_overflows : ∃ f : Frame, f.seq = 2 ^ 64 - 1 ∧ ∃ bytes,
    (Packet.data 7 [f]).encode = some bytes ∧ (new 1).calls [.packet bytes] = none := by
  let f : Frame := ⟨2 ^ 64 - 1, 0, 0, .input, [], by decide, nil_payload_le⟩
  refine ⟨f, rfl, _, rfl, ?_⟩
  decide +kernel

/-- **The stream arithmetic** of a run from any starting seq overflows nowhere exactly if none of its
packets is one that overflows the stream as it stands when the packet arrives. -/
theorem runs_iff_below_top (start : UInt64) (cs : List Call) :
    ((new start.toNat).calls cs).isSome ↔
      ∀ pre bytes post r, cs = pre ++ .packet bytes :: post →
        (new start.toNat).calls pre = some r → ¬Overflows r.session bytes := by
  have hrun : ∀ (cs : List Call) (r₀ : Reassembler), Below r₀ → ((r₀.calls cs).isSome ↔
      ∀ pre bytes post r, cs = pre ++ .packet bytes :: post → r₀.calls pre = some r →
        ¬Overflows r.session bytes) := by
    intro cs
    induction cs with
    | nil =>
      intro r₀ _
      refine ⟨fun _ pre bytes post r heq => ?_, fun _ => rfl⟩
      exact absurd heq.symm (by simp)
    | cons c cs ih =>
      intro r₀ hbelow
      rcases hbelow.call c with ⟨r₁, hcall, hbelow₁, hfree⟩ | ⟨hcall, bytes, rfl, hover⟩
      · rw [calls, hcall]
        refine (ih r₁ hbelow₁).trans ⟨fun hall pre bytes post r heq hpre => ?_,
          fun hall pre bytes post r heq hpre => ?_⟩
        · cases pre with
          | nil =>
            obtain ⟨rfl, -⟩ := List.cons.inj heq
            obtain rfl := Option.some.inj hpre
            exact hfree bytes rfl
          | cons c' pre =>
            obtain ⟨rfl, hrest⟩ := List.cons.inj heq
            rw [calls, hcall] at hpre
            exact hall pre bytes post r hrest hpre
        · refine hall (c :: pre) bytes post r (by rw [heq]; rfl) ?_
          rw [calls, hcall]
          exact hpre
      · rw [calls, hcall]
        refine ⟨nofun, fun hall => ?_⟩
        exact absurd hover (hall [] bytes cs r₀ rfl rfl)
  exact hrun cs _ (below_new start)

end Reassembler

end Ticktape.Transport
