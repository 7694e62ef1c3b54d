import Ticktape.Transport.Wire

/-!
# Packing frames into packets

The publisher (`ticktape-transport/src/net.rs`) cuts a run of frames into windows, each as long as
fits one packet, and sends a packet for each. A window holds at least one frame, so one that is too
large for any packet goes out alone. The windows are the input again when put back together, and so
are the packets, as long as the publisher can count on behind them.
-/

namespace Ticktape.Transport

open Ticktape.Lib Ticktape.Core Ticktape.Journal

/-- Keep packets under a conservative ethernet-safe payload size. -/
def MAX_PACKET_BYTES : ℕ := 1400

/-! ## Windows -/

/-- Extend a window with the frames behind it, as long as it fits; what is left is returned. -/
def extend (window : List Frame) : List Frame → List Frame × List Frame
  | [] => (window, [])
  | frame :: rest =>
    -- always take at least one
    if window ≠ [] ∧ dataPacketLen (window ++ [frame]) > MAX_PACKET_BYTES then
      (window, frame :: rest)
    else extend (window ++ [frame]) rest

theorem extend_rest_le (window rest : List Frame) : (extend window rest).2.length ≤ rest.length := by
  induction rest generalizing window with
  | nil => exact Nat.le_refl _
  | cons f rest ih =>
    rw [extend]
    split
    · exact Nat.le_refl _
    · exact Nat.le_succ_of_le (ih _)

/-- The first frame always goes into a new window. -/
theorem extend_first (frame : Frame) (rest : List Frame) :
    extend [] (frame :: rest) = extend [frame] rest := by
  rw [extend, if_neg (by simp)]
  rfl

/-- Split frames into the largest runs that each fit in one packet. -/
def packWindows : List Frame → List (List Frame)
  | [] => []
  | frame :: rest =>
    (extend [] (frame :: rest)).1 :: packWindows (extend [] (frame :: rest)).2
termination_by frames => frames.length
decreasing_by
  rw [extend_first, List.length_cons]
  exact Nat.lt_succ_of_le (extend_rest_le _ _)

/-! ## What a window holds -/

section Extend

variable {window rest : List Frame}

theorem extend_append : (extend window rest).1 ++ (extend window rest).2 = window ++ rest := by
  induction rest generalizing window with
  | nil => simp [extend]
  | cons f rest ih =>
    rw [extend]
    split
    · rfl
    · rw [ih, List.append_assoc, List.singleton_append]

/-- Extending a window keeps its frames. -/
theorem prefix_extend : window <+: (extend window rest).1 := by
  induction rest generalizing window with
  | nil => exact List.prefix_refl _
  | cons f rest ih =>
    rw [extend]
    split
    · exact List.prefix_refl _
    · exact (List.prefix_append window [f]).trans ih

/-- A window fits one packet, or is a single frame. -/
def Fits (window : List Frame) : Prop :=
  dataPacketLen window ≤ MAX_PACKET_BYTES ∨ window.length = 1

theorem extend_fits (h : window = [] ∨ Fits window) (hany : window ++ rest ≠ []) :
    Fits (extend window rest).1 := by
  induction rest generalizing window with
  | nil =>
    rw [List.append_nil] at hany
    exact h.resolve_left hany
  | cons f rest ih =>
    rw [extend]
    split
    next hfull => exact h.resolve_left hfull.1
    next hroom =>
      refine ih (Or.inr ?_) (by simp)
      by_cases hnil : window = []
      · rw [hnil]
        exact Or.inr rfl
      · exact Or.inl (Nat.not_lt.mp fun hlarge => hroom ⟨hnil, hlarge⟩)

/-- **A window is left when the next frame would not fit.** -/
theorem extend_maximal {frame : Frame} {more : List Frame}
    (h : (extend window rest).2 = frame :: more) :
    MAX_PACKET_BYTES < dataPacketLen ((extend window rest).1 ++ [frame]) := by
  induction rest generalizing window with
  | nil => cases h
  | cons f rest ih =>
    rw [extend] at h ⊢
    split at h
    next hfull =>
      rw [if_pos hfull]
      obtain ⟨rfl, -⟩ := List.cons.inj h
      exact hfull.2
    next hroom =>
      rw [if_neg hroom]
      exact ih h

end Extend

/-- A frame takes at least 32 bytes. -/
theorem encodedLen_sum_ge (frames : List Frame) :
    32 * frames.length ≤ (frames.map Frame.encodedLen).sum := by
  induction frames with
  | nil => exact Nat.le_refl _
  | cons f fs ih =>
    have hf : 32 ≤ f.encodedLen := by
      simp only [Frame.encodedLen, FRAME_HEADER_LEN]
      omega
    rw [List.length_cons, List.map_cons, List.sum_cons]
    omega

/-- A packet has room for few frames. -/
theorem Fits.length_le {window : List Frame} (h : Fits window) : window.length ≤ 42 := by
  rcases h with hfit | hone
  · have hlen := encodedLen_sum_ge window
    rw [dataPacketLen, PACKET_HEADER_LEN, MAX_PACKET_BYTES] at hfit
    omega
  · omega

/-- What the windows of `frames` are: none is empty, put together they are the input, each fits one
packet or is a single frame, and none has room for the frame that follows it. -/
structure Packed (frames : List Frame) (windows : List (List Frame)) : Prop where
  nonempty : ∀ window ∈ windows, window ≠ []
  flatten : windows.flatten = frames
  fits : ∀ window ∈ windows, Fits window
  maximal : ∀ pre window post frame more, windows = pre ++ window :: post →
    post.flatten = frame :: more → MAX_PACKET_BYTES < dataPacketLen (window ++ [frame])

theorem packWindows_packed (frames : List Frame) : Packed frames (packWindows frames) := by
  induction frames using packWindows.induct with
  | case1 =>
    rw [packWindows]
    refine ⟨by simp, rfl, by simp, fun pre window post frame more h _ => ?_⟩
    exact absurd h.symm (by simp)
  | case2 frame rest ih =>
    rw [packWindows]
    have happend : (extend [] (frame :: rest)).1 ++ (extend [] (frame :: rest)).2 = frame :: rest :=
      extend_append
    have hne : (extend [] (frame :: rest)).1 ≠ [] := by
      rw [extend_first]
      intro hnil
      have hprefix : [frame] <+: (extend [frame] rest).1 := prefix_extend
      rw [hnil, List.prefix_nil] at hprefix
      cases hprefix
    have hfits : Fits (extend [] (frame :: rest)).1 := extend_fits (Or.inl rfl) (by simp)
    refine ⟨?_, ?_, ?_, ?_⟩
    · intro window hmem
      rcases List.mem_cons.mp hmem with rfl | hmem
      · exact hne
      · exact ih.nonempty window hmem
    · rw [List.flatten_cons, ih.flatten, happend]
    · intro window hmem
      rcases List.mem_cons.mp hmem with rfl | hmem
      · exact hfits
      · exact ih.fits window hmem
    · intro pre window post next more hsplit hpost
      cases pre with
      | nil =>
        obtain ⟨rfl, rfl⟩ := List.cons.inj hsplit
        rw [ih.flatten] at hpost
        exact extend_maximal hpost
      | cons w pre =>
        obtain ⟨-, hrest⟩ := List.cons.inj hsplit
        exact ih.maximal pre window post next more hrest hpost

/-! ## Publishing -/

/-- Publishes sequenced frames as packets on one or two channels. -/
structure Publisher (Addr : Type) where
  session : UInt64
  destA : Addr
  destB : Option Addr
  nextSeq : ℕ

/-- How publishing a batch ended. -/
inductive Published where
  | done
  /-- The socket refused a packet. -/
  | io
  /-- An addition overflowed, or a lookup failed. -/
  | panic
  deriving DecidableEq

namespace Publisher

variable {Addr : Type}

/-- Send a packet on both channels. -/
def sendBuf (p : Publisher Addr) (sendTo : Addr → Bytes → Bool) (buf : Bytes) : Bool :=
  sendTo p.destA buf && match p.destB with
    | none => true
    | some destB => sendTo destB buf

/-- Publish windows one after the other through `send`: the packets that were encoded, the publisher
behind them, and how it ended. -/
def publishWindows (send : Bytes → Bool) (p : Publisher Addr) :
    List (List Frame) → List Bytes × Publisher Addr × Published
  | [] => ([], p, .done)
  | window :: windows =>
    match window.getLast? with
    | none => ([], p, .panic)
    | some last =>
      match addU64 last.seq 1 with
      | none => ([], p, .panic)
      | some nextSeq =>
        let p := { p with nextSeq := nextSeq }
        match encodeData p.session window with
        | none => ([], p, .panic)
        | some buf =>
          if send buf then
            let (packets, p', fin) := publishWindows send p windows
            (buf :: packets, p', fin)
          else ([buf], p, .io)

/-- Publish a run of frames on both channels, packing as many as fit per packet. -/
def publishBatch (sendTo : Addr → Bytes → Bool) (p : Publisher Addr) (frames : List Frame) :
    List Bytes × Publisher Addr × Published :=
  publishWindows (p.sendBuf sendTo) p (packWindows frames)

/-- Publish a run of frames to a single explicit destination. -/
def publishBatchTo (sendTo : Addr → Bytes → Bool) (p : Publisher Addr) (frames : List Frame)
    (dest : Addr) : List Bytes × Publisher Addr × Published :=
  publishWindows (sendTo dest) p (packWindows frames)

/-- Every window went out, if the packets that were encoded read back as all of them. -/
def AllOut (p : Publisher Addr) (windows : List (List Frame)) (packets : List Bytes) : Prop :=
  packets.map Packet.decode = windows.map fun window => some (.ok (.data p.session window))

/-- The last frame of a run has its largest seq. -/
theorem seqRun_getLast? {first : ℕ} {window : List Frame} {last : Frame}
    (hrun : SeqRun first window) (hlast : window.getLast? = some last) :
    last.seq + 1 = first + window.length := by
  obtain ⟨pre, rfl⟩ := List.getLast?_eq_some_iff.mp hlast
  obtain ⟨-, hseq, -⟩ := SeqRun.append.mp hrun
  rw [hseq, List.length_append, List.length_singleton, Nat.add_assoc]

/-- **What is published reads back**, in windows of consecutive frames over a socket that takes every
packet, exactly if no frame has the largest seq. -/
theorem publishWindows_allOut {send : Bytes → Bool} (hsend : ∀ buf, send buf = true)
    {windows : List (List Frame)} {first : ℕ} (hne : ∀ window ∈ windows, window ≠ [])
    (hlen : ∀ window ∈ windows, window.length < 2 ^ 16) (hrun : SeqRun first windows.flatten)
    (p : Publisher Addr) :
    p.AllOut windows (p.publishWindows send windows).1 ↔
      ∀ f ∈ windows.flatten, f.seq + 1 ≠ 2 ^ 64 := by
  induction windows generalizing first p with
  | nil => simp [AllOut, publishWindows]
  | cons window windows ih =>
    obtain ⟨hwindow, hrest⟩ := SeqRun.append.mp hrun
    have hne₁ : window ≠ [] := hne window (List.mem_cons_self ..)
    obtain ⟨last, hlast⟩ : ∃ last, window.getLast? = some last :=
      ⟨_, List.getLast?_eq_some_getLast hne₁⟩
    have hseq := seqRun_getLast? hwindow hlast
    have hbound := hwindow.bound hne₁
    rw [publishWindows, hlast, List.flatten_cons]
    by_cases htop : last.seq + 1 < 2 ^ 64
    · obtain ⟨buf, hencode, hdecode⟩ := @decode_encodeData p.session window _ hne₁
        (hlen window (List.mem_cons_self ..)) hwindow
      have hbelow : ∀ f ∈ window, f.seq + 1 ≠ 2 ^ 64 := by
        intro f hf heq
        have := (seqRun_top hwindow (by omega)).mp ⟨f, hf, heq⟩
        omega
      have hnext := ih (fun w hw => hne w (List.mem_cons_of_mem _ hw))
        (fun w hw => hlen w (List.mem_cons_of_mem _ hw)) hrest { p with nextSeq := last.seq + 1 }
      have hencode : encodeData p.session window = some buf := hencode
      simp only [addU64, if_pos htop, hencode, hsend, if_true]
      rw [AllOut, List.map_cons, List.map_cons, hdecode, List.cons.injEq, eq_self, true_and]
      refine hnext.trans ⟨fun hall f hf => ?_, fun hall f hf => hall f (List.mem_append_right _ hf)⟩
      rcases List.mem_append.mp hf with hf | hf
      · exact hbelow f hf
      · exact hall f hf
    · -- nothing is sent from this window on
      simp only [addU64, if_neg htop]
      constructor
      · intro hout
        rw [AllOut, List.map_nil, List.map_cons] at hout
        cases hout
      · intro hall
        have hmem : last ∈ window := List.mem_of_getLast? hlast
        have hlt := last.seq_lt
        exact absurd (by omega) (hall last (List.mem_append_left _ hmem))

/-- **Packing loses nothing and fills packets**: the windows of consecutive frames partition them,
fit, are maximal, and hold no more frames than a packet can count. What `publish_batch` encodes from
them reads back as those windows, in order, exactly if no frame has the largest seq. -/
theorem packing_loses_nothing (sendTo : Addr → Bytes → Bool)
    (hsend : ∀ dest buf, sendTo dest buf = true) (p : Publisher Addr) {first : ℕ}
    {frames : List Frame} (hrun : SeqRun first frames) :
    Packed frames (packWindows frames) ∧
      (∀ window ∈ packWindows frames, window.length < 2 ^ 16) ∧
      (p.AllOut (packWindows frames) (p.publishBatch sendTo frames).1 ↔
        ∀ f ∈ frames, f.seq + 1 ≠ 2 ^ 64) ∧
      ∀ dest, p.AllOut (packWindows frames) (p.publishBatchTo sendTo frames dest).1 ↔
        ∀ f ∈ frames, f.seq + 1 ≠ 2 ^ 64 := by
  have hpacked := packWindows_packed frames
  have hlen : ∀ window ∈ packWindows frames, window.length < 2 ^ 16 := by
    intro window hmem
    have := (hpacked.fits window hmem).length_le
    omega
  have hrun' : SeqRun first (packWindows frames).flatten := by
    rw [hpacked.flatten]
    exact hrun
  have hout : ∀ send : Bytes → Bool, (∀ buf, send buf = true) →
      (p.AllOut (packWindows frames) (p.publishWindows send (packWindows frames)).1 ↔
        ∀ f ∈ frames, f.seq + 1 ≠ 2 ^ 64) := by
    intro send htakes
    have := publishWindows_allOut htakes hpacked.nonempty hlen hrun' p
    rwa [hpacked.flatten] at this
  refine ⟨hpacked, hlen, hout _ fun buf => ?_, fun dest => hout _ fun buf => hsend dest buf⟩
  rw [sendBuf, hsend, Bool.true_and]
  split
  · rfl
  · exact hsend _ _

/-- Two small frames go out in order. -/
theorem packing_loses_nothing_of_two : ∃ f g : Frame, f.seq = 1 ∧ g.seq = 2 ∧
    let p : Publisher Unit := ⟨7, (), none, 1⟩
    Packed [f, g] (packWindows [f, g]) ∧
      p.AllOut (packWindows [f, g]) (p.publishBatch (fun _ _ => true) [f, g]).1 := by
  let f : Frame := ⟨1, 0, 1, .tick, [], one_lt_seqs, nil_payload_le⟩
  let g : Frame := ⟨2, 0, 1, .tick, [], two_lt_seqs, nil_payload_le⟩
  have hrun : SeqRun 1 [f, g] := by decide
  obtain ⟨hpacked, -, hout, -⟩ :=
    packing_loses_nothing (fun _ _ => true) (fun _ _ => rfl) (⟨7, (), none, 1⟩ : Publisher Unit) hrun
  exact ⟨f, g, rfl, rfl, hpacked, hout.mpr (by decide)⟩

/-- The frame with the largest seq is not sent: computing the next seq of the publisher overflows
before the packet is encoded. -/
theorem top_frame_not_sent : ∃ f : Frame, f.seq = 2 ^ 64 - 1 ∧
    let p : Publisher Unit := ⟨7, (), none, 1⟩
    p.publishBatch (fun _ _ => true) [f] = ([], p, .panic) ∧
      ¬p.AllOut (packWindows [f]) (p.publishBatch (fun _ _ => true) [f]).1 := by
  let f : Frame := ⟨2 ^ 64 - 1, 0, 0, .input, [], by decide, nil_payload_le⟩
  let p : Publisher Unit := ⟨7, (), none, 1⟩
  have hwindows : packWindows [f] = [[f]] := by
    rw [packWindows, extend_first]
    show [f] :: packWindows [] = [[f]]
    rw [packWindows]
  have hadd : addU64 (2 ^ 64 - 1) 1 = none := by decide
  have hbatch : p.publishBatch (fun _ _ => true) [f] = ([], p, .panic) := by
    rw [publishBatch, hwindows, publishWindows]
    simp only [List.getLast?_singleton, f, hadd]
  refine ⟨f, rfl, hbatch, ?_⟩
  show ¬p.AllOut (packWindows [f]) (p.publishBatch (fun _ _ => true) [f]).1
  rw [hbatch, hwindows, AllOut]
  simp

end Publisher

end Ticktape.Transport
