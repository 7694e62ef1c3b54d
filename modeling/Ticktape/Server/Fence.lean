import Ticktape.Server.Pump
import Mathlib.Data.List.Infix

/-!
# A deposed leader and its followers

A follower that hears two leaders: one of an older epoch that still runs, and the one promoted at epoch
`e`, whose journal agrees with the older leader's on `base` and goes on with the fence of `e`. Both
streams carry the same session and overlapping seqs.

The fence is meant to make the older leader harmless (`ticktape-cluster/src/epoch.rs`), but neither
`Server::pump` nor the reassembler looks at epochs: the first copy of a seq wins, whoever sent it
(`deposed_frame_behind_fence`). The follower is safe exactly as long as the older leader brings no first
copy at or above the fence (`harmless_of_fenced`).
-/

namespace Ticktape.Server

open Ticktape.Lib Ticktape.Core Ticktape.Transport Ticktape.Cluster

variable {svc : Service}

/-- The journals of the two leaders, and a follower. -/
structure Deployment (svc : Service) where
  deposed : List Frame
  promoted : List Frame
  follower : Follower svc

/-- The frames of a journal that starts at seq 1. -/
def Numbered (frames : List Frame) : Prop := ∀ i frame, frames[i]? = some frame → frame.seq = i + 1

theorem Numbered.concat {frames : List Frame} {frame : Frame} (h : Numbered frames)
    (hseq : frame.seq = frames.length + 1) : Numbered (frames ++ [frame]) := by
  intro i f hget
  rcases Nat.lt_or_ge i frames.length with hlt | hge
  · rw [List.getElem?_append_left hlt] at hget
    exact h i f hget
  · rw [List.getElem?_append_right hge, List.getElem?_singleton] at hget
    split at hget
    · cases hget
      omega
    · cases hget

/-- A frame's place in a numbered journal is its seq. -/
theorem Numbered.getElem?_seq {frames : List Frame} {frame : Frame} {n : ℕ} (h : Numbered frames)
    (hmem : frame ∈ frames) (hseq : frame.seq = n + 1) : frames[n]? = some frame := by
  obtain ⟨i, hget⟩ := List.mem_iff_getElem?.mp hmem
  have := h i frame hget
  obtain rfl : i = n := by omega
  exact hget

theorem Numbered.left {frames rest : List Frame} (h : Numbered (frames ++ rest)) :
    Numbered frames := by
  intro i frame hget
  obtain ⟨hlt, -⟩ := List.getElem?_eq_some_iff.mp hget
  rw [← List.getElem?_append_left hlt] at hget
  exact h i frame hget

namespace Deployment

/-- One step. `may r packet` says when a packet of the deposed leader may reach a follower whose
reassembler is `r`. -/
inductive Step (may : Reassembler → Packet → Prop) : Deployment svc → Deployment svc → Prop where
  /-- The deposed leader goes on sequencing. -/
  | deposed {c : Deployment svc} (frame : Frame) : frame.seq = c.deposed.length + 1 →
      Step may c { c with deposed := c.deposed ++ [frame] }
  | promoted {c : Deployment svc} (frame : Frame) : frame.seq = c.promoted.length + 1 →
      Step may c { c with promoted := c.promoted ++ [frame] }
  /-- A datagram or a retransmit reply of the deposed leader reaches the follower. -/
  | fromDeposed {c : Deployment svc} {r : Reassembler} (packet : Packet) :
      (∀ frame ∈ packet.frames, frame ∈ c.deposed) → may c.follower.reassembler packet →
      c.follower.reassembler.ingest packet = .ok r →
      Step may c { c with follower := { c.follower with reassembler := r } }
  | fromPromoted {c : Deployment svc} {r : Reassembler} (packet : Packet) :
      (∀ frame ∈ packet.frames, frame ∈ c.promoted) →
      c.follower.reassembler.ingest packet = .ok r →
      Step may c { c with follower := { c.follower with reassembler := r } }
  /-- The next frame comes out in order. -/
  | delivered {c : Deployment svc} {r : Reassembler} {frame : Frame} :
      c.follower.reassembler.nextFrame = some (frame, r) →
      Step may c { c with follower := Follower.onFrame { c.follower with reassembler := r } frame }
  /-- It comes out, and the journal fails to take it. -/
  | appendFailed {c : Deployment svc} {r : Reassembler} {frame : Frame} :
      c.follower.reassembler.nextFrame = some (frame, r) →
      Step may c { c with follower := { c.follower with reassembler := r } }
  /-- The follower is started again on its journal. -/
  | reopened {c : Deployment svc} (config : svc.Config) (acceptor : Acceptor) :
      Step may c { c with follower := .openFollower config acceptor c.follower.journal }

/-- What runs lead to after a promotion at epoch `e`. The promoted leader held `base` of the deposed
leader's journal and appended its fence; the follower starts from nothing, so that whatever it holds it
got in the run. -/
inductive Reachable (base : List Frame) (e : UInt64) (may : Reassembler → Packet → Prop) :
    Deployment svc → Prop where
  | start (tail : List Frame) (fence : Frame) (config : svc.Config) (acceptor : Acceptor) :
      Numbered (base ++ tail) → fence.seq = base.length + 1 → fence.kind = .epochChange →
      fence.payload = encode (e, UInt64.ofNat fence.seq, svc.SCHEMA_VERSION) →
      Reachable base e may ⟨base ++ tail, base ++ [fence], .openFollower config acceptor []⟩
  | step {c c' : Deployment svc} : Reachable base e may c → Step may c c' → Reachable base e may c'

/-- The property: once the follower's journal holds a frame that the promoted leader sequenced, all its
frames from the fence on are the promoted leader's, and it is a prefix of that leader's journal. -/
def Harmless (base : List Frame) (c : Deployment svc) : Prop :=
  (∃ frame ∈ c.follower.journal, frame ∈ c.promoted.drop base.length) →
    (∀ frame ∈ c.follower.journal, base.length + 1 ≤ frame.seq →
      frame ∈ c.promoted.drop base.length) ∧
    c.follower.journal <+: c.promoted

/-- The condition: the packet brings no first copy of a frame at or above `first`. -/
def Fenced (first : ℕ) (r : Reassembler) (packet : Packet) : Prop :=
  ∀ frame ∈ packet.frames, first ≤ frame.seq → r.Seen frame.seq

/-! ## The invariant -/

/-- **The invariant**: whatever the follower has buffered or journaled is the promoted leader's. -/
structure Inv (base : List Frame) (c : Deployment svc) : Prop where
  deposedNumbered : Numbered c.deposed
  promotedNumbered : Numbered c.promoted
  deposedBase : base <+: c.deposed
  promotedBase : base <+: c.promoted
  pending : ∀ (seq : ℕ) (frame : Frame), c.follower.reassembler.pending[seq]? = some frame → frame ∈ c.promoted
  journal : c.follower.journal <+: c.promoted
  applied : c.follower.applied = c.follower.journal.length

section Inv

variable {base : List Frame} {e : UInt64} {c c' : Deployment svc}

/-- Below the fence the two leaders agree. -/
theorem Inv.shared (h : Inv base c) {frame : Frame} (hmem : frame ∈ c.deposed)
    (hseq : frame.seq ≤ base.length) : frame ∈ c.promoted := by
  obtain ⟨i, hget⟩ := List.mem_iff_getElem?.mp hmem
  have hnum := h.deposedNumbered i frame hget
  obtain ⟨tail, htail⟩ := h.deposedBase
  rw [← htail, List.getElem?_append_left (by omega)] at hget
  exact h.promotedBase.subset (List.mem_of_getElem? hget)

/-- A frame of the promoted leader that is next goes on its place. -/
theorem Inv.onFrame (h : Inv base c) {frame : Frame} {r : Reassembler} (hmem : frame ∈ c.promoted)
    (hpending : ∀ (seq : ℕ) (f : Frame), r.pending[seq]? = some f → f ∈ c.promoted) :
    Inv base { c with
      follower := Follower.onFrame { c.follower with reassembler := r } frame } := by
  unfold Follower.onFrame
  split
  · rename_i hseq
    simp only at hseq
    refine ⟨h.deposedNumbered, h.promotedNumbered, h.deposedBase, h.promotedBase, hpending, ?_, ?_⟩
    · have hget := h.promotedNumbered.getElem?_seq hmem hseq
      rw [h.applied] at hget
      have htake := List.prefix_iff_eq_take.mp h.journal
      have hnext : c.promoted.take (c.follower.journal.length + 1) = c.follower.journal ++ [frame] := by
        rw [List.take_add_one, hget, ← htake]
        rfl
      rw [← hnext]
      exact List.take_prefix ..
    · simp [hseq, h.applied]
  · exact ⟨h.deposedNumbered, h.promotedNumbered, h.deposedBase, h.promotedBase, hpending, h.journal,
      h.applied⟩

/-- What a packet brings is the promoted leader's. -/
theorem Inv.ingest (h : Inv base c) {packet : Packet} {r : Reassembler}
    (hfirst : ∀ frame ∈ packet.frames, ¬ c.follower.reassembler.Seen frame.seq → frame ∈ c.promoted)
    (hrun : c.follower.reassembler.ingest packet = .ok r) :
    Inv base { c with follower := { c.follower with reassembler := r } } := by
  refine ⟨h.deposedNumbered, h.promotedNumbered, h.deposedBase, h.promotedBase, fun seq frame hget => ?_,
    h.journal, h.applied⟩
  rcases Reassembler.pending_ingest hrun hget with hold | ⟨hmem, -, hnew⟩
  · exact h.pending seq frame hold
  · exact hfirst frame hmem hnew

/-- **Step lemma.** -/
theorem Step.inv (hstep : Step (Fenced (base.length + 1)) c c') (h : Inv base c) : Inv base c' := by
  cases hstep with
  | deposed frame hseq =>
    exact ⟨h.deposedNumbered.concat hseq, h.promotedNumbered,
      h.deposedBase.trans (List.prefix_append ..), h.promotedBase, h.pending, h.journal, h.applied⟩
  | promoted frame hseq =>
    exact ⟨h.deposedNumbered, h.promotedNumbered.concat hseq, h.deposedBase,
      h.promotedBase.trans (List.prefix_append ..),
      fun seq f hget => List.mem_append_left _ (h.pending seq f hget),
      h.journal.trans (List.prefix_append ..), h.applied⟩
  | fromDeposed packet hsent hfenced hrun =>
    refine h.ingest (fun frame hmem hnew => h.shared (hsent frame hmem) ?_) hrun
    -- a first copy is below the fence
    by_contra hlt
    exact hnew (hfenced frame hmem (by omega))
  | fromPromoted packet hsent hrun => exact h.ingest (fun frame hmem _ => hsent frame hmem) hrun
  | delivered hnext =>
    obtain ⟨hget, hkeep⟩ := Reassembler.nextFrame_cases hnext
    exact h.onFrame (h.pending _ _ hget) fun seq f hold => h.pending seq f (hkeep hold)
  | appendFailed hnext =>
    obtain ⟨-, hkeep⟩ := Reassembler.nextFrame_cases hnext
    exact ⟨h.deposedNumbered, h.promotedNumbered, h.deposedBase, h.promotedBase,
      fun seq f hold => h.pending seq f (hkeep hold), h.journal, h.applied⟩
  | reopened config acceptor =>
    exact ⟨h.deposedNumbered, h.promotedNumbered, h.deposedBase, h.promotedBase,
      fun seq f hget => by simp [Follower.openFollower, Reassembler.new] at hget, h.journal, rfl⟩

/-- **Run lemma.** -/
theorem Reachable.inv (h : Reachable base e (Fenced (base.length + 1)) c) : Inv base c := by
  induction h with
  | start tail fence config acceptor hnum hseq _ _ =>
    exact ⟨hnum, hnum.left.concat hseq, List.prefix_append .., List.prefix_append ..,
      fun seq f hget => by simp [Follower.openFollower, Reassembler.new] at hget,
      List.nil_prefix, rfl⟩
  | step _ hstep ih => exact hstep.inv ih

/-! ## Safety -/

/-- **The fence keeps a deposed leader out**, in every run in which each packet of that leader brings no
first copy of a frame at or above the fence: the follower's journal is a prefix of the promoted
leader's. -/
theorem harmless_of_fenced (h : Reachable base e (Fenced (base.length + 1)) c) : c.Harmless base := by
  have hinv := h.inv
  refine fun _ => ⟨fun frame hmem hseq => ?_, hinv.journal⟩
  obtain ⟨n, hn⟩ : ∃ n, frame.seq = base.length + n + 1 := ⟨frame.seq - base.length - 1, by omega⟩
  have hget := hinv.promotedNumbered.getElem?_seq (hinv.journal.subset hmem) hn
  rw [← List.getElem?_drop] at hget
  exact List.mem_of_getElem? hget

end Inv

/-! ## Runs of `pump` -/

/-- **Pumping is a run**: a pump that takes in packets of the two leaders leads to a reachable
deployment. -/
theorem Reachable.pump {base : List Frame} {e : UInt64} {may : Reassembler → Packet → Prop}
    {c : Deployment svc} (h : Reachable base e may c) (fuel : ℕ) (rounds : List Round)
    (hall : ∀ round ∈ rounds, ∀ p ∈ round.packets, (∀ frame ∈ p.frames, frame ∈ c.promoted) ∨
      ((∀ frame ∈ p.frames, frame ∈ c.deposed) ∧ ∀ r, may r p)) :
    Reachable base e may { c with follower := (c.follower.pump fuel rounds).2 } := by
  refine Follower.pump_induct (P := fun f => Reachable base e may { c with follower := f })
    (fun {f r packet} hf hpacket hrun => ?_) (fun {f r frame} hf hnext => ?_) hall h
  · rcases hpacket with hpromoted | ⟨hdeposed, hmay⟩
    · exact .step hf (.fromPromoted packet hpromoted hrun)
    · exact .step hf (.fromDeposed packet hdeposed (hmay _) hrun)
  · exact .step hf (.delivered hnext)

/-- A fence as `Node::fence` sequences it. -/
def fenceFrame (epoch seq : UInt64) : Frame where
  seq := seq.toNat
  timestamp := 0
  streamId := 1
  kind := .epochChange
  payload := encode (epoch, seq, doubler.SCHEMA_VERSION)
  seq_lt := seq.toNat_lt
  payload_le := by simp [encode, MAX_PAYLOAD_LEN]

/-- An input as `Node::submit` sequences it. -/
def inputFrame (input seq : UInt64) : Frame where
  seq := seq.toNat
  timestamp := 0
  streamId := 1
  kind := .input
  payload := encode input
  seq_lt := seq.toNat_lt
  payload_le := by simp [encode, MAX_PAYLOAD_LEN]

/-- A round that brings one datagram. -/
def datagram (frames : List Frame) : Round := ⟨some (.ok (.data 7 frames)), [], none, false⟩

/-- The leader of epoch 1 has sequenced its fence and two inputs when another server is promoted at
epoch 2 with the fence of epoch 1 in its journal. -/
theorem reachable_two_leaders (may : Reassembler → Packet → Prop) :
    Reachable [fenceFrame 1 1] 2 may (⟨[fenceFrame 1 1, inputFrame 5 2, inputFrame 6 3],
      [fenceFrame 1 1, fenceFrame 2 2], .openFollower () .new []⟩ : Deployment doubler) := by
  refine .start [inputFrame 5 2, inputFrame 6 3] (fenceFrame 2 2) () .new (fun i frame hget => ?_) rfl
    rfl rfl
  match i with
  | 0 => cases hget; rfl
  | 1 => cases hget; rfl
  | 2 => cases hget; rfl
  | i + 3 => cases hget

/-- A pump that brings both fences from the promoted leader, and then the second input from the deposed
one: the follower journals that input behind the fence that was to keep it out. -/
theorem deposed_frame_behind_fence : ¬ ∀ (base : List Frame) (e : UInt64) (c : Deployment doubler),
    Reachable base e (fun _ _ => True) c → c.Harmless base := by
  intro hclaim
  have hrun := (reachable_two_leaders fun _ _ => True).pump 8
    [datagram [fenceFrame 1 1, fenceFrame 2 2], datagram [inputFrame 6 3]]
    (by simp [datagram, Round.packets, Packet.frames])
  have hjournal : ((Follower.openFollower () .new [] : Follower doubler).pump 8
      [datagram [fenceFrame 1 1, fenceFrame 2 2], datagram [inputFrame 6 3]]).2.journal =
      [fenceFrame 1 1, fenceFrame 2 2, inputFrame 6 3] := by decide +kernel
  have hharmless := hclaim _ _ _ hrun
  simp only [Harmless, hjournal] at hharmless
  have hprefix := (hharmless (by decide +kernel)).2
  exact absurd hprefix.length_le (by decide)

/-- The same without the stale datagram. -/
theorem harmless_of_fenced_of_run : ∃ c : Deployment doubler,
    Reachable [fenceFrame 1 1] 2 (Fenced 2) c ∧ fenceFrame 2 2 ∈ c.follower.journal ∧
      c.Harmless [fenceFrame 1 1] := by
  have hrun := (reachable_two_leaders (Fenced 2)).pump 8
    [datagram [fenceFrame 1 1, fenceFrame 2 2]]
    (by simp [datagram, Round.packets, Packet.frames])
  refine ⟨_, hrun, by decide +kernel, harmless_of_fenced hrun⟩

end Deployment

end Ticktape.Server
