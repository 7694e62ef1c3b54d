import Ticktape.Runtime.Memory

/-!
# A follower computes the leader's state

The follower (`ticktape-transport/src/replica.rs`) applies the frames of the sequenced stream to its
own copy of the service. It has no timer wheel: the leader's fired timers are frames of the stream.
`Replica.feed_ledger` says that feeding a follower what the leader published gives, frame by frame,
the leader's states and outputs.
-/

namespace Ticktape.Transport

open Ticktape.Lib Ticktape.Core Ticktape.Journal Ticktape.Runtime

/-- Why a replica refuses a frame. -/
inductive ReplicaError where
  | outOfOrder (expected got : ℕ)
  | corruptInput (seq : ℕ) (err : CodecError)
  /-- The leader declared another input schema in its fence. -/
  | schemaMismatch (theirs ours : UInt32) (seq : ℕ)
  deriving DecidableEq

/-- A deterministic follower of the sequenced stream; `seq` is the last applied one. -/
structure Replica (svc : Service) where
  service : svc.State
  seq : ℕ

namespace Replica

variable {svc : Service}

/-- A follower before any frame. -/
def new (config : svc.Config) : Replica svc := ⟨svc.genesis config, 0⟩

/-- Resume from a snapshot taken at `seq`. -/
def fromSnapshot (snapshot : svc.Snapshot) (seq : ℕ) (config : svc.Config) : Replica svc :=
  ⟨svc.restore snapshot config, seq⟩

/-- The part of `apply` behind the order check; `r` has moved on to the frame's seq already. -/
def step (r : Replica svc) (frame : Frame) : Except ReplicaError (List svc.Output) × Replica svc :=
  match frame.kind with
  | .input =>
    match (decodeAll frame.payload : Except CodecError svc.Input) with
    | .error err => (.error (.corruptInput frame.seq err), r)
    | .ok input =>
      let result := svc.apply r.service frame.seq input ⟨frame.seq, frame.timestamp⟩
      (.ok result.outputs, { r with service := result.state })
  | .timerFired =>
    match (decodeAll frame.payload : Except CodecError UInt64) with
    | .error err => (.error (.corruptInput frame.seq err), r)
    | .ok id =>
      let result := svc.onTimer r.service id ⟨frame.seq, frame.timestamp⟩
      (.ok result.outputs, { r with service := result.state })
  | .epochChange =>
    -- the older fence of two fields carries no schema version
    if frame.payload.length ≥ 20 then
      match (decodeAll frame.payload : Except CodecError (UInt64 × UInt64 × UInt32)) with
      | .error err => (.error (.corruptInput frame.seq err), r)
      | .ok (_, _, theirs) =>
        if theirs ≠ svc.SCHEMA_VERSION then
          (.error (.schemaMismatch theirs svc.SCHEMA_VERSION frame.seq), r)
        else (.ok [], r)
    else (.ok [], r)
  | _ => (.ok [], r)

/-- Apply one in-order frame; `none` is the overflow of the seq. -/
def apply (r : Replica svc) (frame : Frame) :
    Option (Except ReplicaError (List svc.Output) × Replica svc) :=
  match seqNext r.seq with
  | none => none
  | some expected =>
    if frame.seq ≠ expected then some (.error (.outOfOrder expected frame.seq), r)
    else some (step { r with seq := frame.seq } frame)

/-- Feed frames in order. Returns the state and the outputs after each one, or `none` if a frame was
refused. -/
def feed (r : Replica svc) : List Frame →
    Option (List (svc.State × List svc.Output) × Replica svc)
  | [] => some ([], r)
  | frame :: rest =>
    match r.apply frame with
    | some (.ok outputs, r') =>
      (feed r' rest).map fun p => ((r'.service, outputs) :: p.1, p.2)
    | _ => none

/-! ## Feeding one more frame -/

theorem apply_next {r : Replica svc} {frame : Frame} (h : frame.seq = r.seq + 1) :
    r.apply frame = some (step { r with seq := frame.seq } frame) := by
  have hlt := frame.seq_lt
  have hnext : seqNext r.seq = some (r.seq + 1) := by
    unfold seqNext
    rw [if_pos (by omega)]
  unfold apply
  simp only [hnext, ne_eq, h, not_true_eq_false, if_false]

theorem step_seq (r : Replica svc) (frame : Frame) : (step r frame).2.seq = r.seq := by
  unfold step
  split
  · split <;> rfl
  · split <;> rfl
  · split
    · split
      · rfl
      · split <;> rfl
    · rfl
  · rfl

/-- A frame that was applied is the next one. -/
theorem apply_ok {r r' : Replica svc} {frame : Frame} {outputs : List svc.Output}
    (h : r.apply frame = some (.ok outputs, r')) : frame.seq = r.seq + 1 ∧ r'.seq = r.seq + 1 := by
  unfold apply at h
  split at h
  · cases h
  rename_i expected hnext
  have hexpected : expected = r.seq + 1 := by
    unfold seqNext at hnext
    split at hnext <;> cases hnext
    rfl
  split at h
  · cases h
  rename_i hseq
  have hseq : frame.seq = r.seq + 1 := by rw [← hexpected]; exact Classical.not_not.mp hseq
  have hstep := step_seq { r with seq := frame.seq } frame
  rw [Option.some.inj h] at hstep
  exact ⟨hseq, hstep.trans hseq⟩

theorem feed_concat {r r₁ r₂ : Replica svc} {frames : List Frame} {frame : Frame}
    {trace : List (svc.State × List svc.Output)} {outputs : List svc.Output}
    (h : feed r frames = some (trace, r₁)) (happly : r₁.apply frame = some (.ok outputs, r₂)) :
    feed r (frames ++ [frame]) = some (trace ++ [(r₂.service, outputs)], r₂) := by
  induction frames generalizing r trace with
  | nil =>
    cases h
    simp [feed, happly]
  | cons f fs ih =>
    simp only [feed, List.cons_append] at h ⊢
    split at h
    · obtain ⟨⟨trace', r'⟩, hfeed, heq⟩ := Option.map_eq_some_iff.mp h
      cases heq
      rw [ih hfeed]
      rfl
    · cases h

/-- Frames that were all applied carry consecutive seqs. -/
theorem feed_seqs {r r' : Replica svc} {frames : List Frame}
    {trace : List (svc.State × List svc.Output)} (h : feed r frames = some (trace, r')) :
    frames.map (·.seq) = List.range' (r.seq + 1) frames.length ∧ r'.seq = r.seq + frames.length := by
  induction frames generalizing r trace with
  | nil =>
    cases h
    exact ⟨rfl, rfl⟩
  | cons f fs ih =>
    simp only [feed] at h
    split at h
    · rename_i outputs r₁ happly
      obtain ⟨⟨trace', r₂⟩, hfeed, heq⟩ := Option.map_eq_some_iff.mp h
      cases heq
      have hseq : f.seq = r.seq + 1 ∧ r₁.seq = r.seq + 1 := apply_ok happly
      obtain ⟨hmap, hlast⟩ := ih hfeed
      rw [hseq.2] at hmap hlast
      refine ⟨?_, by rw [hlast, List.length_cons]; omega⟩
      rw [List.map_cons, hmap, hseq.1, List.length_cons, List.range'_succ]
    · cases h

/-! ## What the leader sequences, the follower applies -/

variable {state : svc.State} {seq : ℕ} {frame : Frame}

theorem apply_input (hcodec : svc.Codecs) {input : svc.Input} (hseq : frame.seq = seq + 1)
    (hkind : frame.kind = .input) (hpayload : frame.payload = encode input) :
    apply ⟨state, seq⟩ frame =
      some (.ok (svc.apply state frame.seq input ⟨frame.seq, frame.timestamp⟩).outputs,
        ⟨(svc.apply state frame.seq input ⟨frame.seq, frame.timestamp⟩).state, frame.seq⟩) := by
  have := hcodec.input
  rw [apply_next hseq, step]
  simp only [hkind, hpayload, decodeAll_encode]

theorem apply_timerFired {id : UInt64} (hseq : frame.seq = seq + 1)
    (hkind : frame.kind = .timerFired) (hpayload : frame.payload = encode id) :
    apply (⟨state, seq⟩ : Replica svc) frame =
      some (.ok (svc.onTimer state id ⟨frame.seq, frame.timestamp⟩).outputs,
        ⟨(svc.onTimer state id ⟨frame.seq, frame.timestamp⟩).state, frame.seq⟩) := by
  rw [apply_next hseq, step]
  simp only [hkind, hpayload, decodeAll_encode]

theorem apply_fence {epoch first : UInt64} (hseq : frame.seq = seq + 1)
    (hkind : frame.kind = .epochChange)
    (hpayload : frame.payload = encode (epoch, first, svc.SCHEMA_VERSION)) :
    apply (⟨state, seq⟩ : Replica svc) frame = some (.ok [], ⟨state, frame.seq⟩) := by
  rw [apply_next hseq, step]
  simp only [hkind, hpayload, decodeAll_encode]
  simp

theorem apply_control (hseq : frame.seq = seq + 1)
    (hkind : frame.kind = .tick ∨ frame.kind = .snapshotMark) :
    apply (⟨state, seq⟩ : Replica svc) frame = some (.ok [], ⟨state, frame.seq⟩) := by
  rw [apply_next hseq, step]
  rcases hkind with hkind | hkind <;> simp only [hkind]

end Replica

end Ticktape.Transport
