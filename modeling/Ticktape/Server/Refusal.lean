import Ticktape.Server.Place

/-!
# Refused frames

`Replica::apply` (`ticktape-transport/src/replica.rs`) moves the replica on to the seq of a frame before it decodes
the frame, and its callers (`Server::pump`, `Server::build_follower`) drop the result. So a frame that is refused for
what it says counts as applied, and the frames behind it are taken, whatever schema their leader has declared
(`foreign_stream_goes_on`). A refusal stops the replica exactly as far as it is one of the order.
-/

namespace Ticktape.Transport.Replica

open Ticktape.Lib Ticktape.Core Ticktape.Journal Ticktape.Runtime

variable {svc : Service} {r : Replica svc} {frame : Frame}

/-- The payload is what the kind of the frame calls for, and a fence declares this replica's schema. -/
def Acceptable (svc : Service) (frame : Frame) : Prop :=
  match frame.kind with
  | .input => ∃ input : svc.Input, decodeAll frame.payload = .ok input
  | .timerFired => ∃ id : UInt64, decodeAll frame.payload = .ok id
  | .epochChange => 20 ≤ frame.payload.length →
      ∃ epoch first : UInt64, decodeAll frame.payload = .ok (epoch, first, svc.SCHEMA_VERSION)
  | _ => True

/-- **What is refused behind the order check**: the frames that are not acceptable. -/
theorem step_ok_iff : (∃ outputs, (step r frame).1 = .ok outputs) ↔ Acceptable svc frame := by
  unfold step Acceptable
  cases frame.kind with
  | input => cases (decodeAll frame.payload : Except CodecError svc.Input) <;> simp
  | timerFired => cases (decodeAll frame.payload : Except CodecError UInt64) <;> simp
  | epochChange =>
    by_cases hlen : 20 ≤ frame.payload.length
    · cases (decodeAll frame.payload : Except CodecError (UInt64 × UInt64 × UInt32)) with
      | error err => simp [hlen]
      | ok fence =>
        obtain ⟨epoch, first, theirs⟩ := fence
        by_cases htheirs : theirs = svc.SCHEMA_VERSION <;> simp [hlen, htheirs]
    · simp [hlen]
  | _ => simp

/-- A frame out of order changes nothing. -/
theorem apply_other (h : frame.seq ≠ r.seq + 1) : r.apply frame = none ∨
    r.apply frame = some (.error (.outOfOrder (r.seq + 1) frame.seq), r) := by
  unfold apply seqNext
  by_cases hlt : r.seq + 1 < 2 ^ 64
  · rw [if_pos hlt]
    exact Or.inr (if_pos h)
  · rw [if_neg hlt]
    exact Or.inl rfl

end Ticktape.Transport.Replica

namespace Ticktape.Server

open Ticktape.Lib Ticktape.Core Ticktape.Journal Ticktape.Transport Ticktape.Cluster Ticktape.Runtime

variable {svc : Service}

/-! ## A stream of frames -/

/-- **A refused frame stops the replica**: it changes nothing, and behind the refused fence of another schema no frame
of the stream changes anything. -/
def Halts (r : Replica svc) (frames : List Frame) : Prop :=
  ∀ before frame after e r', frames = before ++ frame :: after →
    (Follower.rebuild r before).apply frame = some (.error e, r') →
    r' = Follower.rebuild r before ∧
    ∀ theirs ours seq, e = .schemaMismatch theirs ours seq → ∀ rest, rest <+: after → Follower.rebuild r' rest = r'

/-- Every frame that is the next one, from `seq` on, is acceptable. -/
def Clean (svc : Service) : ℕ → List Frame → Prop
  | _, [] => True
  | seq, frame :: rest =>
    if frame.seq = seq + 1 then Replica.Acceptable svc frame ∧ Clean svc (seq + 1) rest
    else Clean svc seq rest

section Stream

variable {r : Replica svc} {frame : Frame} {before frames rest : List Frame}

theorem rebuild_append (r : Replica svc) (before rest : List Frame) :
    Follower.rebuild r (before ++ rest) = Follower.rebuild (Follower.rebuild r before) rest :=
  List.foldl_append ..

theorem rebuild_cons (r : Replica svc) (frame : Frame) (rest : List Frame) :
    Follower.rebuild r (frame :: rest) = Follower.rebuild (Follower.rebuild r [frame]) rest := rfl

/-- The next frame moves the replica on, whatever it says. -/
theorem rebuild_next (h : frame.seq = r.seq + 1) :
    Follower.rebuild r [frame] = (Replica.step { r with seq := frame.seq } frame).2 := by
  simp only [Follower.rebuild, List.foldl_cons, List.foldl_nil, Replica.apply_next h, Option.map_some,
    Option.getD_some]

theorem rebuild_other (h : frame.seq ≠ r.seq + 1) : Follower.rebuild r [frame] = r := by
  rcases Replica.apply_other h with happly | happly <;> simp [Follower.rebuild, happly]

/-- The seq of the replica says how many frames it has taken. -/
theorem clean_append (h : Clean svc r.seq (before ++ rest)) : Clean svc (Follower.rebuild r before).seq rest := by
  induction before generalizing r with
  | nil => exact h
  | cons frame before ih =>
    rw [rebuild_cons]
    rw [List.cons_append, Clean] at h
    by_cases hseq : frame.seq = r.seq + 1
    · rw [if_pos hseq] at h
      refine ih ?_
      rw [rebuild_next hseq, Replica.step_seq, hseq]
      exact h.2
    · rw [if_neg hseq] at h
      refine ih ?_
      rw [rebuild_other hseq]
      exact h

/-- What is left of a stream behind its first frame. -/
theorem Halts.tail (h : Halts r (frame :: rest)) : Halts (Follower.rebuild r [frame]) rest := by
  intro before f after e r' hsplit hrefused
  exact h (frame :: before) f after e r' (by rw [hsplit, List.cons_append]) hrefused

/-- **Refusals stop the replica exactly on streams whose next frames are all acceptable**, where nothing is refused
but frames out of order. -/
theorem halts_iff_clean : Halts r frames ↔ Clean svc r.seq frames := by
  constructor
  · intro h
    induction frames generalizing r with
    | nil => trivial
    | cons frame rest ih =>
      have htail := ih h.tail
      rw [Clean]
      by_cases hseq : frame.seq = r.seq + 1
      · rw [if_pos hseq]
        rw [rebuild_next hseq, Replica.step_seq, hseq] at htail
        refine ⟨?_, htail⟩
        by_contra hbad
        -- the refused frame has moved the seq
        have happly := Replica.apply_next hseq
        cases hstep : (Replica.step { r with seq := frame.seq } frame).1 with
        | ok outputs => exact hbad (Replica.step_ok_iff.mp ⟨outputs, hstep⟩)
        | error e =>
          have hsame := (h [] frame rest e _ rfl (happly.trans (by rw [← hstep]))).1
          have hmoved := Replica.step_seq { r with seq := frame.seq } frame
          rw [hsame] at hmoved
          have hstill : r.seq = frame.seq := hmoved
          omega
      · rw [if_neg hseq]
        rwa [rebuild_other hseq] at htail
  · rintro h before frame after e r' rfl hrefused
    have hrest := clean_append h
    rw [Clean] at hrest
    by_cases hseq : frame.seq = (Follower.rebuild r before).seq + 1
    · rw [if_pos hseq] at hrest
      rw [Replica.apply_next hseq] at hrefused
      obtain ⟨outputs, hok⟩ := Replica.step_ok_iff (r := { Follower.rebuild r before with seq := frame.seq }).mpr
        hrest.1
      rw [Option.some.inj hrefused] at hok
      cases hok
    · rcases Replica.apply_other hseq with happly | happly
      · rw [happly] at hrefused
        cases hrefused
      · rw [happly] at hrefused
        obtain ⟨heq, rfl⟩ := Prod.mk.inj (Option.some.inj hrefused)
        obtain rfl := Except.error.inj heq
        exact ⟨rfl, by simp⟩

end Stream

/-! ## A follower -/

namespace Replicating

variable {m m' : Replicating svc} {config : svc.Config}

/-- **The replica is what its journal makes of it.** -/
def Rebuilt (config : svc.Config) (m : Replicating svc) : Prop :=
  m.follower.replica = Follower.rebuild (.new config) m.follower.journal

/-- One frame out of the receiver. -/
theorem Rebuilt.onFrame (h : Rebuilt config m) (frame : Frame) :
    Rebuilt config { m with follower := m.follower.onFrame frame } := by
  unfold Follower.onFrame
  by_cases hseq : frame.seq = m.follower.applied + 1
  · rw [if_pos hseq]
    show _ = Follower.rebuild _ (m.follower.journal ++ [frame])
    rw [rebuild_append, ← show m.follower.replica = _ from h]
    rfl
  · rw [if_neg hseq]
    exact h

theorem maintains_onFrame (config : svc.Config) (frame : Frame) :
    Maintains (Rebuilt config) (onFrame frame : Prog (Replicating svc) JStore PumpError ℕ) := by
  refine maintains_bind maintains_mem fun m => ?_
  have hnext : Frozen (nextSeq m.follower.applied : Prog (Replicating svc) JStore PumpError ℕ) :=
    fun _ => Node.mwp_nextSeq _
  refine maintains_bind hnext.maintains fun next => ?_
  split
  · refine maintains_bind ?_ fun _ => ?_
    · exact fun _ h => mwp_zoom (mwp_mapErr (mwp_mono mwp_trivial (fun _ _ _ => h) fun _ _ _ => h))
    · exact maintains_bind (maintains_update fun _ h => Rebuilt.onFrame h frame) fun _ => maintains_pure _
  · exact maintains_pure _

/-- **Step lemma**: pumping keeps that, also when it fails. -/
theorem maintains_rebuilt (config : svc.Config) (fuel : ℕ) (rounds : List Round) :
    Maintains (Rebuilt config) (pump fuel rounds : Prog (Replicating svc) JStore PumpError ℕ) := by
  induction fuel generalizing rounds with
  | zero => exact maintains_pure _
  | succ fuel ih =>
    refine maintains_bind maintains_mem fun m => maintains_bind (maintains_update fun _ h => h) fun _ => ?_
    cases (Receiver.poll m.follower.reassembler rounds).1 with
    | error e => exact (frozen_fail _).maintains
    | ok polled =>
      cases polled with
      | none =>
        simp only
        split
        · exact maintains_pure _
        · exact ih _
      | some frame =>
        exact maintains_bind (maintains_onFrame config frame) fun _ => maintains_bind (ih _) fun _ => maintains_pure _

end Replicating

/-- The followers that recovery and any number of pumps lead to, whether these return or fail. -/
inductive Driven (config : svc.Config) : Replicating svc → Prop where
  | built (acceptor : Acceptor) (recovered : Recovered) :
      Driven config ⟨buildFollower config acceptor recovered, recovered.journal⟩
  | pumped {m m' : Replicating svc} {w w' : World JStore} (fuel : ℕ) (rounds : List Round) : Driven config m →
      left (Replicating.pump fuel rounds m w) = some (m', w') → Driven config m'

/-- **Run lemma.** -/
theorem Driven.rebuilt {config : svc.Config} {m : Replicating svc} (h : Driven config m) :
    Replicating.Rebuilt config m := by
  induction h with
  | built => rfl
  | pumped fuel rounds _ hrun ih =>
    exact mwp_left (Replicating.maintains_rebuilt config fuel rounds _ ih) hrun

/-- **A refused frame stops the replica exactly if no frame that is next in order is refused**: for a replica that is
fed any frames, and for a follower that is rebuilt from a journal and pumps. -/
theorem refused_frame_stops_replica :
    (∀ (r : Replica svc) (frames : List Frame), Halts r frames ↔ Clean svc r.seq frames) ∧
    ∀ (config : svc.Config) (m : Replicating svc), Driven config m →
      m.follower.replica = Follower.rebuild (.new config) m.follower.journal ∧
      (Halts (.new config) m.follower.journal ↔ Clean svc 0 m.follower.journal) :=
  ⟨fun _ _ => halts_iff_clean, fun _ _ h => ⟨h.rebuilt, halts_iff_clean⟩⟩

/-! ## A run -/

/-- The fence of a leader whose schema is not that of the replica. -/
def foreignFence : Frame :=
  { Deployment.fenceFrame 1 1 with
    payload := encode ((1 : UInt64), (1 : UInt64), (2 : UInt32))
    payload_le := by simp [encode, MAX_PAYLOAD_LEN] }

/-- A follower on an empty directory receives that fence and the input behind it. -/
def foreignPump : Outcome (Replicating doubler) JStore PumpError ℕ :=
  Replicating.pump 3 [Deployment.datagram [foreignFence, Deployment.inputFrame 5 2]]
    ⟨buildFollower () .new ⟨emptyJournal, [], 1, false⟩, emptyJournal⟩ emptyWorld

/-- **A refused stream goes on.** The fence is refused for its schema, and the input behind it is applied. -/
theorem foreign_stream_goes_on : ∃ m : Replicating doubler, Driven () m ∧
    m.follower.journal = [foreignFence, Deployment.inputFrame 5 2] ∧
    (Replica.new () : Replica doubler).apply foreignFence =
      some (.error (.schemaMismatch 2 1 1), ⟨(0 : UInt64), 1⟩) ∧
    m.follower.replica = ⟨(5 : UInt64), 2⟩ ∧ ¬Halts (Replica.new () : Replica doubler) m.follower.journal := by
  have hrun : foreignPump.returned.any (fun p => decide (p.2.1.follower.journal =
      [foreignFence, Deployment.inputFrame 5 2])) = true := by decide +kernel
  obtain ⟨⟨applied, m, w⟩, hrun, hjournal⟩ := (Option.any_eq_true _ _).mp hrun
  replace hjournal : m.follower.journal = _ := of_decide_eq_true hjournal
  rw [Outcome.returned_eq_some] at hrun
  have hdriven : Driven () m := by
    have hleft : left (Replicating.pump 3 [Deployment.datagram [foreignFence, Deployment.inputFrame 5 2]]
        ⟨buildFollower () .new ⟨emptyJournal, [], 1, false⟩, emptyJournal⟩ emptyWorld) = some (m, w) := by
      rw [show Replicating.pump _ _ _ _ = _ from hrun]
      rfl
    exact .pumped 3 _ (.built .new ⟨emptyJournal, [], 1, false⟩) hleft
  have hrefused : (Replica.new () : Replica doubler).apply foreignFence =
      some (.error (.schemaMismatch 2 1 1), ⟨(0 : UInt64), 1⟩) := by rfl
  have hrebuilt : m.follower.replica = ⟨(5 : UInt64), 2⟩ := by
    rw [hdriven.rebuilt, hjournal]
    rfl
  refine ⟨m, hdriven, hjournal, hrefused, hrebuilt, fun h => ?_⟩
  have hsame := (h [] foreignFence [Deployment.inputFrame 5 2] _ _ hjournal hrefused).1
  cases hsame

end Ticktape.Server
