import Ticktape.Runtime.Run

/-!
# Recovery equals replay

The relation between states and histories that the contract is about: a state and a wheel belong to a list of
frames when replaying the list from genesis rebuilds them, up to how the application's states behave. Every step of
a node respects it, so it holds along every run whose snapshots fit their length field and whose batches are quiet.
-/

namespace Ticktape.Runtime

open Ticktape.Lib Ticktape.Core Ticktape.Journal

variable {svc : Service} {config : svc.Config} {R : svc.State → svc.State → Prop}

/-- Replaying `past` from genesis rebuilds the wheel, and a state that behaves alike. -/
def Replays (config : svc.Config) (R : svc.State → svc.State → Prop) (past : List Frame) (state : svc.State)
    (timers : TimerWheel) : Prop :=
  ∃ r, Node.replay (Node.genesis svc config) past = .ok r ∧ R state r.service ∧ timers = r.timers

theorem replay_append (r : Node.Replayed svc) (xs ys : List Frame) :
    Node.replay r (xs ++ ys) =
      match Node.replay r xs with
      | .error e => .error e
      | .ok r' => Node.replay r' ys := by
  induction xs generalizing r with
  | nil => rfl
  | cons x xs ih =>
    rw [List.cons_append, Node.replay, Node.replay]
    cases Node.replayFrame r x with
    | error e => rfl
    | ok r' => exact ih r'

/-- One more frame. -/
theorem replay_snoc {r r' r'' : Node.Replayed svc} {past : List Frame} {frame : Frame}
    (hpast : Node.replay r past = .ok r') (hframe : Node.replayFrame r' frame = .ok r'') :
    Node.replay r (past ++ [frame]) = .ok r'' := by
  rw [replay_append, hpast]
  simp only [Node.replay, hframe]

/-- **The steps of a node agree with replay.** -/
theorem tracks_replays (h : svc.Lawful config R) : Tracks config (Replays config R) where
  genesis := ⟨_, rfl, h.genesis, rfl⟩
  input := by
    rintro past state timers frame input ⟨r, hpast, hR, rfl⟩ hkind hdec
    obtain ⟨hstate, -, htimers⟩ := h.bisim.apply hR frame.seq input ⟨frame.seq, frame.timestamp⟩
    refine ⟨Node.replayStep r frame fun state ctx => svc.apply state frame.seq input ctx, replay_snoc hpast ?_,
      hstate, by rw [htimers]; rfl⟩
    simp only [Node.replayFrame, hkind, hdec h.toCodecs]
  timer := by
    rintro past state timers frame id ⟨r, hpast, hR, rfl⟩ hkind hdec
    obtain ⟨hstate, -, htimers⟩ := h.bisim.onTimer hR id ⟨frame.seq, frame.timestamp⟩
    refine ⟨Node.replayStep { r with timers := r.timers.cancel id } frame fun state ctx => svc.onTimer state id ctx,
      replay_snoc hpast ?_, hstate, by rw [htimers]; rfl⟩
    simp only [Node.replayFrame, hkind, hdec]
  control := by
    rintro past state timers frame ⟨r, hpast, hR, rfl⟩ hinput htimer
    refine ⟨r, replay_snoc hpast ?_, hR, rfl⟩
    cases hkind : frame.kind with
    | input => exact absurd hkind hinput
    | timerFired => exact absurd hkind htimer
    | _ => simp only [Node.replayFrame, hkind]
  restore := by
    rintro past state timers ⟨r, hpast, hR, rfl⟩
    exact ⟨r, hpast, h.trans (h.restore (h.trans hR (h.symm hR))) hR, rfl⟩

/-- No snapshot has been written whose length did not fit its header field. -/
def Fitting (w : World JStore) : Prop := w.st.ghost.oversize = false

/-- Runs of operations in turn, whose snapshots fit. -/
abbrev TurnRun (config : svc.Config) : Option (Node svc) → JStore → Prop :=
  NodeRun config (fun _ => Fitting) fun n op => op.InTurn n

theorem tracked_replays (h : svc.Lawful config R) :
    Tracked config (fun _ => Fitting) (fun n op => op.InTurn n) (Replays config R) where
  tracks := tracks_replays h
  reliable := fun hsize _ _ _ => Or.inl ⟨hsize, h.toCodecs⟩
  recovers := Or.inr ⟨h.toCodecs, fun _ _ hsize => hsize⟩
  grants := Or.inl

/-! ## Snapshots that power interrupts -/

/-- **A snapshot write that power interrupts** before it is synced. -/
theorem write_interrupted (μ : Type) {w : World JStore} {seq : ℕ} (epoch : ℕ) {payload : Bytes} {rest : List Fate}
    (hfates : w.fates = .ok :: .ok :: .cut :: rest) (hnew : w.st.disk.get (snapName seq) = none)
    (hlong : 2 ^ 32 ≤ payload.length) :
    ∃ w', (∀ m : μ, Snapshots.write seq epoch payload m w = .down w') ∧
      w'.st.disk.get (snapName seq) = some ⟨[], snapshotBytes seq epoch payload⟩ ∧
      (∀ k, k ≠ snapName seq → w'.st.disk.get k = w.st.disk.get k) ∧
      w'.st.ghost = { w.st.ghost with oversize := true } := by
  obtain ⟨s, fates, instants⟩ := w
  obtain rfl : fates = _ := hfates
  have hcreate : Disk.createNew (snapName seq) s.disk = (.ok (), s.disk.put (snapName seq) ⟨[], []⟩) := by
    rw [Disk.createNew, hnew]
  have hwrite : ∀ buf, Disk.onFile (snapName seq) (·.write buf) (s.disk.put (snapName seq) ⟨[], []⟩) =
      (.ok (), (s.disk.put (snapName seq) ⟨[], []⟩).put (snapName seq) ⟨[], buf⟩) := fun buf => by
    rw [Disk.onFile, Disk.get_put_self]
    rfl
  refine ⟨⟨⟨(s.disk.put (snapName seq) ⟨[], []⟩).put (snapName seq) ⟨[], snapshotBytes seq epoch payload⟩,
    { s.ghost with oversize := true }⟩, .cut :: rest, instants⟩, fun m => ?_, ?_, ?_, rfl⟩
  · simp only [Snapshots.write, record, Prog.note, bind, Prog.andThen, io, Prog.mapErr, createNew, diskCall, Prog.call,
      hcreate, writeAll, hwrite, syncData, List.tail_cons, hlong, decide_true, Bool.or_true]
  · exact Disk.get_put_self ..
  · intro k hk
    exact (Disk.get_put_of_ne _ _ hk.symm).trans (Disk.get_put_of_ne _ _ hk.symm)

/-- A node that submits an input, and loses power while it writes the snapshot. -/
theorem submit_interrupted {svc : Service} {n n' : Node svc} {w w' : World JStore} {frame : Frame} {fuel : ℕ}
    {input : svc.Input} {state : svc.State} {rest : List Fate}
    (hsequence : Node.sequence .input (encode input) n w = .ok frame n' w')
    (happly : svc.apply n'.service frame.seq input ⟨frame.seq, frame.timestamp⟩ = ⟨state, [], []⟩)
    (hevery : n'.snapshotEvery = some 1) (hfates : w'.fates = .ok :: .ok :: .cut :: rest)
    (hnew : w'.st.disk.get (snapName frame.seq) = none)
    (hlong : 2 ^ 32 ≤ (Node.snapshotPayload svc state n'.timers).length) :
    ∃ w'', (NodeOp.submit fuel input).run n w = .down w'' ∧
      w''.st.disk.get (snapName frame.seq) =
        some ⟨[], snapshotBytes frame.seq 0 (Node.snapshotPayload svc state n'.timers)⟩ ∧
      (∀ k, k ≠ snapName frame.seq → w''.st.disk.get k = w'.st.disk.get k) ∧
      w''.st.ghost = { w'.st.ghost with oversize := true } := by
  obtain ⟨w'', hwrite, hleft⟩ := write_interrupted (Node svc) 0 hfates hnew hlong
  refine ⟨w'', ?_, hleft⟩
  have hcadence : frame.seq % max 1 1 = 0 := by rw [max_self, Nat.mod_one]
  simp only [NodeOp.run, Node.submit, bind, Prog.andThen, hsequence, Node.runStep, Prog.mem, Prog.update, happly,
    Node.finishFrame, Node.publish, Node.maybeSnapshot, hevery, Prog.when, if_pos hcadence, Node.takeSnapshot,
    Node.onSnapshots, Prog.mapErr, pure, Prog.ret, TimerWheel.applyAll, List.foldl_nil, hwrite]

/-! ## A snapshot too long for its length field -/

/-- Zeros that make a snapshot payload four bytes longer than its length field can say. -/
def ballast : Bytes := List.replicate (2 ^ 32 - 8) 0

theorem ballast_length : ballast.length = 2 ^ 32 - 8 := by
  rw [ballast, List.length_replicate]

/-- A long snapshot. Its first eight bytes are a payload without timers, and its checksum. -/
def bulk : Bytes := withCrc (leBytes 4 0) ++ ballast

/-- The snapshot of a service that has seen an input is long. -/
def latchEncode (seen : Bool) : Bytes := if seen then bulk else [1]

/-- What is not known is taken for the snapshot of a service that has seen nothing. -/
def latchDecode (buf : Bytes) : Except CodecError (Bool × Bytes) :=
  if bulk.isPrefixOf buf then .ok (true, buf.drop bulk.length)
  else if buf.head? = some 1 then .ok (false, buf.tail)
  else .ok (false, buf)

theorem latchDecode_encode (seen : Bool) (rest : Bytes) : latchDecode (latchEncode seen ++ rest) = .ok (seen, rest) := by
  cases seen with
  | true =>
    have hprefix : bulk.isPrefixOf (bulk ++ rest) = true := List.isPrefixOf_iff_prefix.mpr (List.prefix_append ..)
    show latchDecode (bulk ++ rest) = _
    rw [latchDecode, if_pos hprefix, List.drop_left]
  | false =>
    -- the first bytes differ
    have hother : ¬bulk.isPrefixOf ([1] ++ rest) = true := Bool.false_ne_true
    show latchDecode ([1] ++ rest) = _
    rw [latchDecode, if_neg hother]
    rfl

/-- A service that remembers whether it has seen an input. -/
def latch : Service where
  State := Bool
  Input := UInt64
  Output := UInt64
  Snapshot := Bool
  Config := Unit
  encodeSnapshot := ⟨latchEncode⟩
  decodeSnapshot := ⟨latchDecode⟩
  SCHEMA_VERSION := 1
  genesis _ := false
  apply _ _ _ _ := ⟨true, [], []⟩
  onTimer seen _ _ := ⟨seen, [], []⟩
  snapshot seen := seen
  restore seen _ := seen

theorem latch_lawful : latch.Lawful () Eq where
  input := inferInstanceAs (LawfulCodec UInt64)
  snapshot := ⟨latchDecode_encode⟩
  symm := Eq.symm
  trans := Eq.trans
  genesis := rfl
  bisim := ⟨fun h _ _ _ => h ▸ ⟨rfl, rfl, rfl⟩, fun h _ _ => h ▸ ⟨rfl, rfl, rfl⟩, fun h => h ▸ rfl⟩
  restore := fun _ => rfl

/-- The file that is left: the header, with the length cut to 32 bits, and as much as it says. -/
def remnant : Bytes := withCrc (snapshotHeaderFields 1 0 4) ++ withCrc (leBytes 4 0)

/-- What it is of: a snapshot without timers. -/
def latchPayload : Bytes := bulk ++ leBytes 4 0

theorem latchPayload_length : latchPayload.length = 2 ^ 32 + 4 := by
  rw [latchPayload, bulk, withCrc, List.length_append, List.length_append, List.length_append, leBytes_length,
    leBytes_length, ballast_length]
  omega

theorem snapshotPayload_latch {timers : TimerWheel} (h : timers.snapshot = []) :
    Node.snapshotPayload latch true timers = latchPayload := by
  show bulk ++ encode timers.snapshot = _
  rw [h]
  rfl

theorem take_latchPayload : (snapshotBytes 1 0 latchPayload).take remnant.length = remnant := by
  -- the length field says four
  have hfields : snapshotHeaderFields 1 0 (2 ^ 32 + 4) = snapshotHeaderFields 1 0 4 := rfl
  have hbytes : snapshotBytes 1 0 latchPayload =
      remnant ++ (ballast ++ (leBytes 4 0 ++ leBytes 4 (crc32c latchPayload).toNat)) := by
    rw [snapshotBytes, latchPayload_length, hfields, remnant, withCrc.eq_1 latchPayload]
    nth_rewrite 1 [latchPayload]
    rw [bulk]
    simp only [List.append_assoc]
  rw [hbytes, List.take_left]

/-- A node that takes a snapshot at every frame, the world in which power is lost while it writes the first one, and
what is left of it. -/
structure Latched where
  node : Node latch
  before : World JStore
  frame : Frame
  sequenced : Node latch
  world : World JStore

/-- Open an empty directory and sequence one input. -/
def latched : Option Latched := do
  let (n, _, w) ← (Node.openWith ⟨⟨1024, .everyFrame⟩, 1, some 1, 1, none⟩ () (fun _ => 5) ()
    (.healthy ⟨Disk.empty, History.fresh⟩)).returned
  let before := ⟨resume w.st n.seq, List.replicate 8 Fate.ok ++ [.cut], fun _ => 0⟩
  let (frame, n', w') ← (@Node.sequence latch .input (encode (0 : UInt64)) n before).returned
  pure ⟨n, before, frame, n', w'⟩

/-- What is left of the directory. -/
def Latched.left (c : Latched) : JStore :=
  ⟨c.world.st.disk.settle.put (snapName 1) ⟨remnant, []⟩, { c.world.st.ghost with oversize := true }⟩

theorem nodeRun_latched {c : Latched} (h : latched = some c) (hseq : c.frame.seq = 1)
    (hevery : c.sequenced.snapshotEvery = some 1) (htimers : c.sequenced.timers.snapshot = [])
    (hfates : c.world.fates = [.ok, .ok, .cut]) (hnew : c.world.st.disk.get (snapName 1) = none) :
    NodeRun () (fun _ _ => True) (fun n op => op.InTurn n) (none : Option (Node latch)) c.left := by
  simp only [latched, bind, Option.bind_eq_some_iff] at h
  obtain ⟨⟨n, _, w⟩, hopen, ⟨frame, n', w'⟩, hsequence, heq⟩ := h
  cases heq
  rw [Outcome.returned_eq_some] at hopen hsequence
  have hbenign : ∀ s : JStore, (World.healthy s).Benign := fun s f hf => by cases hf
  have hnode : NodeRun () (fun _ _ => True) (fun n op => op.InTurn n) (some n) (resume w.st n.seq) :=
    .opened (w := .healthy _) _ _ .start (hbenign _) trivial hopen
  have hseq : frame.seq = 1 := hseq
  have hlong : 2 ^ 32 ≤ (Node.snapshotPayload latch true n'.timers).length := by
    rw [snapshotPayload_latch htimers, latchPayload_length]
    exact Nat.le_add_right ..
  obtain ⟨w₁, hrun, hget, hother, hghost⟩ := submit_interrupted hsequence rfl hevery hfates
    (by rw [hseq]; exact hnew) hlong
  refine .lostDuring (w := ⟨resume w.st n.seq, _, _⟩) (.submit 0 (0 : UInt64)) hnode ?_ trivial hrun ⟨?_, hghost.symm⟩
  · intro f hf
    rcases List.mem_append.mp hf with hok | hcut
    · rw [List.eq_of_mem_replicate hok]
      trivial
    · rw [List.mem_singleton.mp hcut]
      trivial
  · intro k
    by_cases hk : k = snapName 1
    · subst hk
      rw [hseq, snapshotPayload_latch htimers] at hget
      rw [hget, Latched.left, Disk.get_put_self]
      have htorn := Torn.take (snapshotBytes 1 0 latchPayload) remnant.length
      rw [take_latchPayload] at htorn
      exact .some ⟨remnant, htorn, rfl⟩
    · rw [hother k (hseq ▸ hk), Latched.left, Disk.get_put_of_ne _ _ (Ne.symm hk)]
      exact w'.st.disk.powerLoss_settle k

/-- Open what is left. -/
def Latched.reopen (c : Latched) : Outcome Unit JStore NodeError (Node latch) :=
  Node.openWith ⟨⟨1024, .everyFrame⟩, 1, some 1, 1, none⟩ () (fun _ => 5) () (.healthy c.left)

/-- Replay ends in a state that has seen an input. -/
def remembers : Except NodeError (Node.Replayed latch) → Bool
  | .ok r => r.service
  | .error _ => false

/-! ## Recovery -/

/-- **Recovery equals replay of history**: whenever a node opens after a power loss, its state and its wheel are those
of the frames up to its tip, and no frame that was synced is above the tip. -/
theorem recovery_replays (h : svc.Lawful config R) {w w' : World JStore} {n : Node svc} {nodeConfig : NodeConfig}
    {clock : ℕ → UInt64} (hrun : TurnRun config none w.st) (hw : w.Benign) (hfits : Fitting w)
    (hopen : Node.openWith nodeConfig config clock () w = .ok n () w') :
    Replays config R (w.st.ghost.tape.take n.seq) n.service n.timers ∧ n.seq ≤ w.st.ghost.tape.length ∧
      w.st.ghost.durable ≤ n.seq := by
  have hloss : Node.NLoss _ w.st := (tracked_replays h).run_inv hrun
  obtain ⟨r, u, w₁, fromSeq, hjournal, hfound, hsame, htape, hopened⟩ :=
    ((tracked_replays h).opened hloss hw hfits hopen).1
  have hlive := hopened.live h.toCodecs (hsame.2.2.trans hfits)
  rw [htape] at hlive
  have hdurable := hloss.durable_le hw hjournal
  have hseq := hopened.seq
  have hbound := hfound.bound
  have hreach := hopened.resuming.bound
  rw [htape] at hbound hreach
  exact ⟨hlive, by omega, by omega⟩

/-- Open an empty directory, submit one input, lose what was not synced, and open again. -/
def reopenedAfterLoss : Option (JStore × Node doubler × World JStore) := do
  let (n, _, w) ← (Node.openWith ⟨⟨1024, .everyFrame⟩, 1, some 1, 1, none⟩ () (fun _ => 5) ()
    (.healthy ⟨Disk.empty, History.fresh⟩)).returned
  let (_, _, w') ← ((NodeOp.submit 4 (7 : UInt64) : NodeOp doubler).run n (.healthy (resume w.st n.seq))).returned
  let s := ⟨w'.st.disk.strip, w'.st.ghost⟩
  let (n', _, w'') ← (Node.openWith ⟨⟨1024, .everyFrame⟩, 1, some 1, 1, none⟩ () (fun _ => 5) () (.healthy s)).returned
  pure (s, n', w'')

/-- An input, its timer and their snapshots. -/
theorem recovery_replays_of_one_input : ∃ (w : World JStore) (n : Node doubler), w.st.ghost.durable = 4 ∧ n.seq = 4 ∧
    Replays () Eq (w.st.ghost.tape.take n.seq) n.service n.timers ∧ n.seq ≤ w.st.ghost.tape.length ∧
      w.st.ghost.durable ≤ n.seq := by
  have hvals : reopenedAfterLoss.any (fun r => decide (r.1.ghost.durable = 4 ∧ r.2.1.seq = 4 ∧
      r.1.ghost.oversize = false)) = true := by decide +kernel
  obtain ⟨⟨s, n', w''⟩, hrun, hvals⟩ := (Option.any_eq_true _ _).mp hvals
  obtain ⟨hdurable, hseq, hfits⟩ := of_decide_eq_true hvals
  simp only [reopenedAfterLoss, bind, Option.bind_eq_some_iff] at hrun
  obtain ⟨⟨n, _, w⟩, hopen, ⟨_, n₁, w₁⟩, hsubmit, ⟨n₂, _, w₂⟩, hreopen, heq⟩ := hrun
  cases heq
  rw [Outcome.returned_eq_some] at hopen hsubmit hreopen
  have hbenign : ∀ s : JStore, (World.healthy s).Benign := fun s f hf => by cases hf
  have hnode : TurnRun () (some n) (resume w.st n.seq) :=
    .opened (w := .healthy _) _ _ .start (hbenign _) rfl hopen
  have hdone : TurnRun () (some n₁) w₁.st :=
    .done (w := .healthy _) (.submit 4 (7 : UInt64)) hnode (hbenign _) trivial hsubmit
  have hlost : TurnRun () (none : Option (Node doubler)) ⟨w₁.st.disk.strip, w₁.st.ghost⟩ :=
    .lost hdone ⟨Disk.powerLoss_strip _, rfl⟩
  exact ⟨.healthy _, n₂, hdurable, hseq,
    recovery_replays doubler_lawful (w := .healthy _) hlost (hbenign _) hfits hreopen⟩

/-- **A snapshot that lies**: what is left of one that did not fit its length field is taken for a whole one, and the
node that opens does not remember the input that its journal holds. -/
theorem long_snapshot_lies : latch.Lawful () Eq ∧ ∃ (w w' : World JStore) (n : Node latch),
    NodeRun () (fun _ _ => True) (fun n op => op.InTurn n) (none : Option (Node latch)) w.st ∧ w.Calm ∧
      Node.openWith ⟨⟨1024, .everyFrame⟩, 1, some 1, 1, none⟩ () (fun _ => 5) () w = .ok n () w' ∧
      ¬Replays () Eq (w.st.ghost.tape.take n.seq) n.service n.timers := by
  have hrun : latched.any (fun c => decide (c.frame.seq = 1 ∧ c.sequenced.snapshotEvery = some 1 ∧
      c.sequenced.timers.snapshot = [] ∧ c.world.fates = [.ok, .ok, .cut]) &&
      (c.world.st.disk.get (snapName 1)).isNone && c.reopen.returned.any fun r => !r.1.service &&
        remembers (Node.replay (Node.genesis latch ()) (c.left.ghost.tape.take r.1.seq))) = true := by decide +kernel
  obtain ⟨c, hc, hvals⟩ := (Option.any_eq_true _ _).mp hrun
  simp only [Bool.and_eq_true, decide_eq_true_eq, Option.isNone_iff_eq_none] at hvals
  obtain ⟨⟨⟨hseq, hevery, htimers, hfates⟩, hnew⟩, hreopen⟩ := hvals
  obtain ⟨⟨n, _, w'⟩, hopen, hstate⟩ := (Option.any_eq_true _ _).mp hreopen
  obtain ⟨hforgot, hreplay⟩ := Bool.and_eq_true_iff.mp hstate
  have hcalm : (World.healthy c.left).Calm := fun f hf => by cases hf
  refine ⟨latch_lawful, .healthy c.left, w', n, nodeRun_latched hc hseq hevery htimers hfates hnew, hcalm,
    Outcome.returned_eq_some.mp hopen, ?_⟩
  rintro ⟨r, hr, hsame, -⟩
  -- the input is in the journal, but not in the state
  have hremembered : remembers (.ok r) = true := (congrArg remembers hr).symm.trans hreplay
  have hseen : n.service = true := hsame.trans hremembered
  exact absurd ((congrArg not hseen).symm.trans hforgot) Bool.false_ne_true

/-! ## Batches -/

/-- Every snapshot file that parses is at its own seq, and captures the replay of the frames up to there. -/
def Captured (config : svc.Config) (R : svc.State → svc.State → Prop) (s : JStore) : Prop :=
  ∀ p ∈ snaps s, ∀ snap, parseSnapshot p.2.combined = some snap → snap.seq = p.1 ∧
    ∃ state timers, Replays config R (s.ghost.tape.take p.1) state timers ∧
      snap.payload = Node.snapshotPayload svc state timers

theorem captured_of_shelf {tip : ℕ} {s : JStore} (h : ShelfAt (Good (Replays config R)) tip s)
    (hfits : s.ghost.oversize = false) : Captured config R s := by
  rcases h with hover | hshelf
  · rw [hfits] at hover
    cases hover
  rintro ⟨p, f⟩ hp snap hsnap
  rcases (hshelf.files p f hp).2 with hvalid | hunusable
  · obtain ⟨payload, hfits, hparse⟩ := hvalid.parse
    obtain rfl : _ = snap := Option.some.inj (hparse.symm.trans hsnap)
    exact ⟨rfl, hfits.good⟩
  · rw [hunusable.1.2] at hsnap
    cases hsnap

/-- **Group commit preserves replay**: behind a quiet batch the state and the wheel are those of the whole history, and
at no point of the call is there a snapshot that captures anything but the replay of the frames up to its seq. -/
theorem submitBatch_replays (h : svc.Lawful config R) {w : World JStore} {n : Node svc} {inputs : List svc.Input}
    (fuel : ℕ) (hrun : TurnRun config (some n) w.st) (hw : w.Benign) (hquiet : n.QuietBatch inputs)
    (hlevel : inputs ≠ [] ∨ n.seq = w.st.ghost.tape.length) :
    (∀ results n' w', Node.submitBatch fuel inputs n w = .ok results n' w' →
      Replays config R w'.st.ghost.tape n'.service n'.timers ∧ (Fitting w' → Captured config R w'.st)) ∧
    ∀ w' s', Node.submitBatch fuel inputs n w = .down w' → w'.st.PowerLoss s' → s'.ghost.oversize = false →
      Captured config R s' := by
  obtain ⟨tip, hinv⟩ : NodeRunInv (Replays config R) (some n) w.st := (tracked_replays h).run_inv hrun
  have hspec := Node.wp_submitBatch_quiet benign_no_fault (tracks_replays h) fuel inputs hquiet hinv
  refine ⟨fun results n' w' hok => ?_, fun w' s' hdown hl hfits => ?_⟩
  · have hpost := wp_ok hspec hw hok
    obtain ⟨hinv', hcurrent⟩ := hpost
    exact ⟨(hcurrent hlevel).live, fun hfits => captured_of_shelf hinv'.store.shelf hfits⟩
  · have hcrash := wp_down hspec hw hdown
    exact captured_of_shelf (hcrash.loss hl).shelf hfits

/-- A fresh node that takes a snapshot at every frame, before and after a batch. -/
structure Commit where
  node : Node doubler
  store : JStore
  results : List (ℕ × List UInt64)
  next : Node doubler
  world : World JStore

/-- Open an empty directory and submit a batch. -/
def groupCommit (inputs : List UInt64) : Option Commit := do
  let (n, _, w) ← (Node.openWith ⟨⟨1024, .everyFrame⟩, 1, some 1, 1, none⟩ () (fun _ => 5) ()
    (.healthy ⟨Disk.empty, History.fresh⟩)).returned
  let s := resume w.st n.seq
  let (results, n', w') ← (@Node.submitBatch doubler 4 inputs n (.healthy s)).returned
  pure ⟨n, s, results, n', w'⟩

theorem nodeRun_groupCommit {inputs : List UInt64} {c : Commit} (h : groupCommit inputs = some c) :
    TurnRun () (some c.node) c.store ∧
      Node.submitBatch 4 inputs c.node (.healthy c.store) = .ok c.results c.next c.world := by
  simp only [groupCommit, bind, Option.bind_eq_some_iff] at h
  obtain ⟨⟨n, _, w⟩, hopen, ⟨results, n', w'⟩, hbatch, heq⟩ := h
  cases heq
  rw [Outcome.returned_eq_some] at hopen hbatch
  have hbenign : ∀ s : JStore, (World.healthy s).Benign := fun s f hf => by cases hf
  exact ⟨NodeRun.opened (w := .healthy _) _ _ .start (hbenign _) rfl hopen, hbatch⟩

/-- A batch of one input: its timer fires behind it, and both frames have their snapshots. -/
theorem submitBatch_replays_of_one_input : ∃ (w w' : World JStore) (n n' : Node doubler),
    w'.st.ghost.tape.length = 4 ∧ Replays () Eq w'.st.ghost.tape n'.service n'.timers ∧
      (Fitting w' → @Captured doubler () Eq w'.st) ∧
      Node.submitBatch 4 ([7] : List UInt64) n w = .ok ([(1, [7, 14])] : List (ℕ × List UInt64)) n' w' := by
  have hrun : (groupCommit [7]).any (fun c => decide (c.world.st.ghost.tape.length = 4 ∧
      c.results = [(1, [7, 14])])) = true := by decide +kernel
  obtain ⟨c, hrun, hvals⟩ := (Option.any_eq_true _ _).mp hrun
  obtain ⟨hlen, hresults⟩ := of_decide_eq_true hvals
  obtain ⟨hnode, hbatch⟩ := nodeRun_groupCommit hrun
  have hbenign : (World.healthy c.store).Benign := fun f hf => by cases hf
  have hquiet : c.node.QuietBatch ([7] : List UInt64) := ⟨fun hne => absurd rfl hne, trivial⟩
  have hboth := (submitBatch_replays doubler_lawful 4 hnode hbenign hquiet (Or.inl (List.cons_ne_nil _ _))).1
    _ _ _ hbatch
  rw [hresults] at hbatch
  exact ⟨.healthy c.store, c.world, c.node, c.next, hlen, hboth.1, hboth.2, hbatch⟩

/-- **A timer between two inputs**: the frames of both inputs come before the one of the timer, and replay doubles what
the node had doubled halfway. -/
theorem submitBatch_diverges : ∃ (w w' : World JStore) (n n' : Node doubler) (results : List (ℕ × List UInt64)),
    TurnRun () (some n) w.st ∧ w.Benign ∧
      Node.submitBatch 4 ([1, 1] : List UInt64) n w = .ok results n' w' ∧ n'.service = (6 : UInt64) ∧
      ¬Replays () Eq w'.st.ghost.tape n'.service n'.timers := by
  let total : Commit → UInt64 := fun c => c.next.service
  let replayed : Commit → Option UInt64 := fun c =>
    (Node.replay (Node.genesis doubler ()) c.world.st.ghost.tape).toOption.map fun r => r.service
  have hrun : (groupCommit [1, 1]).any (fun c => decide (total c = 6 ∧ replayed c = some 8)) = true := by
    decide +kernel
  obtain ⟨c, hrun, hvals⟩ := (Option.any_eq_true _ _).mp hrun
  obtain ⟨hservice, hreplay⟩ : total c = 6 ∧ replayed c = some 8 := of_decide_eq_true hvals
  obtain ⟨hnode, hbatch⟩ := nodeRun_groupCommit hrun
  have hbenign : (World.healthy c.store).Benign := fun f hf => by cases hf
  refine ⟨.healthy c.store, c.world, c.node, c.next, c.results, hnode, hbenign, hbatch, hservice, ?_⟩
  rintro ⟨r, hr, hstate, -⟩
  have hlate : replayed c = some r.service := by
    simp only [replayed, hr]
    rfl
  have hsame : total c = 8 := hstate.trans (Option.some.inj (hlate.symm.trans hreplay))
  rw [hservice] at hsame
  exact absurd hsame (by decide)

end Ticktape.Runtime
