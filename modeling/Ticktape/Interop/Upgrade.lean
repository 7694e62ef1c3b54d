import Ticktape.Interop.Version
import Ticktape.Transport.Follower

/-!
# Rolling upgrades

Servers of several versions, whose inputs are messages of one schema. A journal may be opened by a later version exactly
when no frame that has to be replayed was written by an earlier one (`replay_mixed`); a follower may stay behind its
leader (`follower_behind_leader`) and not run ahead of it (`follower_ahead_of_leader`).
-/

namespace Ticktape.Interop

open Ticktape.Lib Ticktape.Core Ticktape.Journal Ticktape.Runtime Ticktape.Transport

/-! ## Services -/

/-- A service whose inputs are messages, put on the wire by the adapter. -/
structure Speaks (svc : Service) (M : Type) [SbeMessage M] where
  input : svc.Input ≃ M
  encode_eq (x : svc.Input) : encode x = encodeMessage (input x)
  decode_eq (buf : Bytes) : (decode buf : Except CodecError (svc.Input × Bytes)) =
    (decode buf : Except CodecError (Sbe M × Bytes)).map fun p => (input.symm p.1.msg, p.2)

/-- The frame holds an input that a writer of version `k` or later put there. -/
def Since {V : ℕ → Type} [∀ i, SbeMessage (V i)] (k : ℕ) (frame : Frame) : Prop :=
  ∃ x : Σ i, V i, k ≤ x.1 ∧ frame.payload = wire x

/-- **A journal of mixed versions**: its inputs are messages, each of some version. -/
structure Mixed (V : ℕ → Type) [∀ i, SbeMessage (V i)] (frames : List Frame) : Prop where
  input : ∀ frame ∈ frames, frame.kind = .input → ∃ x : Σ i, V i, frame.payload = wire x
  timer : ∀ frame ∈ frames, frame.kind = .timerFired → ∃ id : UInt64, frame.payload = encode id

/-- A service that keeps the orders it was sent, and counts them. -/
def orders (k : ℕ) : Service where
  State := List (OrderAt k)
  Input := Sbe (OrderAt k)
  Output := UInt64
  Snapshot := UInt64
  Config := Unit
  SCHEMA_VERSION := 1
  genesis _ := []
  apply state _ order _ := ⟨state ++ [order.msg], [UInt64.ofNat (state.length + 1)], []⟩
  onTimer state _ _ := ⟨state, [], []⟩
  snapshot state := UInt64.ofNat state.length
  restore _ _ := []

def speaksOrders (k : ℕ) : Speaks (orders k) (OrderAt k) where
  input := ⟨Sbe.msg, Sbe.mk, fun _ => rfl, fun _ => rfl⟩
  encode_eq _ := rfl
  decode_eq buf := by
    show (decode buf : Except CodecError (Sbe (OrderAt k) × Bytes)) = _
    cases (decode buf : Except CodecError (Sbe (OrderAt k) × Bytes)) with
    | error e => rfl
    | ok p => rfl

section Services

variable {V : ℕ → Type} [∀ i, SbeMessage (V i)] [Schema V] {svc : Service} {i j k : ℕ}

/-- A payload that a service of version `k` understands. -/
theorem decodeAll_seen (speaks : Speaks svc (V k)) {x : Σ i, V i} {known : V k} (hseen : seen k x.1 x.2 = some known) :
    (decodeAll (wire x) : Except CodecError svc.Input) = .ok (speaks.input.symm known) := by
  have hwire : (decode (wire x ++ []) : Except CodecError (Sbe (V k) × Bytes)) = _ := decode_seen hseen
  rw [List.append_nil] at hwire
  rw [decodeAll, speaks.decode_eq, hwire]
  rfl

/-- A payload that it does not. -/
theorem decodeAll_unseen (speaks : Speaks svc (V k)) (hgrown : Grown V k) {x : Σ i, V i}
    (hseen : seen k x.1 x.2 = none) :
    (decodeAll (wire x) : Except CodecError svc.Input) = .error (.invalidValue "SBE block shorter than schema") := by
  have hwire : (decode (wire x ++ []) : Except CodecError (Sbe (V k) × Bytes)) = _ := decode_unseen hgrown hseen
  rw [List.append_nil] at hwire
  rw [decodeAll, speaks.decode_eq, hwire]
  rfl

/-- **Step lemma**: a frame replays exactly if it holds no input of an earlier version. -/
theorem replayFrame_cases (speaks : Speaks svc (V k)) (hgrown : Grown V k) (r : Node.Replayed svc) {frame : Frame}
    (hinput : frame.kind = .input → ∃ x : Σ i, V i, frame.payload = wire x)
    (htimer : frame.kind = .timerFired → ∃ id : UInt64, frame.payload = encode id) :
    ((frame.kind = .input → Since (V := V) k frame) ∧ ∃ r', Node.replayFrame r frame = .ok r') ∨
      (frame.kind = .input ∧ ¬Since (V := V) k frame ∧ Node.replayFrame r frame =
        .error (.corruptInput frame.seq (.invalidValue "SBE block shorter than schema"))) := by
  unfold Node.replayFrame
  split
  next hkind =>
    obtain ⟨x, hpayload⟩ := hinput hkind
    cases hseen : seen k x.1 x.2 with
    | some known =>
      have hsince : Since (V := V) k frame := ⟨x, seen_isSome_iff.mp ⟨known, hseen⟩, hpayload⟩
      rw [hpayload, decodeAll_seen speaks hseen]
      exact .inl ⟨fun _ => hsince, _, rfl⟩
    | none =>
      have hearly : ¬Since (V := V) k frame := by
        rintro ⟨y, hle, hpayload'⟩
        -- the same bytes cannot be read and refused
        have hknown : ∃ known, seen k y.1 y.2 = some known := seen_isSome_iff.mpr hle
        obtain ⟨known, hsome⟩ := hknown
        have hread := decodeAll_seen speaks hsome
        rw [← hpayload', hpayload, decodeAll_unseen speaks hgrown hseen] at hread
        cases hread
      rw [hpayload, decodeAll_unseen speaks hgrown hseen]
      exact .inr ⟨hkind, hearly, rfl⟩
  next hkind =>
    obtain ⟨id, hpayload⟩ := htimer hkind
    rw [hpayload, decodeAll_encode]
    exact .inl ⟨fun hinput => (by rw [hkind] at hinput; cases hinput), _, rfl⟩
  next hinput' _ => exact .inl ⟨fun hkind => absurd hkind hinput', r, rfl⟩

/-- **Run lemma**: a journal of mixed versions replays up to the first input of an earlier version. -/
theorem replay_mixed (speaks : Speaks svc (V k)) (hgrown : Grown V k) {frames : List Frame} (hmixed : Mixed V frames)
    (r : Node.Replayed svc) :
    ((∀ frame ∈ frames, frame.kind = .input → Since (V := V) k frame) ∧ ∃ r', Node.replay r frames = .ok r') ∨
      ∃ before frame rest, frames = before ++ frame :: rest ∧ frame.kind = .input ∧ ¬Since (V := V) k frame ∧
        (∀ f ∈ before, f.kind = .input → Since (V := V) k f) ∧
        Node.replay r frames = .error (.corruptInput frame.seq (.invalidValue "SBE block shorter than schema")) := by
  induction frames generalizing r with
  | nil => exact .inl ⟨fun frame hmem => (by cases hmem), r, rfl⟩
  | cons frame rest ih =>
    have hrest : Mixed V rest :=
      ⟨fun f hf => hmixed.input f (List.mem_cons_of_mem _ hf), fun f hf => hmixed.timer f (List.mem_cons_of_mem _ hf)⟩
    rcases replayFrame_cases speaks hgrown r (hmixed.input frame (List.mem_cons_self ..))
      (hmixed.timer frame (List.mem_cons_self ..)) with ⟨hsince, r', hok⟩ | ⟨hkind, hearly, herr⟩
    · have hstep : Node.replay r (frame :: rest) = Node.replay r' rest := by rw [Node.replay, hok]
      rw [hstep]
      rcases ih hrest r' with ⟨hall, hdone⟩ | ⟨before, bad, after, rfl, hkind, hearly, hbefore, herr⟩
      · refine .inl ⟨fun f hf => ?_, hdone⟩
        rcases List.mem_cons.mp hf with rfl | hf
        · exact hsince
        · exact hall f hf
      · refine .inr ⟨frame :: before, bad, after, rfl, hkind, hearly, fun f hf => ?_, herr⟩
        rcases List.mem_cons.mp hf with rfl | hf
        · exact hsince
        · exact hbefore f hf
    · refine .inr ⟨[], frame, rest, rfl, hkind, hearly, fun f hf => (by cases hf), ?_⟩
      rw [Node.replay, herr]

/-- The first version replays the orders of both. -/
theorem replay_mixed_of_orders : ∃ r', Node.replay (Node.genesis (orders 0) ())
    [⟨1, 0, 1, .input, wire (⟨1, ⟨⟨8⟩, 3⟩⟩ : Σ i, OrderAt i), one_lt_seqs, by decide⟩,
     ⟨2, 0, 1, .input, wire (⟨0, ⟨7⟩⟩ : Σ i, OrderAt i), two_lt_seqs, by decide⟩] = .ok r' := by
  have hmixed : Mixed OrderAt
      [⟨1, 0, 1, .input, wire (⟨1, ⟨⟨8⟩, 3⟩⟩ : Σ i, OrderAt i), one_lt_seqs, by decide⟩,
       ⟨2, 0, 1, .input, wire (⟨0, ⟨7⟩⟩ : Σ i, OrderAt i), two_lt_seqs, by decide⟩] := by
    refine ⟨fun frame hmem _ => ?_, by simp⟩
    rcases List.mem_pair.mp hmem with rfl | rfl
    · exact ⟨_, rfl⟩
    · exact ⟨_, rfl⟩
  rcases replay_mixed (speaksOrders 0) (fun i hi => absurd hi (Nat.not_lt_zero i)) hmixed
    (Node.genesis (orders 0) ()) with ⟨-, hdone⟩ | ⟨before, frame, rest, hsplit, hkind, hearly, -⟩
  · exact hdone
  · obtain ⟨x, hpayload⟩ := hmixed.input frame (by rw [hsplit]; simp) hkind
    exact absurd ⟨x, Nat.zero_le _, hpayload⟩ hearly

end Services

/-! ## Leaders and followers of different versions -/

/-- Publishing puts one frame more in front of the followers. -/
theorem publishedFrames_published {svc : Service} {n n' : Node svc} {frame : Frame} {outputs : List svc.Output}
    (hledger : n'.ledger = n.ledger) :
    publishedFrames (Node.published n' frame outputs) = publishedFrames n ++ [frame] := by
  simp [publishedFrames, Node.published, hledger]

/-- **An upgrade of a service.** `R` says which states of the later and the earlier version correspond, and `emits` what
an output of the later one is for the earlier one. -/
structure Upgrades {V : ℕ → Type} [∀ i, SbeMessage (V i)] [Schema V] {late early : Service} {j k : ℕ}
    (speaksLate : Speaks late (V j)) (speaksEarly : Speaks early (V k)) (config : late.Config) (config' : early.Config)
    (R : late.State → early.State → Prop) (emits : late.Output → early.Output) : Prop where
  /-- Fields may be appended without another schema number in the fence. -/
  schema : late.SCHEMA_VERSION = early.SCHEMA_VERSION
  genesis : R (late.genesis config) (early.genesis config')
  apply : ∀ {x y msg known}, R x y → seen k j msg = some known → ∀ seq ctx,
    R (late.apply x seq (speaksLate.input.symm msg) ctx).state (early.apply y seq (speaksEarly.input.symm known) ctx).state ∧
    (early.apply y seq (speaksEarly.input.symm known) ctx).outputs =
      (late.apply x seq (speaksLate.input.symm msg) ctx).outputs.map emits
  onTimer : ∀ {x y}, R x y → ∀ id ctx, R (late.onTimer x id ctx).state (early.onTimer y id ctx).state ∧
    (early.onTimer y id ctx).outputs = (late.onTimer x id ctx).outputs.map emits

/-- **The simulation relation** between a leader and a follower of an earlier version, which was fed what the leader
published. -/
def Behind {late early : Service} (config' : early.Config) (R : late.State → early.State → Prop)
    (emits : late.Output → early.Output) (n : Node late) : Prop :=
  ∃ trace state, (Replica.new config').feed (publishedFrames n) = some (trace, ⟨state, n.seq⟩) ∧ R n.service state ∧
    trace.map Prod.snd = n.ledger.map fun e => e.outputs.map emits

section Follower

variable {V : ℕ → Type} [∀ i, SbeMessage (V i)] [Schema V] {late early : Service} {j k : ℕ}
  {speaksLate : Speaks late (V j)} {speaksEarly : Speaks early (V k)} {config : late.Config} {config' : early.Config}
  {R : late.State → early.State → Prop} {emits : late.Output → early.Output} {n n' : Node late} {frame : Frame}

/-- Publishing a frame that the follower applies as the leader did. -/
theorem Behind.publish {outputs : List late.Output} (h : Behind config' R emits n) (hledger : n'.ledger = n.ledger)
    (happly : ∀ state, R n.service state → ∃ state', R n'.service state' ∧
      Replica.apply ⟨state, n.seq⟩ frame = some (.ok (outputs.map emits), ⟨state', n'.seq⟩)) :
    Behind config' R emits (Node.published n' frame outputs) := by
  obtain ⟨trace, state, hfeed, hR, houtputs⟩ := h
  obtain ⟨state', hR', hframe⟩ := happly state hR
  refine ⟨trace ++ [(state', outputs.map emits)], state', ?_, hR', ?_⟩
  · rw [publishedFrames_published hledger]
    exact Replica.feed_concat hfeed hframe
  · simp [Node.published, hledger, houtputs]

/-- An input of the leader, as the follower applies it. -/
theorem apply_seen (speaks : Speaks early (V k)) {state : early.State} {seq : ℕ} {x : Σ i, V i} {known : V k}
    (hseq : frame.seq = seq + 1) (hkind : frame.kind = .input) (hpayload : frame.payload = wire x)
    (hseen : seen k x.1 x.2 = some known) :
    Replica.apply ⟨state, seq⟩ frame = some
      (.ok (early.apply state frame.seq (speaks.input.symm known) ⟨frame.seq, frame.timestamp⟩).outputs,
        ⟨(early.apply state frame.seq (speaks.input.symm known) ⟨frame.seq, frame.timestamp⟩).state, frame.seq⟩) := by
  rw [Replica.apply_next hseq, Replica.step]
  simp only [hkind, hpayload, decodeAll_seen speaks hseen]

/-- An input of which the follower has not all the fields. -/
theorem apply_unseen (speaks : Speaks early (V k)) (hgrown : Grown V k) {state : early.State} {seq : ℕ} {x : Σ i, V i}
    (hseq : frame.seq = seq + 1) (hkind : frame.kind = .input) (hpayload : frame.payload = wire x)
    (hseen : seen k x.1 x.2 = none) : Replica.apply ⟨state, seq⟩ frame = some
      (.error (.corruptInput frame.seq (.invalidValue "SBE block shorter than schema")), ⟨state, frame.seq⟩) := by
  rw [Replica.apply_next hseq, Replica.step]
  simp only [hkind, hpayload, decodeAll_unseen speaks hgrown hseen]

/-- **Step lemma**: whatever the leader publishes next, the follower keeps up. -/
theorem publishing_behind (hle : k ≤ j) (hup : Upgrades speaksLate speaksEarly config config' R emits) :
    Node.Publishing (Behind config' R emits) where
  blind := fun _ _ _ h => h
  control := by
    intro n frame h hseq hcontrol
    refine h.publish rfl ?_
    intro state hR
    refine ⟨state, hR, ?_⟩
    cases hcontrol with
    | tick hkind => exact Replica.apply_control hseq (Or.inl hkind)
    | snapshotMark hkind => exact Replica.apply_control hseq (Or.inr hkind)
    | epochChange hkind epoch next hpayload =>
      rw [hup.schema] at hpayload
      exact Replica.apply_fence hseq hkind hpayload
  input := by
    intro n frame input h hseq hkind hpayload
    refine h.publish rfl ?_
    intro state hR
    have hwire : frame.payload = wire ⟨j, speaksLate.input input⟩ := hpayload.trans (speaksLate.encode_eq input)
    have hknown : ∃ known, seen k j (speaksLate.input input) = some known := seen_isSome_iff.mpr hle
    obtain ⟨known, hseen⟩ := hknown
    have hstep := hup.apply hR hseen frame.seq ⟨frame.seq, frame.timestamp⟩
    rw [Equiv.symm_apply_apply] at hstep
    refine ⟨_, hstep.1, ?_⟩
    rw [apply_seen speaksEarly hseq hkind hwire hseen, hstep.2]
    rfl
  timer := by
    intro n frame id timers h hseq hkind hpayload
    refine h.publish rfl ?_
    intro state hR
    have hstep := hup.onTimer hR id ⟨frame.seq, frame.timestamp⟩
    refine ⟨_, hstep.1, ?_⟩
    rw [Replica.apply_timerFired hseq hkind hpayload, hstep.2]
    rfl

/-- **A follower may stay behind.** Over every run of a leader of a later version, a follower of an earlier one that is
fed what the leader published refuses nothing, comes to the state that corresponds to the leader's, and has returned
after every frame the outputs that the leader's are for it. -/
theorem follower_behind_leader (hle : k ≤ j) (hup : Upgrades speaksLate speaksEarly config config' R emits)
    (h : Leading config n) : ∃ trace replica, (Replica.new config').feed (publishedFrames n) = some (trace, replica) ∧
      replica.seq = n.seq ∧ R n.service replica.service ∧
      trace.map Prod.snd = n.ledger.map fun e => e.outputs.map emits := by
  have hbehind : Behind config' R emits n := by
    induction h with
    | @opened nodeConfig clock w w' w'' n n' hempty hopen hsubscribe =>
      cases hsubscribe
      have hnames : w.st.disk.names = [] := by rw [hempty]; rfl
      obtain ⟨hservice, hseq, -, hledger⟩ := wp_ok (Node.wp_openWith_empty hnames) (fun _ _ => trivial) hopen
      refine ⟨[], early.genesis config', ?_, ?_, ?_⟩
      · simp [publishedFrames, hledger, hseq, Replica.feed, Replica.new]
      · rw [hservice]
        exact hup.genesis
      · rw [hledger]
        rfl
    | submit fuel input _ hrun ih =>
      have hbehind := mwp_ok ((publishing_behind hle hup).mwp_submit fuel input ih) hrun
      exact hbehind
    | tick fuel _ hrun ih =>
      have hbehind := mwp_ok ((publishing_behind hle hup).mwp_tick fuel ih) hrun
      exact hbehind
    | fence epoch _ hrun ih =>
      have hbehind := mwp_ok ((publishing_behind hle hup).mwp_fence epoch ih) hrun
      exact hbehind
  obtain ⟨trace, state, hfeed, hR, houtputs⟩ := hbehind
  exact ⟨trace, _, hfeed, rfl, hR, houtputs⟩

theorem map_toOrder_concat (x : List SizedOrder) (order : SizedOrder) :
    (x ++ [order]).map (·.toOrder) = x.map (·.toOrder) ++ [order.toOrder] := List.map_append

/-- The first version has of an order what the second has, but the quantity. -/
theorem upgrades_orders : Upgrades (speaksOrders 1) (speaksOrders 0) () ()
    (fun (x : List SizedOrder) (y : List Order) => y = x.map (·.toOrder)) id where
  schema := rfl
  genesis := rfl
  apply := by
    intro x y msg known hR hseen seq ctx
    obtain rfl : known = SizedOrder.toOrder msg := (Option.some.inj hseen).symm
    obtain rfl := hR
    exact ⟨(map_toOrder_concat x msg).symm, congrArg (fun n => [UInt64.ofNat (n + 1)]) (List.length_map _)⟩
  onTimer := fun hR _ _ => ⟨hR, rfl⟩

/-- A leader of version `k` that takes one order. -/
def leaderOfOrders (k : ℕ) (order : OrderAt k) := do
  let opening : Prog Unit JStore NodeError (Node (orders k)) :=
    Node.openWith ⟨⟨1024, .never⟩, 1, none, 1, none⟩ () fun _ => 5
  let (n₀, _, w₀) ← (opening () (.healthy ⟨Disk.empty, History.fresh⟩)).returned
  let (_, n₁, w₁) ← (Node.subscribe n₀ w₀).returned
  let (_, n₂, _) ← (Node.submit 4 (⟨order⟩ : Sbe (OrderAt k)) n₁ w₁).returned
  pure n₂

theorem leading_orders {k : ℕ} {order : OrderAt k} {n : Node (orders k)} (h : leaderOfOrders k order = some n) :
    Leading () n := by
  simp only [leaderOfOrders, bind, Option.bind_eq_some_iff] at h
  obtain ⟨⟨_, _, _⟩, hopen, ⟨_, _, _⟩, hsub, ⟨_, _, _⟩, hsubmit, hpure⟩ := h
  cases hpure
  rw [Outcome.returned_eq_some] at hopen hsub hsubmit
  exact .submit _ _ (.opened rfl hopen hsub) hsubmit

/-- A follower of the first version keeps the order that a leader of the second took, without its quantity. -/
theorem follower_behind_leader_of_orders : ∃ (n : Node (orders 1)) (trace : List (List Order × List UInt64))
    (replica : Replica (orders 0)), (Replica.new () : Replica (orders 0)).feed (publishedFrames n) = some (trace, replica) ∧
      replica.service = [(⟨8⟩ : Order)] ∧ trace.map Prod.snd = [[1]] := by
  have hrun : (leaderOfOrders 1 (⟨⟨8⟩, 3⟩ : SizedOrder)).any (fun n =>
      decide ((show List SizedOrder from n.service) = [⟨⟨8⟩, 3⟩]) &&
      decide ((show List (List UInt64) from n.ledger.map fun e => e.outputs.map id) = [[1]])) = true := by decide +kernel
  obtain ⟨n, hrun, hend⟩ := (Option.any_eq_true _ _).mp hrun
  rw [Bool.and_eq_true, decide_eq_true_eq, decide_eq_true_eq] at hend
  obtain ⟨trace, replica, hfeed, -, hR, houtputs⟩ :=
    follower_behind_leader (Nat.zero_le 1) upgrades_orders (leading_orders hrun)
  refine ⟨n, trace, replica, hfeed, ?_, houtputs.trans hend.2⟩
  rw [hR]
  exact congrArg (List.map SizedOrder.toOrder) hend.1

end Follower

/-- A follower of a later version than its leader: it has applied everything, if there was no input, or was stopped. -/
def Ahead {early late : Service} (config : late.Config) (n : Node early) : Prop :=
  ((∀ frame ∈ publishedFrames n, frame.kind ≠ .input) ∧
    ∃ trace state, (Replica.new config).feed (publishedFrames n) = some (trace, ⟨state, n.seq⟩)) ∨
  ((∃ frame ∈ publishedFrames n, frame.kind = .input) ∧ (Replica.new config).feed (publishedFrames n) = none)

section Ahead

variable {V : ℕ → Type} [∀ i, SbeMessage (V i)] [Schema V] {late early : Service} {j k : ℕ} {config : late.Config}
  {config' : early.Config} {n n' : Node early} {frame : Frame}

/-- A follower that was stopped stays so. -/
theorem feed_none {svc : Service} {r : Replica svc} {frames : List Frame} (h : r.feed frames = none) (frame : Frame) :
    r.feed (frames ++ [frame]) = none := by
  induction frames generalizing r with
  | nil => cases h
  | cons f frames ih =>
    rw [List.cons_append]
    simp only [Replica.feed] at h ⊢
    split
    next outputs r' happly =>
      simp only [happly, Option.map_eq_none_iff] at h
      rw [ih h]
      rfl
    · rfl

/-- A frame that the follower refuses stops it. -/
theorem feed_refused {svc : Service} {r r' r'' : Replica svc} {frames : List Frame}
    {trace : List (svc.State × List svc.Output)} {e : ReplicaError} (h : r.feed frames = some (trace, r'))
    (hframe : r'.apply frame = some (.error e, r'')) : r.feed (frames ++ [frame]) = none := by
  induction frames generalizing r trace with
  | nil =>
    obtain ⟨-, rfl⟩ := Prod.mk.inj (Option.some.inj h)
    simp only [List.nil_append, Replica.feed, hframe]
  | cons f frames ih =>
    rw [List.cons_append]
    simp only [Replica.feed] at h ⊢
    split
    next outputs r₁ happly =>
      simp only [happly] at h
      obtain ⟨⟨trace', r₂⟩, hfeed, heq⟩ := Option.map_eq_some_iff.mp h
      obtain rfl := (Prod.mk.inj heq).2
      rw [ih hfeed]
      rfl
    · rfl

/-- A frame that holds no input is applied. -/
theorem Ahead.pass {outputs : List early.Output} (h : Ahead config n) (hledger : n'.ledger = n.ledger)
    (hkind : frame.kind ≠ .input) (happly : ∀ state : late.State, ∃ out state',
      Replica.apply ⟨state, n.seq⟩ frame = some (.ok out, ⟨state', n'.seq⟩)) :
    Ahead config (Node.published n' frame outputs) := by
  rw [Ahead, publishedFrames_published hledger]
  rcases h with ⟨hnone, trace, state, hfeed⟩ | ⟨⟨f, hf, hinput⟩, hfeed⟩
  · obtain ⟨out, state', hframe⟩ := happly state
    refine .inl ⟨fun f hf => ?_, _, _, Replica.feed_concat hfeed hframe⟩
    rcases List.mem_append.mp hf with hf | hf
    · exact hnone f hf
    · rw [List.mem_singleton.mp hf]
      exact hkind
  · exact .inr ⟨⟨f, List.mem_append_left _ hf, hinput⟩, feed_none hfeed frame⟩

/-- An input that the follower refuses stops it. -/
theorem Ahead.stop {outputs : List early.Output} (h : Ahead config n) (hledger : n'.ledger = n.ledger)
    (hkind : frame.kind = .input) (hrefuse : ∀ state : late.State, ∃ e r,
      Replica.apply ⟨state, n.seq⟩ frame = some (.error e, r)) :
    Ahead config (Node.published n' frame outputs) := by
  rw [Ahead, publishedFrames_published hledger]
  refine .inr ⟨⟨frame, List.mem_append_right _ (List.mem_singleton.mpr rfl), hkind⟩, ?_⟩
  rcases h with ⟨-, trace, state, hfeed⟩ | ⟨-, hfeed⟩
  · obtain ⟨e, r, hframe⟩ := hrefuse state
    exact feed_refused hfeed hframe
  · exact feed_none hfeed frame

/-- **Step lemma**: an input stops the follower, and nothing else does. -/
theorem publishing_ahead (speaksLate : Speaks late (V j)) (speaksEarly : Speaks early (V k)) (hlt : k < j)
    (hgrown : Grown V j) (hschema : late.SCHEMA_VERSION = early.SCHEMA_VERSION) :
    Node.Publishing fun n : Node early => Ahead config n where
  blind := fun _ _ _ h => h
  control := by
    intro n frame h hseq hcontrol
    cases hcontrol with
    | tick hkind =>
      exact h.pass rfl (by simp [hkind]) fun state => ⟨_, _, Replica.apply_control hseq (Or.inl hkind)⟩
    | snapshotMark hkind =>
      exact h.pass rfl (by simp [hkind]) fun state => ⟨_, _, Replica.apply_control hseq (Or.inr hkind)⟩
    | epochChange hkind epoch next hpayload =>
      rw [← hschema] at hpayload
      exact h.pass rfl (by simp [hkind]) fun state => ⟨_, _, Replica.apply_fence hseq hkind hpayload⟩
  input := by
    intro n frame input h hseq hkind hpayload
    have hwire : frame.payload = wire ⟨k, speaksEarly.input input⟩ := hpayload.trans (speaksEarly.encode_eq input)
    exact h.stop rfl hkind fun state => ⟨_, _, apply_unseen speaksLate hgrown hseq hkind hwire (seen_earlier hlt _)⟩
  timer := by
    intro n frame id timers h hseq hkind hpayload
    exact h.pass rfl (by simp [hkind]) fun state => ⟨_, _, Replica.apply_timerFired hseq hkind hpayload⟩

/-- **A follower may not run ahead.** Over every run of a leader of an earlier version, a follower of a later one that is
fed what the leader published applies all of it exactly as long as no input is among it. -/
theorem follower_ahead_of_leader (speaksLate : Speaks late (V j)) (speaksEarly : Speaks early (V k)) (hlt : k < j)
    (hgrown : Grown V j) (hschema : late.SCHEMA_VERSION = early.SCHEMA_VERSION) (h : Leading config' n) :
    ((Replica.new config).feed (publishedFrames n)).isSome ↔ ∀ frame ∈ publishedFrames n, frame.kind ≠ .input := by
  have hkeeps : Node.Publishing fun n : Node early => Ahead config n :=
    publishing_ahead speaksLate speaksEarly hlt hgrown hschema
  have hahead : Ahead config n := by
    induction h with
    | @opened nodeConfig clock w w' w'' n n' hempty hopen hsubscribe =>
      cases hsubscribe
      have hnames : w.st.disk.names = [] := by rw [hempty]; rfl
      obtain ⟨-, hseq, -, hledger⟩ := wp_ok (Node.wp_openWith_empty hnames) (fun _ _ => trivial) hopen
      refine .inl ⟨fun frame hmem => ?_, [], late.genesis config, ?_⟩
      · simp [publishedFrames, hledger] at hmem
      · simp [publishedFrames, hledger, hseq, Replica.feed, Replica.new]
    | submit fuel input _ hrun ih =>
      have hahead := mwp_ok (hkeeps.mwp_submit fuel input ih) hrun
      exact hahead
    | tick fuel _ hrun ih =>
      have hahead := mwp_ok (hkeeps.mwp_tick fuel ih) hrun
      exact hahead
    | fence epoch _ hrun ih =>
      have hahead := mwp_ok (hkeeps.mwp_fence epoch ih) hrun
      exact hahead
  rcases hahead with ⟨hnone, trace, state, hfeed⟩ | ⟨⟨frame, hmem, hkind⟩, hfeed⟩
  · rw [hfeed]
    exact iff_of_true rfl hnone
  · rw [hfeed]
    exact iff_of_false (by simp) fun hall => hall frame hmem hkind

/-- A follower of the second version is stopped by the order that a leader of the first took. -/
theorem follower_ahead_of_leader_of_orders : ∃ n : Node (orders 0),
    ((Replica.new () : Replica (orders 1)).feed (publishedFrames n)).isSome = false := by
  have hrun : (leaderOfOrders 0 (⟨7⟩ : Order)).any (fun n => decide (∃ e ∈ n.ledger, e.frame.kind = .input)) = true := by
    decide +kernel
  obtain ⟨n, hrun, hend⟩ := (Option.any_eq_true _ _).mp hrun
  obtain ⟨e, he, hkind⟩ := of_decide_eq_true hend
  refine ⟨n, ?_⟩
  rw [Bool.eq_false_iff]
  intro hsome
  exact (follower_ahead_of_leader (speaksOrders 1) (speaksOrders 0) Nat.zero_lt_one grown_orderAt rfl
    (leading_orders hrun)).mp hsome e.frame (List.mem_map_of_mem he) hkind

end Ahead

end Ticktape.Interop
