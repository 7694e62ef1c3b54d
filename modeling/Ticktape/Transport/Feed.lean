import Ticktape.Runtime.Batch
import Ticktape.Runtime.Quorum

/-!
# Publication order

What the subscribers of a node receive, and that it can be recorded in a `MemStore`, which takes only
gapless streams. Outside batches a frame is published as soon as it is sequenced, so a subscriber gets
every frame from its subscription on, in seq order. Inside a batch the inputs have their seqs before the
first of them is published: a snapshot mark or a fired timer in between takes a later seq and overtakes
the inputs that follow.
-/

namespace Ticktape.Transport

open Ticktape.Lib Ticktape.Core Ticktape.Journal Ticktape.Runtime Ticktape.Runtime.Node

/-! ## The recent-window store -/

/-- The repeater: the most recent frames, at most `capacity` of them. -/
structure MemStore where
  frames : List Frame
  capacity : ℕ

namespace MemStore

def withCapacity (capacity : ℕ) : MemStore := ⟨[], max capacity 1⟩

/-- Record a frame. `none` is a failed assertion: the frame does not follow what is stored. -/
def record (store : MemStore) (frame : Frame) : Option MemStore :=
  if (store.frames.getLast?.all fun last => frame.seq = last.seq + 1) then
    let frames := store.frames ++ [frame]
    some { store with frames := frames.drop (frames.length - store.capacity) }
  else none

/-- Record frames one after the other. -/
def recordAll (store : MemStore) : List Frame → Option MemStore
  | [] => some store
  | frame :: rest => (store.record frame).bind (·.recordAll rest)

/-- Consecutive frames can be recorded. -/
theorem recordAll_isSome {store : MemStore} {frames : List Frame} {first : ℕ}
    (hseqs : frames.map (·.seq) = List.range' first frames.length) (hcapacity : 0 < store.capacity)
    (hlast : ∀ last ∈ store.frames.getLast?, last.seq + 1 = first) :
    (store.recordAll frames).isSome := by
  induction frames generalizing store first with
  | nil => rfl
  | cons f fs ih =>
    rw [List.map_cons, List.length_cons, List.range'_succ] at hseqs
    obtain ⟨hf, hfs⟩ := List.cons.inj hseqs
    have hall : (store.frames.getLast?.all fun last => f.seq = last.seq + 1) = true := by
      rw [Option.all_eq_true]
      intro last hmem
      simp [hf, hlast last hmem]
    simp only [recordAll, record, hall, if_true, Option.bind_some]
    refine ih hfs hcapacity ?_
    -- the window keeps the frame that came last
    intro last hmem
    have hlen : 0 < (store.frames ++ [f]).length - ((store.frames ++ [f]).length - store.capacity) := by
      simp only [List.length_append, List.length_singleton]
      omega
    rw [List.getLast?_drop, if_neg (by omega), List.getLast?_concat] at hmem
    obtain rfl : f = last := Option.some.inj hmem
    rw [hf]

end MemStore

/-! ## What subscribers receive -/

variable {svc : Service} {n : Node svc}

/-- Every connected subscriber has received the frames sequenced after it subscribed, up to and
including `upto`: each once, in seq order, and as they were published. -/
def InOrder (upto : ℕ) (n : Node svc) : Prop :=
  ∀ sub ∈ n.bus, sub.connected = true → sub.since ≤ upto ∧
    sub.received.map (·.seq) = List.range' (sub.since + 1) (upto - sub.since) ∧
    sub.received <:+ n.ledger.map (·.frame)

/-- The next frame is published. -/
theorem InOrder.published {upto : ℕ} {frame : Frame} {outputs : List svc.Output}
    (h : InOrder upto n) (hseq : frame.seq = upto + 1) :
    InOrder (upto + 1) (published n frame outputs) := by
  intro sub hsub _
  obtain ⟨old, hold, rfl⟩ := List.mem_map.mp hsub
  obtain ⟨hmem, hconnected⟩ := List.mem_filter.mp hold
  obtain ⟨hsince, hseqs, hsuffix⟩ := h old hmem hconnected
  refine ⟨Nat.le_succ_of_le hsince, ?_, ?_⟩
  · show (old.received ++ [frame]).map (·.seq) = List.range' (old.since + 1) (upto + 1 - old.since)
    rw [Nat.succ_sub hsince, List.range'_concat, List.map_append, hseqs, List.map_singleton, hseq]
    congr 2
    omega
  · show old.received ++ [frame] <:+
      (n.ledger ++ [(⟨frame, n.service, outputs⟩ : LedgerEntry svc)]).map (·.frame)
    rw [List.map_append]
    exact List.suffix_append_self_iff.mpr hsuffix

theorem InOrder.next {n' : Node svc} {frame : Frame} {outputs : List svc.Output}
    (h : InOrder n.seq n) (hbus : n'.bus = n.bus) (hledger : n'.ledger = n.ledger)
    (hadvanced : n'.seq = frame.seq) (hseq : frame.seq = n.seq + 1) :
    InOrder (Node.published n' frame outputs).seq (Node.published n' frame outputs) := by
  have hsame : InOrder n.seq n' := by
    unfold InOrder
    rw [hbus, hledger]
    exact h
  show InOrder n'.seq _
  rw [hadvanced, hseq]
  exact hsame.published hseq

/-- **Step lemma**, batches apart. -/
theorem publishing_inOrder : Publishing fun n : Node svc => InOrder n.seq n where
  blind := fun _ _ _ h => h
  control := fun h hseq _ => h.next rfl rfl rfl hseq
  input := fun h hseq _ _ => h.next rfl rfl rfl hseq
  timer := fun _ h hseq _ _ => h.next rfl rfl rfl hseq

/-! ## Batches -/

/-- Applying the inputs of a batch, of which nothing is published yet. Only the last one may be followed
by more. -/
theorem mwp_applyAll_inOrder {pairs : List (svc.Input × Frame)} {k : ℕ} (now : UInt64) (fuel : ℕ)
    (h : InOrder k n) (hseqs : pairs.map (·.2.seq) = List.range' (k + 1) pairs.length)
    (hlast : n.seq = k + pairs.length) (hstamps : ∀ p ∈ pairs, p.2.timestamp = now)
    (hquiet : BatchView.Quiet n.snapshotEvery now (k + 1) n.view (pairs.map Prod.fst))
    (hcadence : ∀ i, i + 1 < pairs.length → onCadence n.snapshotEvery (k + 1 + i) = false) :
    mwp (applyAll fuel pairs) (fun _ n' => InOrder n'.seq n') (fun _ _ => True) n := by
  induction pairs generalizing n k with
  | nil =>
    refine mwp_pure ?_
    rw [hlast]
    exact h
  | cons p rest ih =>
    obtain ⟨input, frame⟩ := p
    simp only [List.map_cons, List.length_cons, List.range'_succ, List.cons.injEq] at hseqs
    obtain ⟨hseq, hrest⟩ := hseqs
    obtain ⟨hdue, hquiet⟩ := hquiet
    refine mwp_bind (mwp_runStep ?_)
    have hpublished : InOrder (k + 1) (Node.published
        (n.stepped frame fun state => svc.apply state frame.seq input) frame
        (n.stepOf frame fun state => svc.apply state frame.seq input).outputs) :=
      InOrder.published (n := n.stepped frame _) h hseq
    cases rest with
    | nil =>
      -- from here on nothing waits to be published
      refine mwp_seq (Q := fun _ n' => InOrder n'.seq n')
        (publishing_inOrder.mwp_finishFrame ?_) fun _ n₂ h₂ => ?_
      · show InOrder n.seq _
        rw [hlast]
        exact hpublished
      · refine mwp_seq (publishing_inOrder.mwp_fireDueTimers fuel h₂) fun _ n₃ h₃ => ?_
        exact mwp_bind (mwp_pure (mwp_pure h₃))
    | cons q rest =>
      have hoff : onCadence n.snapshotEvery frame.seq = false := by
        have hzero := hcadence 0 (by simp)
        rwa [Nat.add_zero, ← hseq] at hzero
      have hnow := hstamps _ (List.mem_cons_self ..)
      refine mwp_bind (mwp_finishFrame_off hoff fun released commit => ?_)
      have hview : view { Node.published (n.stepped frame fun state => svc.apply state frame.seq input)
          frame (n.stepOf frame fun state => svc.apply state frame.seq input).outputs with
          commit := commit } = n.view.next n.snapshotEvery now frame.seq input := view_next hnow hoff
      cases fuel with
      | zero => exact mwp_bind mwp_spin
      | succ fuel =>
        rw [← hseq, ← hview] at hdue hquiet
        refine mwp_bind (mwp_returns (fireDueTimers_off (hdue (by simp))) ?_)
        refine mwp_seq (ih hpublished hrest ?_ ?_ ?_ ?_) fun _ _ h₃ => mwp_pure h₃
        · show n.seq = _
          rw [hlast, List.length_cons]
          omega
        · exact fun p hp => hstamps p (List.mem_cons_of_mem _ hp)
        · rw [← hseq]
          exact hquiet
        · intro i hi
          have hnext := hcadence (i + 1) (by simpa using hi)
          rw [show k + 1 + (i + 1) = k + 1 + 1 + i by omega] at hnext
          exact hnext

/-- **Step lemma** for an undisturbed batch. -/
theorem mwp_submitBatch_inOrder (fuel : ℕ) {inputs : List svc.Input}
    (hbatch : n.UndisturbedBatch inputs) (h : InOrder n.seq n) :
    mwp (submitBatch fuel inputs) (fun _ n' => InOrder n'.seq n') (fun _ _ => True) n := by
  unfold submitBatch
  split
  · exact mwp_pure h
  rename_i hne
  refine mwp_bind (mwp_now (mwp_seq (mwp_stageAll _ inputs) ?_))
  intro frames n₁ hall
  have hzip : (inputs.zip frames).map (·.2.seq) = List.range' (n.seq + 1) inputs.length := hall.zip_seqs
  obtain ⟨hstaged, -, hstamps, rfl⟩ := hall
  have hlen : inputs.length = frames.length := hstaged.length_eq
  have hnonempty : inputs ≠ [] := by simpa using hne
  refine mwp_bind (mwp_onJournal (fun _ j => ?_) fun _ _ => trivial)
  refine mwp_applyAll_inOrder (max (n.clock 0) n.lastTimestamp) fuel h ?_ ?_ ?_ ?_ ?_
  · rw [hzip, List.length_zip, ← hlen, Nat.min_self]
  · rw [List.length_zip, ← hlen, Nat.min_self]
  · exact fun p hp => hstamps p.2 (List.of_mem_zip hp).2
  · rw [List.map_fst_zip hlen.le]
    simp only [view, if_neg hnonempty]
    exact hbatch.1
  · intro i hi
    rw [List.length_zip, ← hlen, Nat.min_self] at hi
    exact hbatch.2 i hi

/-! ## Runs -/

/-- The nodes that calls, subscriptions and subscribers that hang up lead to, as long as each call is one
that `may` be made there. Every call returns. -/
inductive Streams (may : Node svc → Call svc → Prop) : Node svc → Prop where
  | opened {config : NodeConfig} {serviceConfig : svc.Config} {clock : ℕ → UInt64}
      {w w' : World JStore} {n : Node svc} :
      Node.openWith config serviceConfig clock () w = .ok n () w' → Streams may n
  | returned {w w' : World JStore} {n n' : Node svc}
      {result : List svc.Output × List (ℕ × List svc.Output)} (call : Call svc) :
      Streams may n → may n call → call.run n w = .ok result n' w' → Streams may n'
  | subscribed {w w' : World JStore} {n n' : Node svc} :
      Streams may n → Node.subscribe n w = .ok () n' w' → Streams may n'
  | hungUp {n : Node svc} (i : ℕ) :
      Streams may n → Streams may { n with bus := n.bus.modify i ({ · with connected := false }) }

/-- Nothing is sequenced between the inputs of a batch. -/
def Undisturbed (n : Node svc) : Call svc → Prop
  | .submitBatch _ inputs => n.UndisturbedBatch inputs
  | _ => True

theorem mwp_call_inOrder {call : Call svc} (hcall : Undisturbed n call) (h : InOrder n.seq n) :
    mwp call.run (fun _ n' => InOrder n'.seq n') (fun _ _ => True) n := by
  have hI : Publishing fun n : Node svc => InOrder n.seq n := publishing_inOrder
  cases call with
  | submit fuel input => exact mwp_seq (hI.mwp_submit fuel input h) fun _ _ h' => mwp_pure h'
  | submitBatch fuel inputs =>
    exact mwp_seq (mwp_submitBatch_inOrder fuel hcall h) fun _ _ h' => mwp_pure h'
  | tick fuel => exact mwp_seq (hI.mwp_tick fuel h) fun _ _ h' => mwp_pure h'
  | fence epoch => exact mwp_seq (hI.mwp_fence epoch h) fun _ _ h' => mwp_pure h'
  | recordAck replica seq => exact mwp_seq (hI.mwp_onCommit h) fun _ _ h' => mwp_pure h'

/-- **Run lemma.** -/
theorem Streams.inOrder (h : Streams Undisturbed n) : InOrder n.seq n := by
  induction h with
  | opened hopen =>
    obtain ⟨journal, fromSeq, tip, frames, r, rfl⟩ := mwp_ok mwp_openWith hopen
    intro sub hsub
    cases hsub
  | returned call _ hmay hrun ih =>
    have hreturned := mwp_ok (mwp_call_inOrder hmay ih) hrun
    exact hreturned
  | @subscribed _ _ n _ _ hrun ih =>
    cases hrun
    intro sub hsub hconnected
    rcases List.mem_append.mp hsub with hold | hnew
    · exact ih sub hold hconnected
    · -- a new subscriber has received nothing, and nothing was sequenced since
      rw [List.mem_singleton.mp hnew]
      refine ⟨Nat.le_refl n.seq, ?_, List.nil_suffix⟩
      show [] = List.range' (n.seq + 1) (n.seq - n.seq)
      rw [Nat.sub_self]
      rfl
  | @hungUp n i _ ih =>
    intro sub hsub hconnected
    obtain ⟨k, hk, hget⟩ := List.getElem_of_mem hsub
    simp only [List.getElem_modify] at hget
    split at hget
    · rw [← hget] at hconnected
      cases hconnected
    · exact ih sub (hget ▸ List.getElem_mem _) hconnected

/-- **The sequenced stream is published in seq order**, as long as no batch is disturbed: every
subscriber that is still connected has received every frame sequenced after it subscribed, once and in
seq order, and what it received can be recorded without a gap. -/
theorem stream_in_order (h : Streams Undisturbed n) :
    InOrder n.seq n ∧ ∀ sub ∈ n.bus, sub.connected = true → ∀ capacity,
      ((MemStore.withCapacity capacity).recordAll sub.received).isSome := by
  refine ⟨h.inOrder, fun sub hsub hconnected capacity => ?_⟩
  obtain ⟨-, hseqs, -⟩ := h.inOrder sub hsub hconnected
  have hlen : n.seq - sub.since = sub.received.length := by
    have := congrArg List.length hseqs
    simpa using this.symm
  rw [hlen] at hseqs
  refine MemStore.recordAll_isSome hseqs ?_ ?_
  · exact Nat.lt_of_lt_of_le Nat.zero_lt_one (Nat.le_max_right ..)
  · intro last hlast
    cases hlast

/-! ## Two runs -/

/-- A service without timers: inputs are added to a total. -/
def adder : Service :=
  { doubler with apply := fun (total : UInt64) _ (input : UInt64) _ => ⟨total + input, [total + input], []⟩ }

/-- The batch both runs submit. -/
def twoInputs : List adder.Input := ([1, 2] : List UInt64)

/-- Open a node on an empty directory, subscribe to it and make one call. -/
def oneCall (svc : Service) (serviceConfig : svc.Config) (every : Option ℕ) (call : Call svc) :
    Option (Node svc × Node svc) := do
  let opening : Prog Unit JStore NodeError (Node svc) :=
    Node.openWith ⟨⟨1024, .never⟩, 1, every, 1, none⟩ serviceConfig fun _ => 5
  let (n₀, _, w₀) ← (opening () (.healthy ⟨Disk.empty, History.fresh⟩)).returned
  let (_, n₁, w₁) ← (Node.subscribe n₀ w₀).returned
  let (_, n₂, _) ← (call.run n₁ w₁).returned
  pure (n₁, n₂)

theorem Streams.oneCall {may : Node svc → Call svc → Prop} {serviceConfig : svc.Config}
    {every : Option ℕ} {call : Call svc} {n₁ n₂ : Node svc}
    (h : Transport.oneCall svc serviceConfig every call = some (n₁, n₂)) (hmay : may n₁ call) :
    Streams may n₂ := by
  simp only [Transport.oneCall, bind, Option.bind_eq_some_iff] at h
  obtain ⟨⟨_, _, _⟩, hopen, ⟨_, _, _⟩, hsub, ⟨_, _, _⟩, hcall, heq⟩ := h
  cases heq
  rw [Outcome.returned_eq_some] at hopen hsub hcall
  exact .returned call (.subscribed (.opened hopen) hsub) hmay hcall

/-- A batch of two inputs that nothing disturbs. -/
theorem stream_in_order_of_batch : ∃ n : Node adder, n.seq = 2 ∧ n.bus.length = 1 ∧
    InOrder n.seq n ∧ ∀ sub ∈ n.bus, sub.connected = true → ∀ capacity,
      ((MemStore.withCapacity capacity).recordAll sub.received).isSome := by
  have hrun : (oneCall adder () none (.submitBatch 4 twoInputs)).map (fun p =>
      (decide (p.1.QuietBatch twoInputs), p.1.snapshotEvery, p.2.seq, p.2.bus.length)) =
      some (true, none, 2, 1) := by decide +kernel
  obtain ⟨⟨n₁, n₂⟩, hrun, heq⟩ := Option.map_eq_some_iff.mp hrun
  simp only [Prod.mk.injEq, decide_eq_true_eq] at heq
  obtain ⟨hquiet, hevery, hseq, hbus⟩ := heq
  have hundisturbed : Undisturbed n₁ (.submitBatch 4 twoInputs) := by
    refine ⟨hquiet, fun i _ => ?_⟩
    rw [hevery]
    rfl
  exact ⟨n₂, hseq, hbus, stream_in_order (Streams.oneCall hrun hundisturbed)⟩

/-- **Overtaken inputs.** A node that snapshots every frame is given a batch of two inputs: the mark of
the first snapshot gets seq 3 and is published before the second input, which has seq 2. -/
theorem mark_overtakes_input : ∃ n : Node adder, Streams (fun _ _ => True) n ∧
    (∃ sub ∈ n.bus, sub.connected = true ∧ sub.received.map (·.seq) = [1, 3, 2, 4] ∧
      (MemStore.withCapacity 8).recordAll sub.received = none) ∧ ¬InOrder n.seq n := by
  have hrun : (oneCall adder () (some 1) (.submitBatch 4 twoInputs)).any (fun p =>
      p.2.seq = 4 ∧ p.2.bus.any fun sub => sub.connected ∧ sub.since = 0 ∧
        sub.received.map (·.seq) = [1, 3, 2, 4] ∧
        ((MemStore.withCapacity 8).recordAll sub.received).isNone) = true := by decide +kernel
  rw [Option.any_eq_true] at hrun
  obtain ⟨⟨n₁, n₂⟩, hrun, hend⟩ := hrun
  simp only [decide_eq_true_eq, List.any_eq_true, Option.isNone_iff_eq_none] at hend
  obtain ⟨hseq, sub, hmem, hconnected, hsince, hseqs, hnone⟩ := hend
  refine ⟨n₂, Streams.oneCall hrun trivial, ⟨sub, hmem, hconnected, hseqs, hnone⟩, fun h => ?_⟩
  obtain ⟨-, horder, -⟩ := h sub hmem hconnected
  rw [hseqs, hsince, hseq] at horder
  exact absurd horder (by decide)

end Ticktape.Transport
