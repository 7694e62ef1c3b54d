import Ticktape.Runtime.Ending
import Ticktape.Runtime.Quorum

/-!
# A leader's own progress

A Tier-2 leader counts itself as a holder of what it has journaled. It does so for the inputs, timers, ticks and
fences it sequences, and not for the marks of its snapshots. So a call whose last frame is a mark leaves the leader
one frame behind its own journal, and every other call brings it level (`leader_counts_itself`).
-/

namespace Ticktape.Runtime

open Ticktape.Lib Ticktape.Core Ticktape.Journal Ticktape.Runtime.Node Std

variable {svc : Service} {config : CommitConfig} {n n' : Node svc} {book : Book svc}

namespace Node

/-- What a majority holds has been released. -/
def Drained (n : Node svc) : Prop := ∀ state, n.commit = some state → state.watermark ≤ state.committed

/-- The highest seq whose outputs have been released. -/
def commitWatermark (n : Node svc) : ℕ :=
  match n.commit with
  | some state => state.committed
  | none => n.seq

end Node

namespace Call

/-- **The last frame that a call sequences is no mark**: its seq is that of an input, a timer, a tick or a fence. A
call that sequences nothing leaves things as they are. -/
def Counted (n : Node svc) : Call svc → Prop
  | .submit _ input => ∃ l b, Burst.Fires n.snapshotEvery (n.inputBurst input) l b ∧ b.Idle ∧
      b.seq ∈ (n.seq + 1) :: l.map (·.seq)
  | .submitBatch _ inputs => if inputs = [] then n.own = some n.seq else
      ∃ l b, Burst.BatchFires n.snapshotEvery n.stamp (n.seq + 1) (n.batchStaged inputs).burst inputs l b ∧
        b.seq ∈ List.range' (n.seq + 1) inputs.length ++ l.map (·.seq)
  | .tick _ => ∃ l b, Burst.Fires n.snapshotEvery n.controlBurst l b ∧ b.Idle ∧
      b.seq ∈ (n.seq + 1) :: l.map (·.seq)
  | .fence _ => onCadence n.snapshotEvery (n.seq + 1) = false
  | .recordAck .. => n.own = some n.seq

end Call

/-! ## One call -/

/-- What a call leaves in the leader's own entry: nothing above its seq, and the seq itself exactly if `C`. -/
def Notes (C : Prop) (n' : Node svc) : Prop :=
  ∃ o, n'.own = some o ∧ o ≤ n'.seq ∧ (o = n'.seq ↔ C)

/-- The highest of the data frames of a call. -/
theorem notes_of_max {C : Prop} {o : ℕ} {seqs : List ℕ} (hstart : o < n'.seq) (hle : ∀ s ∈ seqs, s ≤ n'.seq)
    (hnoted : n'.own = some (seqs.foldl max o)) (hC : n'.seq ∈ seqs ↔ C) : Notes C n' :=
  ⟨_, hnoted, foldl_max_le hstart.le hle, (foldl_max_eq_top hstart hle).trans hC⟩

/-- A call that sequences one frame and fires what is due. -/
theorem Node.Ran.notes {o : ℕ} {b : Burst svc} {l : List Firing} (h : Node.Ran n [n.seq + 1] b l n')
    (hown : n.own = some o) (hle : o ≤ n.seq) (hb : n.seq + 1 ≤ b.seq) :
    Notes (∃ l b', Burst.Fires n.snapshotEvery b l b' ∧ b'.Idle ∧ b'.seq ∈ (n.seq + 1) :: l.map (·.seq)) n' := by
  obtain ⟨hstart, hseqs⟩ := h.fires.seqs
  have hstart : b.seq ≤ n'.seq := hstart
  have hnoted := h.noted
  rw [hown] at hnoted
  refine notes_of_max (by omega) ?_ hnoted ?_
  · intro s hs
    rcases List.mem_append.mp hs with hs | hs
    · rw [List.mem_singleton.mp hs]
      omega
    · obtain ⟨f, hf, rfl⟩ := List.mem_map.mp hs
      exact (hseqs f hf).2
  · constructor
    · exact fun hmem => ⟨l, _, h.fires, h.idle, hmem⟩
    · rintro ⟨l', b', hfires, hidle, hmem⟩
      obtain ⟨rfl, rfl⟩ := h.fires.unique h.idle hfires hidle
      exact hmem

theorem Node.le_inputBurst_seq (n : Node svc) (input : svc.Input) : n.seq + 1 ≤ (n.inputBurst input).seq := by
  have hle := @Burst.seq_le_snapshot _ n.snapshotEvery (n.burst.sequenced.applied (n.seq + 1) n.stamp
    fun state => svc.apply state (n.seq + 1) input) (n.seq + 1)
  exact hle

theorem Node.le_controlBurst_seq (n : Node svc) : n.seq + 1 ≤ n.controlBurst.seq := by
  have hle := @Burst.seq_le_snapshot _ n.snapshotEvery n.burst.sequenced (n.seq + 1)
  exact hle

/-- What a call does to the seq: it moves it on, or has drained the commit state, or did nothing. -/
def Moved (call : Call svc) (n n' : Node svc) : Prop :=
  n.seq < n'.seq ∨ n'.seq = n.seq ∧ (n'.Drained ∨ call.acks = [] ∧ n' = n)

theorem Node.Ran.moved {own : List ℕ} {b : Burst svc} {l : List Firing} (call : Call svc)
    (h : Node.Ran n own b l n') (hb : n.seq + 1 ≤ b.seq) : Moved call n n' := by
  have hstart : b.seq ≤ n'.seq := h.fires.seqs.1
  exact Or.inl (by omega)

/-- Draining leaves nothing that a majority holds. -/
theorem mwp_drainCommitted_drained {state : CommitState svc.Output} :
    mwp (CommitState.drainCommitted : Prog _ JStore NodeError _) (fun _ state' =>
      state'.watermark ≤ state'.committed) (fun _ _ => True) state := by
  refine mwp_bind (mwp_mem ?_)
  split
  · rename_i hle
    exact mwp_pure hle
  · refine mwp_bind (mwp_mono (Node.mwp_nextSeq _) ?_ fun _ _ h => h)
    rintro next state' rfl
    exact mwp_bind (mwp_update (mwp_pure (Nat.le_refl _)))

/-- **Step lemma**: what each call leaves in the leader's own entry. -/
theorem mwp_call_notes {o : ℕ} (call : Call svc) (hallowed : call.Allowed config n)
    (hself : ∀ state, n.commit = some state → state.selfReplica = config.selfReplica) (hown : n.own = some o)
    (hle : o ≤ n.seq) : mwp call.run (fun _ n' => Notes (call.Counted n) n' ∧ Moved call n n') (fun _ _ => True) n := by
  have hsame : Notes (n.own = some n.seq) n := ⟨o, hown, hle, by rw [hown, Option.some.injEq]⟩
  cases call with
  | submit fuel input =>
    refine mwp_seq (Node.mwp_submit_ran fuel input) ?_
    rintro result n' ⟨l, hran⟩
    have hb := n.le_inputBurst_seq input
    exact mwp_pure ⟨hran.notes hown hle hb, hran.moved _ hb⟩
  | submitBatch fuel inputs =>
    refine mwp_seq (Node.mwp_submitBatch_ran fuel inputs) ?_
    rintro results n' (⟨hnil, rfl⟩ | ⟨hne, l, hran⟩)
    · refine mwp_pure ?_
      simp only [Call.Counted, if_pos hnil]
      exact ⟨hsame, Or.inr ⟨rfl, Or.inr ⟨rfl, rfl⟩⟩⟩
    · obtain ⟨hstart, hseqs⟩ := hran.fires.seqs
      have hstart : n.seq + inputs.length ≤ n'.seq := hstart
      have hlen : 0 < inputs.length := List.length_pos_iff.mpr hne
      have hnoted := hran.noted
      rw [show (n.batchStaged inputs).own = some o from hown] at hnoted
      refine mwp_pure ⟨notes_of_max (by omega) ?_ hnoted ?_, Or.inl (by omega)⟩
      · intro s hs
        rcases List.mem_append.mp hs with hs | hs
        · have := (List.mem_range'_1.mp hs).2
          omega
        · obtain ⟨f, hf, rfl⟩ := List.mem_map.mp hs
          exact (hseqs f hf).2
      · simp only [Call.Counted, if_neg hne]
        constructor
        · exact fun hmem => ⟨l, _, hran.fires, hmem⟩
        · rintro ⟨l', b', hfires, hmem⟩
          obtain ⟨rfl, rfl⟩ := hran.fires.unique hfires
          exact hmem
  | tick fuel =>
    refine mwp_seq (Node.mwp_tick_ran fuel) ?_
    rintro seq n' ⟨l, hran⟩
    have hb := n.le_controlBurst_seq
    exact mwp_pure ⟨hran.notes hown hle hb, hran.moved _ hb⟩
  | fence epoch =>
    refine mwp_seq (Node.mwp_fence_burst (Q := fun _ n' => ∃ payload, Node.Entered n .epochChange payload (n.seq + 1)
      n.stamp n.controlBurst n') (E := fun _ _ => True) (fun _ payload n' h => ⟨payload, h⟩)
      fun _ _ _ _ => trivial) ?_
    rintro seq n' ⟨payload, hentered⟩
    have hseq : n'.seq = n.controlBurst.seq := congrArg Burst.seq hentered.burst
    have hb := n.le_controlBurst_seq
    refine mwp_pure ⟨⟨n.seq + 1, ?_, by omega, ?_⟩, Or.inl (by omega)⟩
    · rw [hentered.own, hown, Option.map_some, Nat.max_eq_right (by omega)]
    · rw [hseq, Node.controlBurst, Burst.snapshot, Call.Counted]
      cases onCadence n.snapshotEvery (n.seq + 1) <;> simp [Burst.sequenced, Node.burst]
  | recordAck replica seq =>
    obtain ⟨hr, hseq⟩ := hallowed (replica, seq) (List.mem_singleton.mpr rfl)
    refine mwp_seq (Q := fun _ n' => n'.own = n.own ∧ n'.seq = n.seq ∧ n'.Drained) ?_ ?_
    · refine Node.mwp_onCommit (fun hnone => ⟨rfl, rfl, fun state hstate => ?_⟩) fun state hstate => ?_
      · rw [hnone] at hstate
        cases hstate
      refine mwp_bind (mwp_update (mwp_mono (mwp_and (Node.mwp_drainCommitted_own (E := fun _ _ => True))
        mwp_drainCommitted_drained) ?_ fun _ _ h => h.1))
      rintro released state' ⟨⟨hwaters, hreplica⟩, hdrained⟩
      refine ⟨?_, rfl, fun state hstate => Option.some.inj hstate ▸ hdrained⟩
      -- the acknowledgement is another replica's
      have hne : compare replica state.selfReplica ≠ .eq := fun heq =>
        hr ((LawfulEqOrd.eq_of_compare heq).trans (hself state hstate))
      show some (state'.highWaters[state'.selfReplica]?.getD 0) = _
      rw [hwaters, hreplica, Node.own, hstate]
      simp only [CommitState.record, ExtTreeMap.getElem?_insert, if_neg hne, Option.map_some]
    · rintro released n' ⟨hown', hseq', hdrained⟩
      refine mwp_pure ⟨⟨o, hown'.trans hown, hseq'.symm ▸ hle, ?_⟩, Or.inr ⟨hseq', Or.inl hdrained⟩⟩
      rw [hseq', Call.Counted, hown, Option.some.injEq]

/-! ## Runs -/

/-- All followers have acknowledged `seq`. -/
def AllAcked (config : CommitConfig) (acks : List (UInt32 × ℕ)) (seq : ℕ) : Prop :=
  ∃ followers : Finset UInt32, config.selfReplica ∉ followers ∧ config.voters ≤ followers.card + 1 ∧
    ∀ r ∈ followers, ∃ a, (r, a) ∈ acks ∧ seq ≤ a

/-- **The leader counts itself**: it is recorded to hold all that it has sequenced, and the watermark is level once
all the followers hold it too. -/
structure CountsItself (config : CommitConfig) (n : Node svc) (book : Book svc) : Prop where
  own : n.own = some n.seq
  level : AllAcked config book.acks n.seq → n.commitWatermark = n.seq

/-- What a leader records all followers to hold, and itself, has been released. -/
theorem level_of_acked {bound : ℕ} {data : List (LedgerEntry svc)} {state : CommitState svc.Output} {tip : ℕ}
    (h : Withheld config tip bound book data state) (hvoters : 2 ≤ config.voters)
    (hdrained : state.watermark ≤ state.committed)
    (hown : ∃ v, state.highWaters[config.selfReplica]? = some v ∧ bound ≤ v)
    (hacked : AllAcked config book.acks bound) : state.committed = bound := by
  refine Nat.le_antisymm (h.committed_le hvoters) (Nat.le_trans ?_ hdrained)
  rcases Nat.eq_zero_or_pos bound with rfl | hpos
  · exact Nat.zero_le _
  obtain ⟨followers, hself, hcard, hheld⟩ := hacked
  refine (le_kthHighest_iff (Nat.succ_pos _) hpos).mpr ?_
  have hsub : insert config.selfReplica followers ⊆ holders state.highWaters bound := by
    intro r hr
    rw [mem_holders]
    rcases Finset.mem_insert.mp hr with rfl | hr
    · exact hown
    · have hne : r ≠ config.selfReplica := fun heq => hself (heq ▸ hr)
      exact (h.followers r hne bound).mpr (hheld r hr)
  have hle := Finset.card_le_card hsub
  rw [Finset.card_insert_of_notMem hself] at hle
  rw [h.voters]
  omega

/-- What holds between the calls of a run: the leader's own entry is never above its seq, and while it is level, so is
the watermark once all the followers are. -/
structure Entries (config : CommitConfig) (n : Node svc) (book : Book svc) : Prop where
  entry : ∃ o, n.own = some o ∧ o ≤ n.seq
  level : n.own = some n.seq → AllAcked config book.acks n.seq → n.commitWatermark = n.seq

/-- One call that returns. -/
theorem Entries.call {w w' : World JStore} {result : List svc.Output × List (ℕ × List svc.Output)}
    {call : Call svc} {tip tip' : ℕ} (hvoters : 2 ≤ config.voters) (h : Entries config n book)
    (hallowed : call.Allowed config n) (hrel : Releasing config tip n.seq book [] (dataOf n.ledger) n)
    (hrel' : Releasing config tip' n'.seq (book.enter call result) [] (dataOf n'.ledger) n')
    (hrun : call.run n w = .ok result n' w') :
    Entries config n' (book.enter call result) ∧ (n'.own = some n'.seq ↔ call.Counted n) := by
  obtain ⟨o, hown, hle⟩ := h.entry
  have hself : ∀ state, n.commit = some state → state.selfReplica = config.selfReplica := by
    intro state hstate
    obtain ⟨state', hstate', hw⟩ := hrel.state
    rw [hstate] at hstate'
    exact Option.some.inj hstate' ▸ hw.selfReplica
  obtain ⟨⟨o', hown', hle', hiff⟩, hmoved⟩ := mwp_ok (mwp_call_notes call hallowed hself hown hle) hrun
  refine ⟨⟨⟨o', hown', hle'⟩, fun hlevel hacked => ?_⟩, ?_⟩
  · obtain ⟨state, hstate, hw⟩ := hrel'.state
    rcases hmoved with hlt | ⟨hseq, hdrained | ⟨hacks, rfl⟩⟩
    · -- no follower can have acknowledged a frame that this call has sequenced
      obtain ⟨p, hp, hpseq⟩ : ∃ p ∈ (book.enter call result).acks, n'.seq ≤ p.2 := by
        obtain ⟨followers, -, hcard, hheld⟩ := hacked
        obtain ⟨r, hr⟩ : followers.Nonempty := Finset.card_pos.mp (by omega)
        obtain ⟨a, ha, hle⟩ := hheld r hr
        exact ⟨(r, a), ha, hle⟩
      have hbound : p.2 ≤ n.seq := by
        rcases List.mem_append.mp hp with hold | hnew
        · obtain ⟨_, -, hrecorded⟩ := hrel.state
          exact (hrecorded.acks p hold).2
        · exact (hallowed p hnew).2
      omega
    · rw [Node.commitWatermark, hstate]
      refine level_of_acked hw hvoters (hdrained state hstate) ?_ hacked
      obtain ⟨v, hv, -⟩ := hw.self
      refine ⟨v, hv, ?_⟩
      rw [Node.own, hstate, Option.map_some, hw.selfReplica, hv, Option.getD_some] at hlevel
      exact (Option.some.inj hlevel).ge
    · refine h.level hlevel ?_
      have hbook : (book.enter call result).acks = book.acks := by
        rw [Book.enter, hacks, List.append_nil]
      exact hbook ▸ hacked
  · rw [hown', Option.some.injEq]
    exact hiff

/-- A freshly opened leader counts itself, and nothing is above its tip. -/
theorem countsItself_opened {w w' : World JStore} {nodeConfig : NodeConfig} {serviceConfig : svc.Config}
    {clock : ℕ → UInt64} (hcommit : nodeConfig.commit = some config)
    (hopen : Node.openWith nodeConfig serviceConfig clock () w = .ok n () w') (book : Book svc) :
    CountsItself config n book := by
  obtain ⟨journal, fromSeq, tip, frames, r, rfl⟩ := mwp_ok mwp_openWith hopen
  have hstate : (Node.assemble nodeConfig serviceConfig clock journal fromSeq tip frames r).commit =
      some (CommitState.new config tip) := by simp [Node.assemble, hcommit]
  refine ⟨?_, fun _ => ?_⟩
  · rw [Node.own, hstate, Option.map_some]
    simp [CommitState.new, Node.assemble]
  · rw [Node.commitWatermark, hstate]
    rfl

/-- **Run lemma**: what holds between the calls. -/
theorem Calls.entries (hvoters : 2 ≤ config.voters) (h : Calls config n book) (hok : book.failed = false) :
    Entries config n book := by
  induction h with
  | opened hcommit hopen =>
    have hcounts := countsItself_opened hcommit hopen ⟨[], [], [], false⟩
    exact ⟨⟨_, hcounts.own, Nat.le_refl _⟩, fun _ => hcounts.level⟩
  | returned call hcalls hallowed hrun ih =>
    obtain ⟨-, tip, hrel⟩ := hcalls.releasing hvoters hok
    obtain ⟨-, tip', hrel'⟩ := (hcalls.returned call hallowed hrun).releasing hvoters hok
    exact ((ih hok).call hvoters hallowed hrel hrel' hrun).1
  | failed => cases hok

/-- The runs in which every call returns and ends on a frame that the leader counts. -/
inductive CountedCalls (config : CommitConfig) : Node svc → Book svc → Prop where
  | opened {nodeConfig : NodeConfig} {serviceConfig : svc.Config} {clock : ℕ → UInt64}
      {w w' : World JStore} {n : Node svc} : nodeConfig.commit = some config →
      Node.openWith nodeConfig serviceConfig clock () w = .ok n () w' →
      CountedCalls config n ⟨[], [], [], false⟩
  | returned {w w' : World JStore} {n n' : Node svc} {book : Book svc}
      {result : List svc.Output × List (ℕ × List svc.Output)} (call : Call svc) :
      CountedCalls config n book → call.Allowed config n → call.Counted n → call.run n w = .ok result n' w' →
      CountedCalls config n' (book.enter call result)

theorem CountedCalls.calls (h : CountedCalls config n book) : Calls config n book ∧ book.failed = false := by
  induction h with
  | opened hcommit hopen => exact ⟨.opened hcommit hopen, rfl⟩
  | returned call _ hallowed _ hrun ih => exact ⟨ih.1.returned call hallowed hrun, ih.2⟩

/-- **A leader counts itself** in every run whose calls do not end on a mark; and after a call of any run in which
all calls return, it does so exactly if that call did not. -/
theorem leader_counts_itself (hvoters : 2 ≤ config.voters) :
    (∀ (n : Node svc) (book : Book svc), CountedCalls config n book → CountsItself config n book) ∧
    ∀ (n n' : Node svc) (book : Book svc) (call : Call svc) (w w' : World JStore)
      (result : List svc.Output × List (ℕ × List svc.Output)),
      Calls config n book → book.failed = false → call.Allowed config n → call.run n w = .ok result n' w' →
      (CountsItself config n' (book.enter call result) ↔ call.Counted n) := by
  -- one call of any run
  have hcall : ∀ (n n' : Node svc) (book : Book svc) (call : Call svc) (w w' : World JStore)
      (result : List svc.Output × List (ℕ × List svc.Output)),
      Calls config n book → book.failed = false → call.Allowed config n → call.run n w = .ok result n' w' →
      (CountsItself config n' (book.enter call result) ↔ call.Counted n) := by
    intro n n' book call w w' result hcalls hok hallowed hrun
    obtain ⟨-, tip, hrel⟩ := hcalls.releasing hvoters hok
    obtain ⟨-, tip', hrel'⟩ := (hcalls.returned call hallowed hrun).releasing hvoters hok
    obtain ⟨hentries, hiff⟩ := (hcalls.entries hvoters hok).call hvoters hallowed hrel hrel' hrun
    constructor
    · exact fun h => hiff.mp h.own
    · intro hcounted
      have hown := hiff.mpr hcounted
      exact ⟨hown, hentries.level hown⟩
  refine ⟨fun n book h => ?_, hcall⟩
  induction h with
  | opened hcommit hopen => exact countsItself_opened hcommit hopen _
  | returned call hrun hallowed hcounted hret _ =>
    obtain ⟨hcalls, hok⟩ := hrun.calls
    exact (hcall _ _ _ call _ _ _ hcalls hok hallowed hret).mpr hcounted

/-- The one follower of a pair. -/
theorem allAcked_pair {acks : List (UInt32 × ℕ)} {seq : ℕ} (h : acks = [(7, seq)]) :
    AllAcked pairConfig acks seq := by
  refine ⟨{7}, by decide, by decide, fun r hr => ⟨seq, ?_, Nat.le_refl _⟩⟩
  rw [Finset.mem_singleton.mp hr, h]
  exact List.mem_singleton.mpr rfl

/-- A leader of two that takes no snapshots sequences a fence, and its follower acknowledges it. -/
def fencePair : Option (Node doubler × Book doubler × Bool) := do
  let opening : Prog Unit JStore NodeError (Node doubler) :=
    Node.openWith ⟨⟨1024, .never⟩, 1, none, 1, some pairConfig⟩ () fun _ => 5
  let (n, _, w) ← (opening () (.healthy ⟨Disk.empty, History.fresh⟩)).returned
  let fence : Call doubler := .fence 1
  let ack : Call doubler := .recordAck 7 1
  let (fenced, n₁, w₁) ← (fence.run n w).returned
  let (acked, n₂, _) ← (ack.run n₁ w₁).returned
  pure (n₂, (Book.enter ⟨[], [], [], false⟩ fence fenced).enter ack acked,
    decide (fence.Allowed pairConfig n) && onCadence n.snapshotEvery (n.seq + 1) == false &&
      decide (ack.Allowed pairConfig n₁) && n₁.own == some n₁.seq)

/-- After the fence and its acknowledgement the watermark is level with the leader's seq. -/
theorem leader_counts_itself_of_fence : ∃ (n : Node doubler) (book : Book doubler),
    CountedCalls pairConfig n book ∧ n.seq = 1 ∧ AllAcked pairConfig book.acks n.seq ∧
      CountsItself pairConfig n book ∧ n.commitWatermark = 1 := by
  have hplay : fencePair.map (fun p => (p.1.seq, p.2.1.acks, p.2.2)) = some (1, [(7, 1)], true) := by
    decide +kernel
  obtain ⟨⟨n, book, checks⟩, hplay, heq⟩ := Option.map_eq_some_iff.mp hplay
  simp only [Prod.mk.injEq] at heq
  obtain ⟨hseq, hacks, rfl⟩ := heq
  simp only [fencePair, bind, Option.bind_eq_some_iff, pure, Option.some.injEq, Prod.mk.injEq,
    Bool.and_eq_true, decide_eq_true_eq, beq_iff_eq] at hplay
  obtain ⟨⟨n₀, _, w₀⟩, hopen, ⟨fenced, n₁, w₁⟩, hfence, ⟨acked, n₂, w₂⟩, hack, rfl, rfl,
    ⟨⟨hfenceOk, hquiet⟩, hackOk⟩, hlevel⟩ := hplay
  rw [Outcome.returned_eq_some] at hopen hfence hack
  have hrun : CountedCalls pairConfig n₂ _ :=
    ((CountedCalls.opened rfl hopen).returned _ hfenceOk hquiet hfence).returned _ hackOk hlevel hack
  have hcounts := (leader_counts_itself (by decide)).1 _ _ hrun
  have hacked := allAcked_pair (hacks.trans (by rw [← hseq]))
  exact ⟨n₂, _, hrun, hseq, hacked, hcounts, (hcounts.level hacked).trans hseq⟩

/-- **A mark is not counted.** The leader snapshots every frame. A fence is journaled as frame 1 and its mark as
frame 2; the follower acknowledges both, and the watermark stays at 1. -/
theorem mark_not_counted : ∃ (n : Node doubler) (book : Book doubler), Calls pairConfig n book ∧
    book.failed = false ∧ n.seq = 2 ∧ n.own = some 1 ∧ AllAcked pairConfig book.acks n.seq ∧
    n.commitWatermark = 1 ∧ ¬CountsItself pairConfig n book := by
  let script : List (Call doubler × List Fate) := [(.fence 1, []), (.recordAck 7 2, [])]
  have hplay : (playPair script).map (fun p => (p.2.failed, p.2.acks, p.1.seq, p.1.own == some 1,
      p.1.commitWatermark)) = some (false, [(7, 2)], 2, true, 1) := by decide +kernel
  obtain ⟨⟨n, book⟩, hplay, heq⟩ := Option.map_eq_some_iff.mp hplay
  simp only [Prod.mk.injEq, beq_iff_eq] at heq
  obtain ⟨hok, hacks, hseq, hown, hwatermark⟩ := heq
  refine ⟨n, book, calls_playPair hplay, hok, hseq, hown, allAcked_pair (hacks.trans (by rw [← hseq])), hwatermark,
    fun h => ?_⟩
  have hlevel := h.own
  rw [hown, hseq] at hlevel
  cases hlevel

end Ticktape.Runtime
