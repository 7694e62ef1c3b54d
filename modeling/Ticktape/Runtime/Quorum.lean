import Ticktape.Runtime.Release

/-!
# Runs of a Tier-2 leader

Every interleaving of `submit`, `submitBatch`, `tick`, `fence` and `recordAck` calls on a leader with
at least two voters, from open on. As long as no call fails, release is exact
(`quorum_release_exact`). A call that fails after its frame was applied loses the outputs of that
frame: `finishFrame` returns the error before it withholds them (`lost_outputs`).
-/

namespace Ticktape.Runtime

open Ticktape.Lib Ticktape.Core Ticktape.Journal Ticktape.Runtime.Node Std

variable {svc : Service} {config : CommitConfig} {n : Node svc} {book : Book svc} {tip : ℕ}

/-! ## The remaining steps -/

/-- A control frame: published, snapshotted on cadence, and noted as the leader's progress. -/
theorem mwp_control_releasing {frame : Frame} {n₀ : Node svc} {α : Type} {rest : NProg svc α}
    {Q : α → Node svc → Prop} {bound : ℕ}
    (h : Releasing config tip bound book [] (dataOf n₀.ledger) n₀) (hcommit : n.commit = n₀.commit)
    (hledger : n.ledger = n₀.ledger) (hseq : n₀.seq ≤ n.seq)
    (hkind : frame.kind ≠ .input ∧ frame.kind ≠ .timerFired)
    (hrest : ∀ n', Releasing config tip bound book [] (dataOf n'.ledger) n' →
      mwp rest Q (fun _ _ => True) n') :
    mwp (do publish frame []; maybeSnapshot frame.seq; noteSelfProgress frame.seq; rest)
      Q (fun _ _ => True) n := by
  refine mwp_bind (mwp_update ?_)
  rw [← hledger] at h
  have hpub : Releasing config tip bound book [] (dataOf n.ledger) (published n frame []) :=
    h.advance hcommit hseq
  have hdata : dataOf (published n frame []).ledger = dataOf n.ledger := dataOf_control hkind
  refine mwp_seq (mwp_maybeSnapshot_releasing hpub hdata) ?_
  rintro - n₁ ⟨h₁, hledger₁⟩
  obtain ⟨state, hstate, hw⟩ := h₁.state
  refine mwp_bind (mwp_onCommit (fun hnone => by rw [hstate] at hnone; cases hnone) ?_)
  intro state' hstate'
  obtain rfl : state = state' := Option.some.inj (hstate.symm.trans hstate')
  refine mwp_update (hrest _ ⟨⟨_, rfl, ?_⟩, h₁.bound_le, ?_, h₁.reserved⟩)
  · rw [hledger₁, hw.selfReplica]
    exact hw.recordSelf frame.seq
  · rw [hledger₁]
    exact h₁.seqs

theorem mwp_tick_releasing (hvoters : 2 ≤ config.voters) (fuel : ℕ)
    (h : Releasing config tip n.seq book [] (dataOf n.ledger) n) :
    mwp (tick fuel) (fun _ n' => Releasing config tip n.seq book [] (dataOf n'.ledger) n')
      (fun _ _ => True) n := by
  refine mwp_seq (mwp_mono mwp_sequence (fun _ _ h => h) (fun _ _ _ => trivial)) ?_
  rintro frame n₁ ⟨hseq, hkind, -, clock, journal, rfl⟩
  refine mwp_control_releasing h rfl rfl (hseq ▸ Nat.le_succ n.seq) (by simp [hkind]) fun n₂ h₂ => ?_
  refine mwp_seq (mwp_fireDueTimers_releasing hvoters fuel h₂) ?_
  rintro released n₃ ⟨-, -, h₃⟩
  exact mwp_pure h₃

theorem mwp_fence_releasing (epoch : UInt64)
    (h : Releasing config tip n.seq book [] (dataOf n.ledger) n) :
    mwp (fence epoch) (fun _ n' => Releasing config tip n.seq book [] (dataOf n'.ledger) n')
      (fun _ _ => True) n := by
  refine mwp_bind (mwp_mem (mwp_seq (mwp_nextSeq _) ?_))
  intro next n₀ hn
  rw [hn]
  refine mwp_seq (mwp_mono mwp_sequence (fun _ _ h => h) (fun _ _ _ => trivial)) ?_
  rintro frame n₁ ⟨hseq, hkind, -, clock, journal, rfl⟩
  exact mwp_control_releasing h rfl rfl (hseq ▸ Nat.le_succ n.seq) (by simp [hkind])
    fun n₂ h₂ => mwp_pure h₂

theorem mwp_recordAck_releasing {r : UInt32} {seq : ℕ} (hr : r ≠ config.selfReplica)
    (hseq : seq ≤ n.seq) (h : Releasing config tip n.seq book [] (dataOf n.ledger) n) :
    mwp (recordAck r seq) (fun released n' => Releasing config tip n.seq
      { book with acks := book.acks ++ [(r, seq)], released := book.released ++ released } []
      (dataOf n'.ledger) n') (fun _ _ => True) n := by
  obtain ⟨state, hstate, hw⟩ := h.state
  refine mwp_onCommit (fun hnone => by rw [hstate] at hnone; cases hnone) fun state' hstate' => ?_
  obtain rfl : state = state' := Option.some.inj (hstate.symm.trans hstate')
  refine mwp_bind (mwp_update ?_)
  refine mwp_mono (hw.toRecorded.recordAck hr hseq).mwp_drain ?_ (fun _ _ h => h)
  intro released state' hw'
  exact ⟨⟨state', rfl, hw'⟩, h.bound_le, h.seqs, h.reserved⟩

/-- A freshly opened leader has released nothing and withholds nothing. -/
theorem releasing_opened {w w' : World JStore} {nodeConfig : NodeConfig} {serviceConfig : svc.Config}
    {clock : ℕ → UInt64} (hcommit : nodeConfig.commit = some config)
    (hopen : Node.openWith nodeConfig serviceConfig clock () w = .ok n () w') :
    Releasing config n.seq n.seq ⟨[], [], [], false⟩ [] (dataOf n.ledger) n := by
  obtain ⟨journal, fromSeq, tip, frames, r, rfl⟩ := mwp_ok mwp_openWith hopen
  refine ⟨⟨CommitState.new config tip, by simp [assemble, hcommit], ?_⟩, Nat.le_refl _, ?_, ?_⟩
  · have hnone : dataOf (assemble nodeConfig serviceConfig clock journal fromSeq tip frames r).ledger =
        [] := rfl
    rw [hnone]
    refine {
      voters := rfl, selfReplica := rfl, floor := Nat.le_refl _, distinct := .nil, ordered := .nil
      self := ⟨tip, by simp [CommitState.new], by simp⟩
      followers := fun r hr s => ?_
      acks := by simp, above := by simp
      pending := by simp [CommitState.new]
      released := by simp
      sound := fun hlt => absurd hlt (Nat.lt_irrefl _)
      complete := by simp }
    simp [CommitState.new, Ne.symm hr]
  · intro e he
    cases he
  · intro s hs
    cases hs

/-! ## Runs -/

/-- The calls of a Tier-2 leader. -/
inductive Call (svc : Service) where
  | submit (fuel : ℕ) (input : svc.Input)
  | submitBatch (fuel : ℕ) (inputs : List svc.Input)
  | tick (fuel : ℕ)
  | fence (epoch : UInt64)
  | recordAck (replica : UInt32) (seq : ℕ)

namespace Call

/-- Make a call. Returns the outputs it hands back at once, and the pairs `recordAck` releases. -/
def run : Call svc → NProg svc (List svc.Output × List (ℕ × List svc.Output))
  | .submit fuel input => do
    let result ← Node.submit fuel input
    pure (result.2, [])
  | .submitBatch fuel inputs => do
    let results ← Node.submitBatch fuel inputs
    pure (results.flatMap (·.2), [])
  | .tick fuel => do
    let _ ← Node.tick fuel
    pure ([], [])
  | .fence epoch => do
    let _ ← Node.fence epoch
    pure ([], [])
  | .recordAck replica seq => do
    let released ← Node.recordAck replica seq
    pure ([], released)

/-- The acknowledgement a call records. -/
def acks : Call svc → List (UInt32 × ℕ)
  | .recordAck replica seq => [(replica, seq)]
  | _ => []

/-- Followers are not the leader, and acknowledge nothing that was not sequenced. -/
def Allowed (config : CommitConfig) (n : Node svc) (call : Call svc) : Prop :=
  ∀ p ∈ call.acks, p.1 ≠ config.selfReplica ∧ p.2 ≤ n.seq

end Call

/-- Enter a call that returned into the book. -/
def Book.enter (book : Book svc) (call : Call svc)
    (result : List svc.Output × List (ℕ × List svc.Output)) : Book svc :=
  { book with
    acks := book.acks ++ call.acks
    released := book.released ++ result.2
    immediate := book.immediate ++ result.1 }

/-- The leaders, and their books, that runs from open on lead to. -/
inductive Calls (config : CommitConfig) : Node svc → Book svc → Prop where
  | opened {nodeConfig : NodeConfig} {serviceConfig : svc.Config} {clock : ℕ → UInt64}
      {w w' : World JStore} {n : Node svc} : nodeConfig.commit = some config →
      Node.openWith nodeConfig serviceConfig clock () w = .ok n () w' →
      Calls config n ⟨[], [], [], false⟩
  | returned {w w' : World JStore} {n n' : Node svc} {book : Book svc}
      {result : List svc.Output × List (ℕ × List svc.Output)} (call : Call svc) :
      Calls config n book → call.Allowed config n → call.run n w = .ok result n' w' →
      Calls config n' (book.enter call result)
  /-- A storage call failed, and with it the call that made it. -/
  | failed {w w' : World JStore} {n n' : Node svc} {book : Book svc} {e : NodeError}
      (call : Call svc) : Calls config n book → call.Allowed config n →
      call.run n w = .err e n' w' → Calls config n' { book with failed := true }

/-- **Step lemma**: a call that returns keeps the invariant and hands nothing back at once. -/
theorem mwp_call (hvoters : 2 ≤ config.voters) {call : Call svc} (hallowed : call.Allowed config n)
    (h : Releasing config tip n.seq book [] (dataOf n.ledger) n) :
    mwp call.run (fun result n' => result.1 = [] ∧
      Releasing config tip n'.seq (book.enter call result) [] (dataOf n'.ledger) n')
      (fun _ _ => True) n := by
  -- a call that records no acknowledgement leaves the book as it is
  have hsame : ∀ {n' : Node svc}, Releasing config tip n.seq book [] (dataOf n'.ledger) n' →
      call.acks = [] →
      Releasing config tip n'.seq (book.enter call ([], [])) [] (dataOf n'.ledger) n' := by
    intro n' h' hacks
    have henter : book.enter call ([], []) = book := by simp [Book.enter, hacks]
    rw [henter]
    exact h'.start
  cases call with
  | submit fuel input =>
    refine mwp_seq (mwp_submit_releasing hvoters fuel input h) ?_
    rintro ⟨seq, outputs⟩ n' ⟨rfl, h'⟩
    exact mwp_pure ⟨rfl, hsame h' rfl⟩
  | submitBatch fuel inputs =>
    refine mwp_seq (mwp_submitBatch_releasing hvoters fuel inputs h) ?_
    rintro results n' ⟨hres, h'⟩
    have hnil : results.flatMap (·.2) = [] := List.flatMap_eq_nil_iff.mpr hres
    refine mwp_pure ⟨hnil, ?_⟩
    rw [hnil]
    exact hsame h' rfl
  | tick fuel =>
    refine mwp_seq (mwp_tick_releasing hvoters fuel h) fun _ n' h' => ?_
    exact mwp_pure ⟨rfl, hsame h' rfl⟩
  | fence epoch =>
    refine mwp_seq (mwp_fence_releasing epoch h) fun _ n' h' => ?_
    exact mwp_pure ⟨rfl, hsame h' rfl⟩
  | recordAck replica seq =>
    obtain ⟨hr, hseq⟩ := hallowed (replica, seq) (List.mem_singleton.mpr rfl)
    refine mwp_seq (mwp_recordAck_releasing hr hseq h) fun released n' h' => mwp_pure ⟨rfl, ?_⟩
    have henter : book.enter (.recordAck replica seq) (([] : List svc.Output), released) =
        { book with acks := book.acks ++ [(replica, seq)], released := book.released ++ released } := by
      simp [Book.enter, Call.acks]
    rw [henter]
    exact h'.start

/-- **Run lemma**: as long as no call has failed, the invariant holds. -/
theorem Calls.releasing (hvoters : 2 ≤ config.voters) (h : Calls config n book)
    (hok : book.failed = false) :
    book.immediate = [] ∧ ∃ tip, Releasing config tip n.seq book [] (dataOf n.ledger) n := by
  induction h with
  | opened hcommit hopen => exact ⟨rfl, _, releasing_opened hcommit hopen⟩
  | returned call _ hallowed hrun ih =>
    obtain ⟨himm, tip, hrel⟩ := ih hok
    obtain ⟨hnil, h'⟩ := mwp_ok (mwp_call hvoters hallowed hrel) hrun
    refine ⟨?_, tip, h'⟩
    show _ ++ _ = []
    rw [himm, hnil, List.append_nil]
  | failed => cases hok

/-- **Exact release**: what the calls of a run must have handed back. -/
structure ExactRelease (config : CommitConfig) (n : Node svc) (book : Book svc) : Prop where
  /-- `submit` and `submitBatch` release nothing. -/
  immediate : book.immediate = []
  ordered : book.released.Pairwise (·.1 < ·.1)
  /-- A released pair is exactly what its frame emitted. -/
  emitted : ∀ s outputs, (s, outputs) ∈ book.released →
    ∃ e ∈ dataOf n.ledger, e.frame.seq = s ∧ e.outputs = outputs
  majority : ∀ p ∈ book.released, MajorityHolds config book.acks p.1
  /-- What a majority holds has been released, once. -/
  complete : ∀ e ∈ dataOf n.ledger, MajorityHolds config book.acks e.frame.seq →
    (e.frame.seq, e.outputs) ∈ book.released ∧ (book.released.map Prod.fst).count e.frame.seq = 1
  /-- Nothing is lost on the way, by a `tick` or otherwise. -/
  kept : ∀ e ∈ dataOf n.ledger, (e.frame.seq, e.outputs) ∈ book.released ∨
    ∃ state, n.commit = some state ∧ state.pending[e.frame.seq]? = some e.outputs

/-- **Quorum release is exact** in every run in which no storage call fails. -/
theorem quorum_release_exact (hvoters : 2 ≤ config.voters) (h : Calls config n book)
    (hok : book.failed = false) : ExactRelease config n book := by
  obtain ⟨himm, tip, hrel⟩ := h.releasing hvoters hok
  obtain ⟨state, hstate, hw⟩ := hrel.state
  have hcomplete : ∀ e ∈ dataOf n.ledger, e.frame.seq ≤ state.committed →
      (e.frame.seq, e.outputs) ∈ book.released := fun e he hle =>
    (hw.released _ _).mpr ⟨hle, e, he, rfl, rfl⟩
  refine ⟨himm, hw.ordered, fun s o hmem => ((hw.released s o).mp hmem).2, ?_, ?_, ?_⟩
  · rintro ⟨s, o⟩ hmem
    obtain ⟨hle, e, he, rfl, -⟩ := (hw.released s o).mp hmem
    have htip : tip < state.committed := Nat.lt_of_lt_of_le (hw.above e he) hle
    exact (hw.sound htip).mono hle (List.Subset.refl _)
  · intro e he hmaj
    have hmem := hcomplete e he (hw.complete e he hmaj)
    have hnodup : (book.released.map Prod.fst).Nodup :=
      List.pairwise_map.mpr (hw.ordered.imp fun hlt => Nat.ne_of_lt hlt)
    exact ⟨hmem, List.count_eq_one_of_mem hnodup (List.mem_map_of_mem (f := Prod.fst) hmem)⟩
  · intro e he
    by_cases hle : e.frame.seq ≤ state.committed
    · exact Or.inl (hcomplete e he hle)
    · exact Or.inr ⟨state, hstate, (hw.pending _ _).mpr ⟨Nat.lt_of_not_le hle, e, he, rfl, rfl⟩⟩

/-! ## Two runs -/

instance (config : CommitConfig) (n : Node svc) (call : Call svc) :
    Decidable (call.Allowed config n) := inferInstanceAs (Decidable (∀ p ∈ call.acks, _))

/-- Make calls one after the other, each with its own fates, and keep the book. -/
def play (config : CommitConfig) (n : Node svc) (w : World JStore) (book : Book svc) :
    List (Call svc × List Fate) → Option (Node svc × Book svc)
  | [] => some (n, book)
  | (call, fates) :: rest =>
    if call.Allowed config n then
      match call.run n { w with fates := fates } with
      | .ok result n' w' => play config n' w' (book.enter call result) rest
      | .err _ n' w' => play config n' w' { book with failed := true } rest
      | _ => none
    else none

/-- What is played is a run. -/
theorem Calls.play {w : World JStore} {n' : Node svc} {book' : Book svc}
    {script : List (Call svc × List Fate)} (h : Calls config n book)
    (hplay : Runtime.play config n w book script = some (n', book')) : Calls config n' book' := by
  induction script generalizing n w book with
  | nil =>
    cases hplay
    exact h
  | cons p rest ih =>
    obtain ⟨call, fates⟩ := p
    rw [Runtime.play] at hplay
    split at hplay
    · rename_i hallowed
      split at hplay
      · rename_i hrun
        exact ih (.returned call h hallowed hrun) hplay
      · rename_i hrun
        exact ih (.failed call h hallowed hrun) hplay
      · cases hplay
    · cases hplay

/-- A leader of two voters that snapshots every frame. -/
def pairConfig : CommitConfig := ⟨2, 0⟩

/-- Open it on an empty directory and play a script. -/
def playPair (script : List (Call doubler × List Fate)) : Option (Node doubler × Book doubler) := do
  let opening : Prog Unit JStore NodeError (Node doubler) :=
    Node.openWith ⟨⟨1024, .never⟩, 1, some 1, 1, some pairConfig⟩ () fun _ => 5
  let (n, _, w) ← (opening () (.healthy ⟨Disk.empty, History.fresh⟩)).returned
  play pairConfig n w ⟨[], [], [], false⟩ script

theorem calls_playPair {script : List (Call doubler × List Fate)} {n : Node doubler}
    {book : Book doubler} (h : playPair script = some (n, book)) : Calls pairConfig n book := by
  simp only [playPair, bind, Option.bind_eq_some_iff] at h
  obtain ⟨⟨_, _, _⟩, hopen, hplay⟩ := h
  rw [Outcome.returned_eq_some] at hopen
  exact (Calls.opened rfl hopen).play hplay

/-- An input, a batch and a tick, acknowledged out of order. -/
theorem quorum_release_exact_of_run : ∃ (n : Node doubler) (book : Book doubler),
    Calls pairConfig n book ∧ book.released.map Prod.fst = [1, 3, 5, 6] ∧
      ExactRelease pairConfig n book := by
  let script : List (Call doubler × List Fate) := [(.submit 4 (3 : UInt64), []),
    (.submitBatch 4 ([1, 2] : List UInt64), []), (.recordAck 7 6, []), (.recordAck 7 2, []), (.tick 4, [])]
  have hplay : (playPair script).map (fun p => (p.2.failed, p.2.released.map Prod.fst)) =
      some (false, [1, 3, 5, 6]) := by decide +kernel
  obtain ⟨⟨n, book⟩, hplay, heq⟩ := Option.map_eq_some_iff.mp hplay
  obtain ⟨hok, hreleased⟩ := Prod.mk.inj heq
  have hcalls := calls_playPair hplay
  exact ⟨n, book, hcalls, hreleased, quorum_release_exact (by decide) hcalls hok⟩

/-- **Lost outputs.** The first input is journaled, applied and published; then the storage call that
creates its snapshot file fails. Its outputs were not withheld yet, so they are gone: the next input
and an acknowledgement of both give a majority for seq 1, and only seq 2 is released. -/
theorem lost_outputs : ∃ (n : Node doubler) (book : Book doubler), Calls pairConfig n book ∧
    book.failed = true ∧ book.released.map Prod.fst = [2] ∧
    (∃ e ∈ dataOf n.ledger, e.frame.seq = 1 ∧ e.outputs.length = 1 ∧
      MajorityHolds pairConfig book.acks 1) ∧ ¬ExactRelease pairConfig n book := by
  let script : List (Call doubler × List Fate) :=
    [(.submit 4 (3 : UInt64), [.ok, .ok, .ok, .ok, .ok, .fault 0]), (.submit 4 (1 : UInt64), []),
      (.recordAck 7 2, [])]
  have hplay : (playPair script).map (fun p => (p.2.failed, p.2.released.map Prod.fst,
      (dataOf p.1.ledger).any fun e => decide (e.frame.seq = 1 ∧ e.outputs.length = 1 ∧
        MajorityHolds pairConfig p.2.acks 1))) = some (true, [2], true) := by decide +kernel
  obtain ⟨⟨n, book⟩, hplay, heq⟩ := Option.map_eq_some_iff.mp hplay
  simp only [Prod.mk.injEq, List.any_eq_true, decide_eq_true_eq] at heq
  obtain ⟨hfailed, hreleased, e, he, hseq, hout, hmaj⟩ := heq
  refine ⟨n, book, calls_playPair hplay, hfailed, hreleased, ⟨e, he, hseq, hout, hmaj⟩, fun h => ?_⟩
  have hmem := (h.complete e he (hseq ▸ hmaj)).1
  have hfst : e.frame.seq ∈ book.released.map Prod.fst := List.mem_map_of_mem (f := Prod.fst) hmem
  rw [hreleased, hseq] at hfst
  simp at hfst

end Ticktape.Runtime
