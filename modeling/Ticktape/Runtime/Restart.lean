import Ticktape.Lib.Stands
import Ticktape.Runtime.Ending
import Ticktape.Runtime.Replay

/-!
# Restarting after a power loss

Whether `Node::open_with` succeeds on what a power loss left. It is refused in two cases only, in both of which an
operation had not finished a segment: the newest one has no whole header yet (`HeaderTorn`), or one that recovery
reseated the journal to stands next to those it replaces (`Hole`).
-/

namespace Ticktape.Journal

open Ticktape.Lib Ticktape.Core

variable {μ : Type}

/-! ## What a calm world does not bring down -/

theorem stands_diskCall {α : Type} (act : Disk FileName → Except IoError α × Disk FileName) :
    Stands (io (diskCall act) : Prog μ JStore JournalError α) := stands_mapErr (stands_call _ _ _)

theorem stands_sync : Stands sync := by
  refine stands_bind (stands_bind stands_mem fun j => ?_) fun _ => ?_
  · split
    · exact stands_when (stands_bind (stands_diskCall _) fun _ => stands_update _)
    · exact stands_pure _
  · exact stands_bind stands_instant fun _ => stands_bind (stands_update _) fun _ =>
      stands_bind stands_mem fun _ => stands_note _

theorem stands_startSegment (first : ℕ) (during after : Window) : Stands (startSegment first during after) :=
  stands_bind stands_mem fun _ => stands_bind (stands_diskCall _) fun _ => stands_bind (stands_note _) fun _ =>
    stands_bind (stands_mapErr (stands_call _ _ _)) fun _ => stands_bind (stands_diskCall _) fun _ =>
    stands_bind (stands_note _) fun _ => stands_bind (stands_diskCall _) fun _ => stands_update _

theorem stands_removeBelow (bound : ℕ) (l : List ℕ) : Stands (removeBelow bound l) := by
  induction l with
  | nil => exact stands_pure _
  | cons a l ih =>
    cases l with
    | nil => exact stands_pure _
    | cons b l =>
      unfold removeBelow
      split
      · exact stands_bind (stands_diskCall _) fun _ => stands_bind ih fun _ => stands_pure _
      · exact stands_pure _

theorem stands_nextSeq {ε : Type} {n : ℕ} (h : n + 1 < 2 ^ 64) : Stands (nextSeq n : Prog μ JStore ε ℕ) :=
  fun _ _ => wp_nextSeq (fun _ => trivial) fun hover => hover h

theorem stands_compactBelow {cutoff : ℕ} (h : cutoff + 1 < 2 ^ 64) : Stands (compactBelow cutoff) := by
  refine stands_bind (stands_note _) fun _ => stands_bind (stands_diskCall _) fun names => ?_
  split
  · exact stands_pure _
  · exact stands_bind (stands_nextSeq h) fun _ => stands_bind (stands_removeBelow _ _) fun _ =>
      stands_bind (stands_when (stands_diskCall _)) fun _ => stands_pure _

theorem stands_reseatTo {next : ℕ} (h : next - 1 + 1 < 2 ^ 64) : Stands (reseatTo next) :=
  stands_bind (stands_note _) fun _ => stands_bind stands_sync fun _ =>
    stands_bind (stands_startSegment _ _ _) fun _ => stands_bind (stands_update _) fun _ =>
    stands_bind (stands_compactBelow h) fun _ => stands_note _

namespace Snapshots

theorem stands_removeAll (l : List ℕ) : Stands (removeAll l : Prog μ JStore JournalError Unit) := by
  induction l with
  | nil => exact stands_pure _
  | cons k l ih => exact stands_bind (stands_diskCall _) fun _ => ih

theorem stands_purgeAfter (bound : ℕ) : Stands (purgeAfter bound : Prog μ JStore JournalError Unit) :=
  stands_bind (stands_diskCall _) fun _ => stands_bind (stands_removeAll _) fun _ => stands_diskCall _

/-! ## Every step of an opening ends -/

theorem ends_loadAll (maxSeq : ℕ) (l : List ℕ) :
    Ends (loadAll maxSeq l : Prog μ JStore JournalError (List LoadedSnapshot)) := by
  induction l with
  | nil => exact ends_pure _
  | cons k l ih =>
    have hread : Ends (read (snapName k) : Io μ History Bytes) := by
      unfold read
      exact ends_call _ _ _
    refine ends_bind (ends_attempt hread) fun bytes => ends_bind ih fun more => ?_
    split
    · exact ends_pure _
    · split
      · exact ends_pure _
      · split <;> exact ends_pure _

end Snapshots

end Ticktape.Journal

namespace Ticktape.Runtime

open Ticktape.Lib Ticktape.Core Ticktape.Journal

variable {svc : Service} {μ : Type} {config : svc.Config}

namespace Node

theorem ends_reseatTo (next : ℕ) : Ends (Journal.reseatTo next) :=
  ends_bind (ends_note _) fun _ => ends_bind ends_sync fun _ => ends_bind (ends_bind ends_mem fun _ =>
    ends_bind (ends_diskCall _) fun _ => ends_bind (ends_note _) fun _ =>
    ends_bind (ends_mapErr (ends_call _ _ _)) fun _ => ends_bind (ends_diskCall _) fun _ =>
    ends_bind (ends_note _) fun _ => ends_bind (ends_diskCall _) fun _ => ends_update _) fun _ =>
    ends_bind (ends_update _) fun _ => ends_bind (ends_compactBelow _) fun _ => ends_note _

theorem ends_reseatIfNeeded (journal : Journal) (fromSeq tip : ℕ) :
    Ends (reseatIfNeeded journal fromSeq tip : Prog μ JStore NodeError Journal) := by
  unfold reseatIfNeeded
  split
  · exact ends_bind (ends_nextSeq _) fun _ => ends_mapErr (ends_owning (ends_reseatTo _))
  · exact ends_pure _

theorem ends_chooseAnchor (journalFirst : ℕ) (l : List LoadedSnapshot) :
    Ends (chooseAnchor config journalFirst l : Prog μ JStore NodeError _) := by
  induction l with
  | nil => exact ends_pure _
  | cons snap rest ih =>
    refine ends_bind (ends_nextSeq _) fun next => ?_
    split
    · exact ih
    · split
      · exact ih
      · exact ends_pure _

theorem ends_recoverFrom (nodeConfig : NodeConfig) (clock : ℕ → UInt64) (r : Recovered) :
    Ends (recoverFrom nodeConfig config clock r : Prog μ JStore NodeError (Node svc)) := by
  refine ends_bind (ends_mapErr ?_) fun high => ends_bind (ends_mapErr ?_) fun candidates =>
    ends_bind (ends_chooseAnchor _ _) fun anchor => ?_
  · exact ends_bind (ends_diskCall _) fun _ => ends_pure _
  · exact ends_bind (ends_diskCall _) fun _ => Snapshots.ends_loadAll _ _
  · split
    · exact ends_fail _
    · refine ends_bind (ends_mapErr ?_) fun _ => ends_bind (ends_reseatIfNeeded _ _ _) fun _ =>
        ends_bind (ends_ofExcept _) fun _ => ends_pure _
      exact ends_bind (ends_diskCall _) fun _ => ends_bind (ends_removeAll _) fun _ => ends_diskCall _

/-! ## Recovery in a calm world -/

variable {Live : List Frame → svc.State → TimerWheel → Prop} {r : Recovered} {m : μ} {s : JStore}
  {nodeConfig : NodeConfig} {clock : ℕ → UInt64}

/-- **Recovery behind an open journal succeeds** if every snapshot fitted its length field. -/
theorem wp_recoverFrom_calm (hT : Tracks config Live) (h : Found Live r s) (hcodecs : svc.Codecs)
    (hsize : s.ghost.oversize = false) (hbound : s.ghost.tape.length + 1 < 2 ^ 64) :
    wp Fate.calm (recoverFrom nodeConfig config clock r : Prog μ JStore NodeError (Node svc)) (fun _ _ _ => True)
      (fun _ _ _ => False) (fun _ => False) m s := by
  have hcut : Fate.calm .cut → False := fun hcut => calm_no_cut hcut
  have hreliable : Reliable svc r.journal.lastSeq s := Or.inl ⟨hsize, hcodecs⟩
  have hshelf := h.shelved hsize
  -- no error by the specification of recovery; it is left to show that nothing overflows
  suffices hup : wp Fate.calm (recoverFrom nodeConfig config clock r : Prog μ JStore NodeError (Node svc))
      (fun _ _ _ => True) (fun _ _ _ => True) (fun _ => False) m s from
    wp_mono (wp_and (wp_recoverFrom calm_no_fault hT h hreliable) hup) (fun _ _ _ _ => trivial)
      (fun _ _ _ h => h.1.2 ⟨hsize, hcodecs⟩) fun _ h => h.2
  apply wp_bind
  apply wp_mapErr
  apply wp_highWaterSeq calm_no_fault hcut
  intro high hhigh
  apply wp_bind
  apply wp_mapErr
  apply wp_loadCandidates calm_no_fault _ hcut
  have hlow : ∀ snap ∈ (snaps s).reverse.filterMap (loadable (max r.journal.lastSeq high)),
      snap.seq ≤ s.ghost.tape.length := by
    intro snap hmem
    obtain ⟨-, f, hfile, -⟩ := hshelf.of_candidate hmem
    exact (hshelf.files _ _ hfile).1
  apply wp_seq (wp_chooseAnchor fun snap hmem hover => ?_)
  · rintro anchor m' s' ⟨rfl, rfl, hanchor⟩
    split
    · exact wp_fail trivial
    · rename_i hcovered
      have hsome : anchor = none → r.firstSeq ≤ 1 := fun hnone =>
        Nat.le_of_not_lt fun hlt => hcovered ⟨Option.isNone_iff_eq_none.mpr hnone, hlt⟩
      have hresuming := h.resuming hhigh hanchor hsome hreliable
      have hlast := h.bound
      have hfrom := hresuming.bound
      refine stands_bind (stands_mapErr (Snapshots.stands_purgeAfter _)) (fun _ => stands_bind ?_ fun _ => ?_) _ _
      · unfold reseatIfNeeded
        split
        · have hfits : max r.journal.lastSeq ((anchor.map Prod.fst).getD 0) + 1 < 2 ^ 64 := by omega
          refine fun m₁ s₁ => wp_bind (wp_nextSeq (fun _ => ?_) fun hover => hover hfits)
          exact stands_mapErr (stands_owning (stands_reseatTo (by simpa using hfits))) _ _
        · exact stands_pure _
      · exact fun m₁ s₁ => wp_bind (wp_ofExcept (fun _ _ => wp_pure trivial) fun _ _ => trivial)
  · have hle := hlow snap hmem
    omega

/-- **Opening what a power loss left, in a calm world**, when the segments are intact. -/
theorem openWith_calm {w : World JStore} (hT : Tracks config Live) (h : NLoss Live w.st) (hcalm : w.Calm)
    (hintact : Intact w.st) (hcodecs : svc.Codecs) (hsize : w.st.ghost.oversize = false)
    (hbound : w.st.ghost.tape.length + 1 < 2 ^ 64) :
    ∃ n m' w', openWith nodeConfig config clock m w = .ok n m' w' := by
  have hcut : Fate.calm .cut → False := fun hcut => calm_no_cut hcut
  have hjournal := wp_openWith (m := m) (C := fun _ => False) calm_no_fault h.journal nodeConfig.journal
    (fun hc _ _ _ _ => hcut hc) fun hover => by omega
  obtain ⟨r, m₁, w₁, hopen, hcalm₁, rfl, hreopened⟩ := wp_total (wp_mono hjournal (fun _ _ _ h => h)
    (fun _ _ _ h => h.2.2 hintact) fun _ h => h) hcalm (ends_openWith _)
  obtain ⟨hfound, hsame, htape⟩ := h.found (benign_of_calm hcalm) hopen
  have hrecovered : wp Fate.calm (recoverFrom nodeConfig config clock r : Prog μ JStore NodeError (Node svc))
      (fun _ _ _ => True) (fun _ _ _ => False) (fun _ => False) m₁ w₁.st :=
    wp_recoverFrom_calm hT hfound hcodecs (hsame.2.2.trans hsize) (by rw [htape]; exact hbound)
  obtain ⟨n, m₂, w', hrecover, -, -⟩ := wp_total hrecovered hcalm₁ (ends_recoverFrom nodeConfig clock r)
  refine ⟨n, m₂, w', ?_⟩
  rw [openWith_eq]
  show Prog.andThen (Prog.mapErr NodeError.journal (Journal.openWith nodeConfig.journal)) _ m₁ w = _
  unfold Prog.andThen
  rw [Prog.mapErr, hopen]
  exact hrecover

/-- An unfinished segment stops the scan. -/
theorem openWith_unfinished {w w' : World JStore} {n : Node svc} {m' : μ} (h : NLoss Live w.st) (hcalm : w.Calm)
    (hbroken : HeaderTorn w.st ∨ Hole w.st) : openWith nodeConfig config clock m w ≠ .ok n m' w' := by
  intro hopen
  have hcut : Fate.calm .cut → True := fun _ => trivial
  have hfault : ∀ {P : Prop} (k : ℕ), Fate.calm (.fault k) → P := fun k hk => absurd hk (calm_no_fault k)
  have hscan : wp Fate.calm (openWith nodeConfig config clock : Prog μ JStore NodeError (Node svc))
      (fun _ _ _ => False) (fun _ _ _ => True) (fun _ => True) m w.st := by
    rw [openWith_eq]
    apply wp_bind
    apply wp_mapErr
    apply wp_bind
    apply wp_io
    apply wp_createDirAll hcut hfault
    apply wp_bind
    apply wp_io
    apply wp_listDir hcut hfault
    rw [sortedNumbers_names]
    apply wp_bind
    exact wp_scan_broken calm_no_fault h.journal.run hbroken hcut fun _ => trivial
  exact (wp_ok hscan hcalm hopen).elim

end Node

/-! ## Runs -/

/-- Runs of any operations, opened as long as every snapshot fitted its length field. -/
abbrev FittingRun (config : svc.Config) : Option (Node svc) → JStore → Prop :=
  NodeRun config (fun _ => Fitting) fun _ _ => True

theorem tracked_fitting (hcodecs : svc.Codecs) :
    Tracked config (fun _ => Fitting) (fun _ _ => True) fun _ _ _ => True where
  tracks := Node.tracks_any
  reliable := fun hsize _ _ _ => Or.inl ⟨hsize, hcodecs⟩
  recovers := Or.inl fun _ _ _ => trivial
  grants := fun _ => Or.inr fun _ _ _ => trivial

/-- **A crash costs the ability to restart exactly if it leaves a segment unfinished**: in every run, with power lost
between any two storage calls any number of times, recovery's own included, the next opening succeeds unless the
newest segment has no whole header or stands apart from the ones it was to replace. -/
theorem restarts_iff_segments_finished (hcodecs : svc.Codecs) {w : World JStore}
    (hrun : FittingRun config none w.st) (hcalm : w.Calm) (hfits : Fitting w)
    (hbound : w.st.ghost.tape.length + 1 < 2 ^ 64) (nodeConfig : NodeConfig) (clock : ℕ → UInt64) :
    (∃ n w', Node.openWith nodeConfig config clock () w = .ok n () w') ↔ ¬(HeaderTorn w.st ∨ Hole w.st) := by
  have hloss : Node.NLoss (fun _ _ _ => True) w.st := (tracked_fitting hcodecs).run_inv hrun
  constructor
  · rintro ⟨n, w', hopen⟩ hbroken
    exact Node.openWith_unfinished hloss hcalm hbroken hopen
  · intro hfinished
    have hintact : Intact w.st := hloss.journal.shape.resolve_right hfinished
    have htracks : Tracks config fun _ _ _ => True := Node.tracks_any
    obtain ⟨n, ⟨⟩, w', hopen⟩ : ∃ n m' w', Node.openWith nodeConfig config clock () w = .ok n m' w' :=
      Node.openWith_calm htracks hloss hcalm hintact hcodecs hfits hbound
    exact ⟨n, w', hopen⟩

/-! ## Runs of the doubler -/

/-- Submit one input in an empty directory; the call behind the first `calls` ones loses power, which leaves
everything that was written. Then open again. -/
structure Interrupted where
  node : Node doubler
  world : World JStore
  loss : World JStore
  reopening : Outcome Unit JStore NodeError (Node doubler)

def interruptedConfig : NodeConfig := ⟨⟨1024, .everyFrame⟩, 1, none, 1, none⟩

def Interrupted.left (i : Interrupted) : JStore := ⟨i.loss.st.disk.settle, i.loss.st.ghost⟩

def interruptedSubmit (calls : ℕ) : Option Interrupted := do
  let (n, _, w) ← (Node.openWith interruptedConfig () (fun _ => 5) ()
    (.healthy ⟨Disk.empty, History.fresh⟩)).returned
  let world : World JStore := ⟨resume w.st n.seq, List.replicate calls .ok ++ [.cut], fun _ => 0⟩
  let loss ← ((@NodeOp.submit doubler 4 (3 : UInt64)).run n world).lost
  let reopening := Node.openWith interruptedConfig () (fun _ => 5) ()
    (.healthy ⟨loss.st.disk.settle, loss.st.ghost⟩)
  pure ⟨n, world, loss, reopening⟩

theorem fittingRun_interruptedSubmit {calls : ℕ} {i : Interrupted} (h : interruptedSubmit calls = some i) :
    @FittingRun doubler () none i.left ∧
      Node.openWith interruptedConfig () (fun _ => 5) () (.healthy i.left) = i.reopening := by
  simp only [interruptedSubmit, bind, Option.bind_eq_some_iff] at h
  obtain ⟨⟨n, _, w⟩, hopen, loss, hlost, heq⟩ := h
  cases heq
  rw [Outcome.returned_eq_some] at hopen
  rw [Outcome.lost_eq_some] at hlost
  have hopened : @FittingRun doubler () (some n) (resume w.st n.seq) :=
    .opened (w := .healthy _) _ _ .start (fun f hf => by cases hf) rfl hopen
  have hbenign : (⟨resume w.st n.seq, List.replicate calls .ok ++ [.cut], fun _ => 0⟩ : World JStore).Benign := by
    intro f hf
    rcases List.mem_append.mp hf with hf | hf
    · rw [List.eq_of_mem_replicate hf]
      trivial
    · rw [List.mem_singleton.mp hf]
      trivial
  exact ⟨.lostDuring (.submit 4 (3 : UInt64)) hopened hbenign trivial hlost ⟨Disk.powerLoss_settle _, rfl⟩, rfl⟩

/-- Power is lost once the frame is synced: the node opens again, and no segment is unfinished. -/
theorem restarts_iff_segments_finished_of_synced : ∃ w : World JStore, @FittingRun doubler () none w.st ∧
    w.st.ghost.tape.length = 1 ∧ ¬(HeaderTorn w.st ∨ Hole w.st) := by
  have hrun : (interruptedSubmit 6).any (fun i => decide (i.left.ghost.tape.length = 1 ∧
      i.left.ghost.oversize = false ∧ i.reopening.returned.isSome = true)) = true := by decide +kernel
  obtain ⟨i, hrun, hvals⟩ := (Option.any_eq_true _ _).mp hrun
  obtain ⟨hlen, hfits, hreturned⟩ := of_decide_eq_true hvals
  obtain ⟨hrun, hreopening⟩ := fittingRun_interruptedSubmit hrun
  obtain ⟨⟨n, ⟨⟩, w'⟩, hreturned⟩ := Option.isSome_iff_exists.mp hreturned
  rw [Outcome.returned_eq_some] at hreturned
  have hcalm : (World.healthy i.left).Calm := fun f hf => by cases hf
  have hbound : i.left.ghost.tape.length + 1 < 2 ^ 64 := by omega
  have hiff := restarts_iff_segments_finished doubler_codecs (w := .healthy i.left) hrun hcalm hfits hbound
    interruptedConfig fun _ => 5
  exact ⟨.healthy i.left, hrun, hlen, hiff.mp ⟨n, w', hreopening.trans hreturned⟩⟩

/-- **A roll that is cut short**: the first segment was created, and its header was not written. The next opening
takes the empty file for a corrupt segment. -/
theorem torn_roll_refused : ∃ (w w' : World JStore) (e : NodeError), @FittingRun doubler () none w.st ∧ w.Calm ∧
    Fitting w ∧ w.st.ghost.tape = [] ∧
    (Node.openWith interruptedConfig () (fun _ => 5) () w : Outcome Unit JStore NodeError (Node doubler)) =
      .err e () w' := by
  have hrun : (interruptedSubmit 1).any (fun i => decide (i.left.ghost.tape = [] ∧
      i.left.ghost.oversize = false ∧ i.reopening.failed.isSome = true)) = true := by decide +kernel
  obtain ⟨i, hrun, hvals⟩ := (Option.any_eq_true _ _).mp hrun
  obtain ⟨htape, hfits, hfailed⟩ := of_decide_eq_true hvals
  obtain ⟨hrun, hreopening⟩ := fittingRun_interruptedSubmit hrun
  obtain ⟨⟨e, ⟨⟩, w'⟩, hfailed⟩ := Option.isSome_iff_exists.mp hfailed
  rw [Outcome.failed_eq_some] at hfailed
  have hcalm : (World.healthy i.left).Calm := fun f hf => by cases hf
  exact ⟨.healthy i.left, w', e, hrun, hcalm, hfits, htape, hreopening.trans hfailed⟩

end Ticktape.Runtime
