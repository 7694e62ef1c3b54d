import Ticktape.Lib.Memory
import Ticktape.Runtime.Node

/-!
# What node operations do to the node

Specifications of the node operations that only look at the node itself, for any store and any
environment: a journal operation changes nothing of the node but its journal, a snapshot operation
nothing at all, and sequencing a frame stamps it with the next seq.
-/

namespace Ticktape.Runtime

open Ticktape.Lib Ticktape.Core Ticktape.Journal

/-! ## Snapshot operations -/

section Snapshots

variable {μ : Type}

theorem frozen_io {α : Type} {p : Io μ History α} (h : Frozen p) : Frozen (io p) := frozen_mapErr h

theorem frozen_diskCall {α : Type} (act : Disk FileName → Except IoError α × Disk FileName) :
    Frozen (io (diskCall act) : Prog μ JStore JournalError α) := frozen_io (frozen_call _ _ _)

theorem frozen_removeAll (l : List ℕ) :
    Frozen (Snapshots.removeAll l : Prog μ JStore JournalError Unit) := by
  induction l with
  | nil => exact frozen_pure _
  | cons n l ih => exact frozen_bind (frozen_diskCall _) fun _ => ih

theorem frozen_write (seq epoch : ℕ) (payload : Bytes) :
    Frozen (Snapshots.write seq epoch payload : Prog μ JStore JournalError Unit) :=
  frozen_bind (frozen_note _) fun _ => frozen_bind (frozen_diskCall _) fun _ =>
    frozen_bind (frozen_io (frozen_call _ _ _)) fun _ => frozen_bind (frozen_diskCall _) fun _ =>
    frozen_diskCall _

theorem frozen_pruneKeepNewest (keep : ℕ) :
    Frozen (Snapshots.pruneKeepNewest keep : Prog μ JStore JournalError (Option ℕ)) := by
  refine frozen_bind (frozen_diskCall _) fun names => ?_
  simp only
  split
  · exact frozen_bind (frozen_removeAll _) fun _ => frozen_bind (frozen_diskCall _) fun _ =>
      frozen_pure _
  · exact frozen_pure _

end Snapshots

namespace Node

variable {svc : Service} {n : Node svc}

section Rules

variable {α : Type} {Q : α → Node svc → Prop} {E : NodeError → Node svc → Prop}

/-- A journal operation changes nothing of the node but its journal. -/
theorem mwp_onJournal {p : JProg α} (hQ : ∀ a j, Q a { n with journal := j })
    (hE : ∀ e j, E e { n with journal := j }) : mwp (onJournal p) Q E n :=
  mwp_zoom (mwp_mapErr (mwp_mono mwp_trivial (fun a j _ => hQ a j) (fun _ j _ => hE _ j)))

theorem mwp_onSnapshots {p : Prog (Node svc) JStore JournalError α} (h : Frozen p)
    (hQ : ∀ a, Q a n) (hE : ∀ e, E e n) : mwp (onSnapshots p) Q E n :=
  mwp_mapErr (mwp_mono (h n) (fun a _ heq => heq ▸ hQ a) (fun _ _ heq => heq ▸ hE _))

end Rules

/-! ## Sequencing -/

/-- `n'` is `n` after a frame was sequenced: the journal and the clock have moved on, nothing else
changed beyond the two fields the frame determines. -/
structure Sequenced (n : Node svc) (kind : FrameKind) (payload : Bytes) (frame : Frame)
    (n' : Node svc) : Prop where
  seq : frame.seq = n.seq + 1
  kind : frame.kind = kind
  payload : frame.payload = payload
  node : ∃ clock journal, n' = { n with
    clock := clock, journal := journal, seq := frame.seq, lastTimestamp := frame.timestamp }

theorem mwp_nextSeq {μ σ ε : Type} {m : μ} {E : ε → μ → Prop} (seq : ℕ) :
    mwp (nextSeq seq : Prog μ σ ε ℕ) (fun _ m' => m' = m) E m := by
  unfold nextSeq
  split
  · exact mwp_pure rfl
  · exact mwp_panic

section Sequencing

variable {E : NodeError → Node svc → Prop} {kind : FrameKind} {payload : Bytes}

theorem mwp_now {Q : UInt64 → Node svc → Prop}
    (h : Q (n.clock 0) { n with clock := fun i => n.clock (i + 1) }) : mwp now Q E n :=
  mwp_bind (mwp_mem (mwp_bind (mwp_update (mwp_pure h))))

theorem mwp_stageFrame {time : UInt64} {Q : Frame → Node svc → Prop}
    (h : ∀ frame : Frame, frame.seq = n.seq + 1 → frame.kind = kind → frame.payload = payload →
      frame.timestamp = max time n.lastTimestamp →
      Q frame { n with seq := frame.seq, lastTimestamp := frame.timestamp }) :
    mwp (stageFrame kind payload time) Q E n := by
  refine mwp_bind (mwp_mem ?_)
  split
  · exact mwp_bind (mwp_update (mwp_pure (h _ rfl rfl rfl rfl)))
  · exact mwp_panic

theorem mwp_sequenceAt {time : UInt64} :
    mwp (sequenceAt kind payload time) (fun frame n' => Sequenced n kind payload frame n')
      (fun _ n' => n'.seq = n.seq + 1) n := by
  refine mwp_bind (mwp_stageFrame fun frame hseq hkind hpayload _ => ?_)
  refine mwp_bind (mwp_onJournal (fun _ j => mwp_pure ?_) fun _ _ => hseq)
  exact ⟨hseq, hkind, hpayload, n.clock, j, rfl⟩

theorem mwp_sequence :
    mwp (sequence kind payload) (fun frame n' => Sequenced n kind payload frame n')
      (fun _ n' => n'.seq = n.seq + 1) n := by
  refine mwp_bind (mwp_now ?_)
  refine mwp_mono mwp_sequenceAt ?_ (fun _ _ h => h)
  rintro frame n' ⟨hseq, hkind, hpayload, clock, journal, rfl⟩
  exact ⟨hseq, hkind, hpayload, clock, journal, rfl⟩

end Sequencing

/-! ## Staging a batch -/

/-- `n'` is `n` after a frame was staged for every input of a batch at `time`. -/
structure Staged (n : Node svc) (time : UInt64) (inputs : List svc.Input) (frames : List Frame)
    (n' : Node svc) : Prop where
  staged : List.Forall₂ (fun input frame => frame.kind = .input ∧ frame.payload = encode input)
    inputs frames
  seqs : frames.map (·.seq) = List.range' (n.seq + 1) inputs.length
  stamps : ∀ f ∈ frames, f.timestamp = max time n.lastTimestamp
  node : n' = { n with
    seq := n.seq + inputs.length
    lastTimestamp := if inputs = [] then n.lastTimestamp else max time n.lastTimestamp }

theorem max_max_self (a b : UInt64) : max a (max a b) = max a b := by
  show (if a ≤ (if a ≤ b then b else a) then (if a ≤ b then b else a) else a) = if a ≤ b then b else a
  by_cases h : a ≤ b
  · simp only [h, if_true]
  · simp only [h, if_false, ite_self]

theorem le_max_clamp (time last : UInt64) : last ≤ max time last := by
  show last ≤ if time ≤ last then last else time
  split
  · exact UInt64.le_refl _
  · exact (UInt64.le_total time last).resolve_left ‹_›

/-- One more input in front: its frame moves the clamp to the stamp that all of them get. -/
theorem Staged.cons {n n' : Node svc} {time : UInt64} {input : svc.Input} {rest : List svc.Input} {frame : Frame}
    {frames : List Frame} (hseq : frame.seq = n.seq + 1) (hkind : frame.kind = .input)
    (hpayload : frame.payload = encode input) (htime : frame.timestamp = max time n.lastTimestamp)
    (h : Staged { n with seq := frame.seq, lastTimestamp := frame.timestamp } time rest frames n') :
    Staged n time (input :: rest) (frame :: frames) n' := by
  obtain ⟨hframes, hseqs, hstamps, rfl⟩ := h
  refine ⟨.cons ⟨hkind, hpayload⟩ hframes, ?_, ?_, ?_⟩
  · rw [List.map_cons, hseqs, hseq, List.length_cons, List.range'_succ]
  · intro f hf
    rcases List.mem_cons.mp hf with rfl | hf
    · exact htime
    · rw [hstamps f hf, htime, max_max_self]
  · simp only [hseq, htime, max_max_self, ite_self, List.length_cons, reduceCtorEq, if_false]
    rw [Nat.add_assoc, Nat.add_comm 1]

theorem mwp_stageAll {E : NodeError → Node svc → Prop} (time : UInt64) (inputs : List svc.Input) :
    mwp (stageAll time inputs) (fun frames n' => Staged n time inputs frames n') E n := by
  induction inputs generalizing n with
  | nil => exact mwp_pure ⟨.nil, rfl, by simp, rfl⟩
  | cons input rest ih =>
    refine mwp_bind (mwp_stageFrame fun frame hseq hkind hpayload htime => ?_)
    exact mwp_seq ih fun frames n' h => mwp_pure (.cons hseq hkind hpayload htime h)

/-- The seqs of the frames, next to their inputs. -/
theorem Staged.zip_seqs {n n' : Node svc} {time : UInt64} {inputs : List svc.Input}
    {frames : List Frame} (h : Staged n time inputs frames n') :
    (inputs.zip frames).map (·.2.seq) = List.range' (n.seq + 1) inputs.length := by
  have hlen : inputs.length = frames.length := h.staged.length_eq
  calc (inputs.zip frames).map (·.2.seq)
      = ((inputs.zip frames).map Prod.snd).map (·.seq) := by rw [List.map_map]; rfl
    _ = frames.map (·.seq) := by rw [List.map_snd_zip hlen.ge]
    _ = List.range' (n.seq + 1) inputs.length := h.seqs

/-! ## Snapshots on cadence -/

/-- The node after a frame was published. -/
def published (n : Node svc) (frame : Frame) (outputs : List svc.Output) : Node svc :=
  { n with
    bus := (n.bus.filter (·.connected)).map fun sub => { sub with received := sub.received ++ [frame] }
    ledger := n.ledger ++ [⟨frame, n.service, outputs⟩] }

/-- **Snapshots, seen from the node**: whatever holds of the node before, and of every node after
a mark was sequenced and published, holds after a snapshot on cadence. -/
theorem mwp_maybeSnapshot {Q : Unit → Node svc → Prop} {seq : ℕ} (hskip : Q () n)
    (hmark : ∀ payload mark n', Sequenced n .snapshotMark payload mark n' →
      ∀ j, Q () { published n' mark [] with journal := j }) :
    mwp (maybeSnapshot seq) Q (fun _ _ => True) n := by
  refine mwp_bind (mwp_mem ?_)
  cases n.snapshotEvery with
  | none => exact mwp_pure hskip
  | some every =>
    refine mwp_when (fun _ => ?_) (fun _ => hskip)
    refine mwp_bind (mwp_mem ?_)
    refine mwp_bind (mwp_onSnapshots (frozen_write _ _ _) (fun _ => ?_) fun _ => trivial)
    refine mwp_bind (mwp_mono mwp_sequence ?_ (fun _ _ _ => trivial))
    intro mark n' hseq
    refine mwp_bind (mwp_update (mwp_bind (mwp_onSnapshots (frozen_pruneKeepNewest _)
      (fun oldest => ?_) fun _ => trivial)))
    cases oldest with
    | none => exact mwp_pure (hmark _ mark n' hseq (published n' mark []).journal)
    | some oldest =>
      exact mwp_bind (mwp_onJournal (fun _ j => mwp_pure (hmark _ mark n' hseq j)) fun _ _ => trivial)

theorem mwp_onCommit {α : Type} {p : Prog (CommitState svc.Output) JStore NodeError α} {none : α}
    {Q : α → Node svc → Prop} {E : NodeError → Node svc → Prop}
    (hnone : n.commit = .none → Q none n)
    (hsome : ∀ state, n.commit = some state →
      mwp p (fun a state' => Q a { n with commit := some state' })
        (fun e state' => E e { n with commit := some state' }) state) :
    mwp (onCommit p none) Q E n := by
  refine mwp_bind (mwp_mem ?_)
  cases hcommit : n.commit with
  | none => exact mwp_pure (hnone hcommit)
  | some state => exact mwp_zoom (hsome state hcommit)

theorem mwp_runStep {Q : List svc.Output → Node svc → Prop} {E : NodeError → Node svc → Prop}
    {frame : Frame} {step : svc.State → Ctx → Step svc.State svc.Output}
    (h : Q (step n.service ⟨frame.seq, frame.timestamp⟩).outputs { n with
      service := (step n.service ⟨frame.seq, frame.timestamp⟩).state
      timers := n.timers.applyAll (step n.service ⟨frame.seq, frame.timestamp⟩).timers
        (UInt64.ofNat frame.seq) }) :
    mwp (runStep frame step) Q E n := mwp_bind (mwp_mem (mwp_bind (mwp_update (mwp_pure h))))

theorem mwp_popDue {Q : Option UInt64 → Node svc → Prop} {E : NodeError → Node svc → Prop}
    (hnone : n.timers.popDue n.lastTimestamp = none → Q none n)
    (hsome : ∀ id timers, n.timers.popDue n.lastTimestamp = some (id, timers) →
      Q (some id) { n with timers := timers }) : mwp popDue Q E n := by
  refine mwp_bind (mwp_mem ?_)
  cases hdue : n.timers.popDue n.lastTimestamp with
  | none => exact mwp_pure (hnone hdue)
  | some due => exact mwp_bind (mwp_update (mwp_pure (hsome due.1 due.2 hdue)))

/-! ## Opening -/

section Opening

variable {μ : Type} {m : μ} {config : NodeConfig} {serviceConfig : svc.Config} {clock : ℕ → UInt64}

/-- A program about whose end nothing is known. -/
theorem mwp_any {α β : Type} {p : Prog μ JStore NodeError α} {f : α → Prog μ JStore NodeError β}
    {R : β → μ → Prop} (h : ∀ a m', mwp (f a) R (fun _ _ => True) m') :
    mwp (p >>= f) R (fun _ _ => True) m :=
  mwp_seq mwp_trivial fun a m' _ => h a m'

/-- Every opened node was assembled by recovery. -/
theorem mwp_openWith :
    mwp (openWith config serviceConfig clock) (fun (n : Node svc) (_ : μ) =>
      ∃ journal fromSeq tip frames r, n = assemble config serviceConfig clock journal fromSeq tip
        frames r) (fun _ _ => True) m := by
  refine mwp_any fun recovered _ => mwp_any fun highWater _ => mwp_any fun candidates _ =>
    mwp_any fun anchor _ => ?_
  split
  · exact mwp_fail trivial
  · refine mwp_any fun _ _ => mwp_any fun journal _ => mwp_any fun r _ => ?_
    exact mwp_pure ⟨journal, _, _, _, r, rfl⟩

/-- Opening on an empty directory starts from genesis. -/
theorem wp_openWith_empty {s : JStore} (h : s.disk.names = []) :
    wp (fun _ => True) (openWith config serviceConfig clock) (fun (n : Node svc) (_ : μ) _ =>
      n.service = svc.genesis serviceConfig ∧ n.seq = 0 ∧ n.bus = [] ∧ n.ledger = [])
      (fun _ _ _ => True) (fun _ => True) m s := by
  have hnone : ∀ e, sortedNumbers e s.disk.names = [] := fun e => by rw [h]; rfl
  -- the journal: nothing to scan
  refine wp_bind (wp_mapErr ?_)
  refine wp_bind (wp_mapErr (wp_createDirAll (fun _ => trivial) (fun _ _ => trivial) ?_))
  refine wp_bind (wp_mapErr (wp_listDir (fun _ => trivial) (fun _ _ => trivial) ?_))
  rw [hnone]
  refine wp_bind (wp_pure (wp_bind (wp_pure (wp_bind (wp_instant fun now => ?_)))))
  refine wp_bind (wp_note (wp_pure ?_))
  -- the snapshots: none to load
  refine wp_bind (wp_mapErr (wp_bind (wp_mapErr
    (wp_listDir (fun _ => trivial) (fun _ _ => trivial) (wp_pure ?_)))))
  refine wp_bind (wp_mapErr (wp_bind (wp_mapErr
    (wp_listDir (fun _ => trivial) (fun _ _ => trivial) ?_))))
  show wp _ (Snapshots.loadAll _ (sortedNumbers .snap s.disk.names).reverse) _ _ _ _ _
  rw [hnone]
  refine wp_pure (wp_bind (wp_pure ?_))
  rw [if_neg (by simp [Scan.firstSeq, Scan.start])]
  refine wp_bind (wp_mapErr (wp_bind (wp_mapErr
    (wp_listDir (fun _ => trivial) (fun _ _ => trivial) ?_))))
  show wp _ (do Snapshots.removeAll ((s.disk.names.filterMap _).filter _); io syncDir) _ _ _ _ _
  rw [h]
  refine wp_bind (wp_pure (wp_mapErr (wp_syncDir (fun _ => trivial) (fun _ _ => trivial) ?_)))
  exact wp_bind (wp_pure (wp_bind (wp_pure (wp_pure ⟨rfl, rfl, rfl, rfl⟩))))

end Opening

end Node

end Ticktape.Runtime
