import Ticktape.Journal.Recovery

/-!
# Journal runs

Runs of the journal over any number of power losses: operations and openings, each of which may
be cut before any of its storage calls, and what recovery returns at the end of one.
-/

namespace Ticktape.Journal

open Ticktape.Lib Ticktape.Core

/-- The journal operations. -/
inductive Op where
  | append (frame : Frame)
  | appendBatch (frames : List Frame)
  | sync
  | compactBelow (cutoff : ℕ)

/-- Run an operation. -/
def Op.run : Op → JProg Unit
  | .append frame => Journal.append frame
  | .appendBatch frames => Journal.appendBatch frames
  | .sync => Journal.sync
  | .compactBelow cutoff => do
    let _ ← Journal.compactBelow cutoff
    pure ()

/-- The history after a recovery up to `tip`: frames above it are gone. -/
def History.resume (h : History) (tip : ℕ) : History := { h with tape := h.tape.take tip }

/-- The store after a recovery up to `tip`. -/
def resume (s : JStore) (tip : ℕ) : JStore := { s with ghost := s.ghost.resume tip }

/-- The states a journal can get into: open (`some j`) or lost (`none`), on a store. -/
inductive Run : Option Journal → JStore → Prop where
  | start : Run none ⟨Disk.empty, History.fresh⟩
  /-- Opening succeeds. -/
  | opened {w w' : World JStore} {r : Recovered} (config : JournalConfig) :
      Run none w.st → w.Benign → openWith config () w = .ok r () w' →
      Run (some r.journal) (resume w'.st r.journal.lastSeq)
  /-- Opening is refused. -/
  | refused {w w' : World JStore} {e : JournalError} (config : JournalConfig) :
      Run none w.st → w.Benign → openWith config () w = .err e () w' → Run none w'.st
  /-- Power is lost while opening. -/
  | openingLost {w w' : World JStore} {s : JStore} (config : JournalConfig) :
      Run none w.st → w.Benign → openWith config () w = .down w' → w'.st.PowerLoss s →
      Run none s
  /-- An operation returns. -/
  | done {w w' : World JStore} {j j' : Journal} (op : Op) :
      Run (some j) w.st → w.Benign → op.run j w = .ok () j' w' → Run (some j') w'.st
  /-- An operation fails. -/
  | failed {w w' : World JStore} {j j' : Journal} {e : JournalError} (op : Op) :
      Run (some j) w.st → w.Benign → op.run j w = .err e j' w' → Run (some j') w'.st
  /-- Power is lost during an operation. -/
  | lostDuring {w w' : World JStore} {j : Journal} {s : JStore} (op : Op) :
      Run (some j) w.st → w.Benign → op.run j w = .down w' → w'.st.PowerLoss s → Run none s
  /-- Power is lost between operations. -/
  | lost {s s' : JStore} {j : Journal} : Run (some j) s → s.PowerLoss s' → Run none s'

/-- What holds of an open or lost journal. -/
def RunInv : Option Journal → JStore → Prop
  | some j, s => JInv s.ghost.tape j s
  | none, s => JLoss s

/-- **Step lemma**: every operation keeps the invariant, however it ends. -/
theorem wp_op {j : Journal} {s : JStore} (h : JInv s.ghost.tape j s) (op : Op) :
    wp Fate.benign op.run (fun _ j' s' => JInv s'.ghost.tape j' s')
      (fun _ j' s' => JInv s'.ghost.tape j' s') JCrash j s := by
  cases op with
  | append frame =>
    refine wp_mono (wp_append benign_no_fault h frame (fun _ _ hcrash => hcrash.1) (fun _ => h.crash))
      (fun _ _ _ h => h.1) ?_ (fun _ h => h)
    rintro _ j' s' ⟨h', htape, -⟩
    exact htape ▸ h'
  | appendBatch frames =>
    refine wp_mono (wp_appendBatch benign_no_fault h frames (fun _ _ hcrash => hcrash.1)
      (fun _ => h.crash)) (fun _ _ _ h => h.1) ?_ (fun _ h => h)
    rintro _ j' s' ⟨h', htape, -⟩
    exact htape ▸ h'
  | sync =>
    refine wp_mono (wp_sync (fun _ => h.crash) (fun k hk => absurd hk (benign_no_fault k)) h) ?_
      (fun _ _ _ h => h) (fun _ h => h)
    rintro _ j' s' ⟨h', -, hghost, -⟩
    rw [hghost]
    exact h'
  | compactBelow cutoff =>
    refine wp_bind (wp_mono (wp_compactBelow benign_no_fault h cutoff (fun _ _ hcrash => hcrash.1)
      (fun _ _ => (h.raiseCutoff cutoff).crash)) ?_ (fun _ _ _ h => h) (fun _ h => h))
    rintro _ j' s' ⟨h', hghost, -⟩
    refine wp_pure ?_
    rw [hghost]
    exact h'

/-- Opening, for a run. -/
theorem wp_opening {s : JStore} (h : JLoss s) (config : JournalConfig) :
    wp Fate.benign (openWith config) (fun r _ s' => Reopened config s r s')
      (fun _ _ s' => JLoss s') JCrash () s := by
  refine wp_mono (wp_openWith benign_no_fault h config (fun _ s' _ hc _ => hc) (fun _ => h.crash))
    (fun _ _ _ h => h.2) ?_ (fun _ h => h)
  rintro _ _ s' ⟨-, rfl, -⟩
  exact h

theorem Reopened.resume {config : JournalConfig} {s s' : JStore} {r : Recovered}
    (h : Reopened config s r s') :
    JInv (resume s' r.journal.lastSeq).ghost.tape r.journal (resume s' r.journal.lastSeq) := by
  have htape : (Journal.resume s' r.journal.lastSeq).ghost.tape =
      s.ghost.tape.take r.journal.lastSeq := by
    show s'.ghost.tape.take _ = _
    rw [h.ghost]
  refine ⟨?_, ⟨r.journal.lastSeq, ?_⟩, ?_, ?_⟩
  · rw [htape]
    have hrun := h.inv.run
    rw [h.ghost] at hrun
    exact hrun.take _
  · rw [htape, List.take_take, Nat.min_self]
  · rw [htape]
    exact h.inv.last
  · rw [htape]
    exact h.inv.holds

/-- The empty store. -/
theorem jloss_fresh : JLoss ⟨Disk.empty, History.fresh⟩ := by
  refine ⟨fun k f hf => ?_, trivial, Or.inl ⟨0, Or.inl ⟨?_, rfl⟩, Nat.le_refl 0⟩⟩
  · simp at hf
  · exact filesOf_eq .nil (by simp)

/-- **Run lemma**: the invariant holds in every state of every run. -/
theorem run_inv {o : Option Journal} {s : JStore} (h : Run o s) : RunInv o s := by
  induction h with
  | start => exact jloss_fresh
  | opened config _ hw hrun ih => exact (wp_ok (wp_opening ih config) hw hrun).resume
  | refused config _ hw hrun ih => exact wp_err (wp_opening ih config) hw hrun
  | openingLost config _ hw hrun hl ih => exact wp_down (wp_opening ih config) hw hrun _ hl
  | done op _ hw hrun ih =>
    have h := wp_ok (wp_op ih op) hw hrun
    exact h
  | failed op _ hw hrun ih =>
    have h := wp_err (wp_op ih op) hw hrun
    exact h
  | lostDuring op _ hw hrun hl ih => exact wp_down (wp_op ih op) hw hrun _ hl
  | lost _ hl ih => exact JInv.crash ih _ hl

/-- **Crash integrity.** Whenever a journal is opened after any run, the frames it returns are a
contiguous slice `first..last` of the frames written in the surviving history; `last` is the
reopened journal's `last_seq` and covers every frame a returned sync covered; and no frame between
the largest compaction cutoff and `last` is missing. -/
theorem openWith_slice_of_run {w w' : World JStore} {r : Recovered} {config : JournalConfig}
    (hrun : Run none w.st) (hw : w.Benign) (hopen : openWith config () w = .ok r () w') :
    ∃ first last, 1 ≤ first ∧ first ≤ last + 1 ∧ last ≤ w.st.ghost.tape.length ∧
      SeqRun 1 w.st.ghost.tape ∧
      r.frames = (w.st.ghost.tape.take last).drop (first - 1) ∧
      r.journal.lastSeq = last ∧ w.st.ghost.durable ≤ last ∧
      ∀ f ∈ w.st.ghost.tape, w.st.ghost.cutoff < f.seq → f.seq ≤ last → f ∈ r.frames := by
  have hloss : JLoss w.st := run_inv hrun
  have h := wp_ok (wp_opening hloss config) hw hopen
  refine ⟨r.firstSeq, r.journal.lastSeq, h.first_pos, h.first_le, h.bound, hloss.run, ?_, rfl,
    h.durable, ?_⟩
  · rw [h.frames, span, Nat.add_sub_cancel]
  · intro f hf hlow hhigh
    have hfloor := h.floor
    rw [h.frames, mem_span hloss.run h.first_pos]
    exact ⟨hf, by omega, by omega⟩

/-- A run that ends in a recovery: one frame is appended, power is lost, and reopening returns
it. -/
def oneFrameRun : Option (World JStore × World JStore × Recovered × World JStore) := do
  let config : JournalConfig := ⟨0, .everyFrame⟩
  let frame : Frame := ⟨1, 0, 1, .tick, [], one_lt_seqs, nil_payload_le⟩
  let w₀ : World JStore := ⟨⟨Disk.empty, History.fresh⟩, [], fun _ => 0⟩
  let (r, _, w₁) ← (openWith config () w₀).returned
  let w₂ : World JStore := ⟨resume w₁.st r.journal.lastSeq, [], fun _ => 0⟩
  let (_, _, w₃) ← ((Op.append frame).run r.journal w₂).returned
  let w₄ : World JStore := ⟨⟨w₃.st.disk.settle, w₃.st.ghost⟩, [], fun _ => 0⟩
  let (r', _, w₅) ← (openWith config () w₄).returned
  pure (w₃, w₄, r', w₅)

theorem openWith_slice_of_one_frame : ∃ (w w' : World JStore) (r : Recovered),
    openWith ⟨0, .everyFrame⟩ () w = .ok r () w' ∧ r.journal.lastSeq = 1 ∧
    ∃ first last, 1 ≤ first ∧ first ≤ last + 1 ∧ last ≤ w.st.ghost.tape.length ∧
      SeqRun 1 w.st.ghost.tape ∧
      r.frames = (w.st.ghost.tape.take last).drop (first - 1) ∧
      r.journal.lastSeq = last ∧ w.st.ghost.durable ≤ last ∧
      ∀ f ∈ w.st.ghost.tape, w.st.ghost.cutoff < f.seq → f.seq ≤ last → f ∈ r.frames := by
  have hbenign : ∀ {s : JStore}, (World.mk s [] fun _ => 0).Benign := by simp [World.Benign]
  have hlast : oneFrameRun.map (fun p => p.2.2.1.journal.lastSeq) = some 1 := by decide +kernel
  obtain ⟨⟨w₃, w₄, r', w₅⟩, hscript, hlast⟩ := Option.map_eq_some_iff.mp hlast
  simp only [oneFrameRun, bind, Option.bind_eq_some_iff] at hscript
  obtain ⟨⟨r, _, w₁⟩, hopen, ⟨_, j, w₃'⟩, happend, ⟨r'', _, w₅'⟩, hreopen, heq⟩ := hscript
  cases heq
  rw [Outcome.returned_eq_some] at hopen happend hreopen
  have hrun₁ := Run.opened _ Run.start hbenign hopen
  have hrun₂ := Run.done (w := ⟨_, [], fun _ => 0⟩) _ hrun₁ hbenign happend
  have hrun₃ : Run none ⟨w₃'.st.disk.settle, w₃'.st.ghost⟩ :=
    Run.lost hrun₂ ⟨Disk.powerLoss_settle _, rfl⟩
  exact ⟨_, _, _, hreopen, hlast, openWith_slice_of_run hrun₃ hbenign hreopen⟩

end Ticktape.Journal
