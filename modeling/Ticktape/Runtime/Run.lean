import Ticktape.Runtime.Recovery
import Ticktape.Runtime.Group

/-!
# Runs of a node

A node over any number of power losses: operations, openings, and losses between any two of the storage calls
they make. `Admits` says at which openings the run may go on, and `Grants` which operations it may make; a run
without conditions admits and grants everything.
-/

namespace Ticktape.Runtime

open Ticktape.Lib Ticktape.Core Ticktape.Journal

variable {svc : Service}

/-- The states a node can get into: open (`some n`) or lost (`none`), on a store. -/
inductive NodeRun (config : svc.Config) (Admits : NodeConfig → World JStore → Prop)
    (Grants : Node svc → NodeOp svc → Prop) : Option (Node svc) → JStore → Prop where
  | start : NodeRun config Admits Grants none ⟨Disk.empty, History.fresh⟩
  /-- Opening succeeds; what lies above the recovered tip is not part of the history any more. -/
  | opened {w w' : World JStore} {n : Node svc} (nodeConfig : NodeConfig) (clock : ℕ → UInt64) :
      NodeRun config Admits Grants none w.st → w.Benign → Admits nodeConfig w →
      Node.openWith nodeConfig config clock () w = .ok n () w' →
      NodeRun config Admits Grants (some n) (resume w'.st n.seq)
  /-- Opening is refused, and the process ends. -/
  | refused {w w' : World JStore} {e : NodeError} {s : JStore} (nodeConfig : NodeConfig) (clock : ℕ → UInt64) :
      NodeRun config Admits Grants none w.st → w.Benign → Admits nodeConfig w →
      Node.openWith nodeConfig config clock () w = .err e () w' → w'.st.PowerLoss s →
      NodeRun config Admits Grants none s
  /-- Power is lost while opening. -/
  | openingLost {w w' : World JStore} {s : JStore} (nodeConfig : NodeConfig) (clock : ℕ → UInt64) :
      NodeRun config Admits Grants none w.st → w.Benign → Admits nodeConfig w →
      Node.openWith nodeConfig config clock () w = .down w' → w'.st.PowerLoss s →
      NodeRun config Admits Grants none s
  /-- An operation returns. -/
  | done {w w' : World JStore} {n n' : Node svc} (op : NodeOp svc) :
      NodeRun config Admits Grants (some n) w.st → w.Benign → Grants n op → op.run n w = .ok () n' w' →
      NodeRun config Admits Grants (some n') w'.st
  /-- An operation fails, and the node goes on. -/
  | failed {w w' : World JStore} {n n' : Node svc} {e : NodeError} (op : NodeOp svc) :
      NodeRun config Admits Grants (some n) w.st → w.Benign → Grants n op → op.run n w = .err e n' w' →
      NodeRun config Admits Grants (some n') w'.st
  /-- Power is lost during an operation. -/
  | lostDuring {w w' : World JStore} {n : Node svc} {s : JStore} (op : NodeOp svc) :
      NodeRun config Admits Grants (some n) w.st → w.Benign → Grants n op → op.run n w = .down w' →
      w'.st.PowerLoss s → NodeRun config Admits Grants none s
  /-- Power is lost between operations. -/
  | lost {s s' : JStore} {n : Node svc} : NodeRun config Admits Grants (some n) s → s.PowerLoss s' →
      NodeRun config Admits Grants none s'

/-- What holds of an open or lost node. -/
def NodeRunInv (Live : List Frame → svc.State → TimerWheel → Prop) : Option (Node svc) → JStore → Prop
  | some n, s => ∃ tip, Node.NInv Live tip n s
  | none, s => Node.NLoss Live s

/-- The empty store. -/
theorem nloss_fresh {Live : List Frame → svc.State → TimerWheel → Prop} :
    Node.NLoss Live ⟨Disk.empty, History.fresh⟩ := by
  refine ⟨jloss_fresh, fun _ f hf => ?_, Or.inr ⟨fun n f hmem => ?_, Or.inl rfl⟩⟩
  · cases hf
  · have hget := mem_filesOf.mp hmem
    rw [Disk.get_empty] at hget
    cases hget

section Run

variable {config : svc.Config} {Admits : NodeConfig → World JStore → Prop} {Grants : Node svc → NodeOp svc → Prop}
  {Live : List Frame → svc.State → TimerWheel → Prop}

/-- What a run has to meet for `Live` to hold all along: either it says nothing, or the codecs are lawful, every
snapshot fits its length field when a node is opened, and every operation is in turn. In the
first case every recovery has to meet a condition of its own. -/
structure Tracked (config : svc.Config) (Admits : NodeConfig → World JStore → Prop)
    (Grants : Node svc → NodeOp svc → Prop) (Live : List Frame → svc.State → TimerWheel → Prop) : Prop where
  tracks : Tracks config Live
  reliable : ∀ {nodeConfig w r u w'}, Admits nodeConfig w → Node.NLoss Live w.st → w.Benign →
    Journal.openWith nodeConfig.journal () w = .ok r u w' → Node.Reliable svc r.journal.lastSeq w.st
  recovers : (∀ past state timers, Live past state timers) ∨
    svc.Codecs ∧ ∀ nodeConfig w, Admits nodeConfig w → w.st.ghost.oversize = false
  grants : ∀ {n op}, Grants n op → op.InTurn n ∨ ∀ past state timers, Live past state timers

/-- A node that was opened. -/
theorem Tracked.opened (h : Tracked config Admits Grants Live) {nodeConfig : NodeConfig} {clock : ℕ → UInt64}
    {w w' : World JStore} {n : Node svc} (hloss : Node.NLoss Live w.st) (hw : w.Benign)
    (hadmits : Admits nodeConfig w) (hrun : Node.openWith nodeConfig config clock () w = .ok n () w') :
    Node.OpenedIn Live nodeConfig config clock () w n w'.st ∧ Node.NInv Live n.seq n (resume w'.st n.seq) := by
  have hsat : (Node.openWith nodeConfig config clock () w).Sat _ _ _ _ :=
    Node.openWith_sat h.tracks hloss hw fun r u w₁ => h.reliable hadmits hloss hw
  rw [hrun] at hsat
  obtain ⟨-, hopened⟩ := hsat
  refine ⟨hopened, ?_⟩
  obtain ⟨r, u, w₁, fromSeq, -, hfound, hsame, htape, hopened⟩ := hopened
  refine ⟨hopened.inv hfound, fun _ => ?_⟩
  have hcut : (resume w'.st n.seq).ghost.tape = w₁.st.ghost.tape.take n.seq := by
    show w'.st.ghost.tape.take n.seq = _
    rw [hopened.seated.tape]
  rcases h.recovers with hany | ⟨hcodecs, hsize⟩
  · exact hany _ _ _
  · rw [hcut]
    exact hopened.live hcodecs (hsame.2.2.trans (hsize _ _ hadmits))

/-- **Run lemma**: the invariant holds in every state of every run. -/
theorem Tracked.run_inv (h : Tracked config Admits Grants Live) {o : Option (Node svc)} {s : JStore}
    (hrun : NodeRun config Admits Grants o s) : NodeRunInv Live o s := by
  have hop : ∀ {tip n s op}, Node.NInv Live tip n s → Grants n op → wp Fate.benign op.run
      (fun _ => Node.NInv Live tip) (fun _ => Node.NInv Live tip) (Node.NCrash Live) n s := fun hinv hgrants =>
    wp_nodeOp benign_no_fault h.tracks _ (h.grants hgrants) hinv
  induction hrun with
  | start => exact nloss_fresh
  | opened nodeConfig clock _ hw hadmits hopen ih => exact ⟨_, (h.opened ih hw hadmits hopen).2⟩
  | refused nodeConfig clock _ hw hadmits hopen hl ih =>
    have hsat : (Node.openWith nodeConfig config clock () _).Sat _ _ _ _ :=
      Node.openWith_sat h.tracks ih hw fun r u w₁ => h.reliable hadmits ih hw
    rw [hopen] at hsat
    exact hsat.2.1.loss hl
  | openingLost nodeConfig clock _ hw hadmits hopen hl ih =>
    have hsat : (Node.openWith nodeConfig config clock () _).Sat _ _ _ _ :=
      Node.openWith_sat h.tracks ih hw fun r u w₁ => h.reliable hadmits ih hw
    rw [hopen] at hsat
    exact Node.NCrash.loss hsat hl
  | done op _ hw hgrants hdone ih =>
    obtain ⟨tip, hinv⟩ := ih
    have hnext := wp_ok (hop hinv hgrants) hw hdone
    exact ⟨tip, hnext⟩
  | failed op _ hw hgrants hfailed ih =>
    obtain ⟨tip, hinv⟩ := ih
    have hnext := wp_err (hop hinv hgrants) hw hfailed
    exact ⟨tip, hnext⟩
  | lostDuring op _ hw hgrants hdown hl ih =>
    obtain ⟨tip, hinv⟩ := ih
    exact (wp_down (hop hinv hgrants) hw hdown).loss hl
  | lost _ hl ih =>
    obtain ⟨tip, hinv⟩ := ih
    exact hinv.store.crash.loss hl

end Run

end Ticktape.Runtime
