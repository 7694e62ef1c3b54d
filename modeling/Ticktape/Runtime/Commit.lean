import Ticktape.Journal.Journal
import Ticktape.Lib.Quorum

/-!
# Quorum commit

The leader's view of quorum commit (`CommitState` in `ticktape-runtime/src/lib.rs`): what each
replica holds, the outputs withheld, and the watermark below which they were released.
-/

namespace Ticktape.Runtime

open Ticktape.Lib Ticktape.Core Ticktape.Journal Std

/-- Tier-2 quorum-commit configuration. -/
structure CommitConfig where
  /-- Total voters, this leader included. -/
  voters : ℕ
  selfReplica : UInt32

/-- Which replica holds what, the outputs withheld, and the highest seq released. -/
structure CommitState (ο : Type) where
  voters : ℕ
  selfReplica : UInt32
  highWaters : ExtTreeMap UInt32 ℕ
  pending : ExtTreeMap ℕ (List ο)
  committed : ℕ

namespace CommitState

variable {ο : Type}

/-- The leader holds everything up to its recovered tip. -/
def new (config : CommitConfig) (selfSeq : ℕ) : CommitState ο where
  voters := config.voters
  selfReplica := config.selfReplica
  highWaters := (∅ : ExtTreeMap UInt32 ℕ).insert config.selfReplica selfSeq
  pending := ∅
  committed := selfSeq

/-- `replica` has journaled everything up to `seq`; stale reports change nothing. -/
def record (state : CommitState ο) (replica : UInt32) (seq : ℕ) : CommitState ο :=
  { state with
    highWaters := state.highWaters.insert replica (max (state.highWaters[replica]?.getD 0) seq) }

/-- The majority-th highest high-water. -/
def watermark (state : CommitState ο) : ℕ := kthHighest state.highWaters (state.voters / 2 + 1)

/-- Advance to the watermark and take out every pending entry at or below it, in seq order. -/
def drainCommitted {σ ε : Type} : Prog (CommitState ο) σ ε (List (ℕ × List ο)) := do
  let state ← Prog.mem
  if state.watermark ≤ state.committed then pure []
  else do
    let next ← nextSeq state.watermark
    Prog.update fun state => { state with
      committed := state.watermark
      pending := state.pending.filter fun seq _ => next ≤ seq }
    pure (state.pending.toList.filter (·.1 < next))

end CommitState

end Ticktape.Runtime
