import Ticktape.Core.Codec

/-!
# Services

The application contract (`ticktape-core/src/service.rs`). A step of a service is a function of
its state, the input and the sequenced context; what it emits and schedules through `Ctx` is part
of its result.
-/

namespace Ticktape.Core

open Ticktape.Lib

/-- A timer scheduling request recorded during a step. -/
inductive TimerReq where
  /-- Arm (or re-arm) timer `id` to fire when sequenced time reaches `deadline`. -/
  | set (id deadline : UInt64)
  | cancel (id : UInt64)
  deriving DecidableEq, Repr

/-- What a step can read of its context: the seq and the timestamp of the frame. -/
structure Ctx where
  seq : ℕ
  now : UInt64

/-- What one step leaves: the new state, the outputs it emitted and the timer requests it made,
in order. -/
structure Step (σ ο : Type) where
  state : σ
  outputs : List ο
  timers : List TimerReq

/-- A replicated state machine. -/
structure Service where
  State : Type
  Input : Type
  Output : Type
  Snapshot : Type
  Config : Type
  [encodeInput : Encode Input]
  [decodeInput : Decode Input]
  [encodeSnapshot : Encode Snapshot]
  [decodeSnapshot : Decode Snapshot]
  SCHEMA_VERSION : UInt32
  genesis : Config → State
  apply : State → ℕ → Input → Ctx → Step State Output
  onTimer : State → UInt64 → Ctx → Step State Output
  snapshot : State → Snapshot
  restore : Snapshot → Config → State

attribute [instance] Service.encodeInput Service.decodeInput Service.encodeSnapshot
  Service.decodeSnapshot

/-- The codec half of the contract: what is encoded decodes to itself. -/
structure Service.Codecs (svc : Service) : Prop where
  input : LawfulCodec svc.Input
  snapshot : LawfulCodec svc.Snapshot

/-- Two states behave alike: equal outputs, timers and snapshots, now and after every step. -/
structure Service.Bisimulation (svc : Service) (R : svc.State → svc.State → Prop) : Prop where
  apply : ∀ {x y}, R x y → ∀ seq input ctx, R (svc.apply x seq input ctx).state
    (svc.apply y seq input ctx).state ∧
    (svc.apply x seq input ctx).outputs = (svc.apply y seq input ctx).outputs ∧
    (svc.apply x seq input ctx).timers = (svc.apply y seq input ctx).timers
  onTimer : ∀ {x y}, R x y → ∀ id ctx, R (svc.onTimer x id ctx).state (svc.onTimer y id ctx).state ∧
    (svc.onTimer x id ctx).outputs = (svc.onTimer y id ctx).outputs ∧
    (svc.onTimer x id ctx).timers = (svc.onTimer y id ctx).timers
  snapshot : ∀ {x y}, R x y → svc.snapshot x = svc.snapshot y

/-- **The snapshot contract**: restoring a snapshot of a state gives one that behaves like it. `R`
is the application's notion of behaving alike; it need not relate a state that is never reached
even to itself. -/
structure Service.Lawful (svc : Service) (config : svc.Config)
    (R : svc.State → svc.State → Prop) : Prop extends svc.Codecs where
  symm : ∀ {x y}, R x y → R y x
  trans : ∀ {x y z}, R x y → R y z → R x z
  genesis : R (svc.genesis config) (svc.genesis config)
  bisim : svc.Bisimulation R
  restore : ∀ {x}, R x x → R (svc.restore (svc.snapshot x) config) x

/-- A small service for runs on fixed inputs: an input is added to a total and arms a timer that is
due at once; the timer doubles the total. -/
def doubler : Service where
  State := UInt64
  Input := UInt64
  Output := UInt64
  Snapshot := UInt64
  Config := Unit
  SCHEMA_VERSION := 1
  genesis _ := 0
  apply total _ input ctx := ⟨total + input, [total + input], [.set 1 ctx.now]⟩
  onTimer total _ _ := ⟨2 * total, [2 * total], []⟩
  snapshot total := total
  restore total _ := total

theorem doubler_codecs : doubler.Codecs :=
  ⟨inferInstanceAs (LawfulCodec UInt64), inferInstanceAs (LawfulCodec UInt64)⟩

/-- Its states behave alike exactly when they are equal. -/
theorem doubler_lawful : doubler.Lawful () Eq where
  toCodecs := doubler_codecs
  symm := Eq.symm
  trans := Eq.trans
  genesis := rfl
  bisim := ⟨fun h _ _ _ => h ▸ ⟨rfl, rfl, rfl⟩, fun h _ _ => h ▸ ⟨rfl, rfl, rfl⟩, fun h => h ▸ rfl⟩
  restore := fun _ => rfl

end Ticktape.Core
