import Ticktape.Core.Codec

/-!
# Gateway envelopes

The sequenced types and the client protocol (`ticktape-gateway/src/wire.rs`). Only `GatewayInput`
is journaled, so only its derived codec is needed here: a `u16` discriminant, then the fields.
-/

namespace Ticktape.Gateway

open Ticktape.Lib Ticktape.Core

variable {C E : Type}

/-- What the gateway injects into the sequencer on behalf of clients. -/
inductive GatewayInput (C : Type) where
  /-- An admitted client command, tagged with its session and the client's own number. -/
  | client (session clientSeq : UInt64) (cmd : C)
  /-- The session's connection dropped. -/
  | sessionClosed (session : UInt64)
  deriving DecidableEq, Repr

/-- An output event addressed to the session that must see it. -/
structure Addressed (E : Type) where
  session : UInt64
  event : E
  deriving DecidableEq, Repr

/-- Why the gateway refused a command. -/
inductive RejectReason where
  /-- Retry of an already admitted number. -/
  | duplicate
  /-- The number skipped ahead; resynchronize at `expected`. -/
  | gap (expected : ℕ)
  /-- Window full; retry the same number later. -/
  | throttled
  deriving DecidableEq, Repr

/-- Gateway to client messages. -/
inductive ServerMsg (E : Type) where
  /-- `clientSeq` was sequenced at `seq`. -/
  | ack (clientSeq seq : ℕ)
  /-- An event addressed to this session, with its per-session number. -/
  | event (eventSeq : ℕ) (event : E)
  | rejected (clientSeq : ℕ) (reason : RejectReason)
  deriving DecidableEq, Repr

/-! ## The derived codec of the envelope -/

instance [Encode C] : Encode (GatewayInput C) where
  encode
    | .client session clientSeq cmd =>
      leBytes 2 0 ++ (encode session ++ (encode clientSeq ++ encode cmd))
    | .sessionClosed session => leBytes 2 1 ++ encode session

/-- Decode a discriminant, then the fields of its variant. -/
def decodeInput [Decode C] (buf : Bytes) : Except CodecError (GatewayInput C × Bytes) := do
  let (discriminant, buf) ← take buf 2
  match leNat discriminant with
  | 0 => do
    let (session, buf) ← (decode buf : Except CodecError (UInt64 × Bytes))
    let (clientSeq, buf) ← (decode buf : Except CodecError (UInt64 × Bytes))
    let (cmd, buf) ← (decode buf : Except CodecError (C × Bytes))
    pure (.client session clientSeq cmd, buf)
  | 1 => do
    let (session, buf) ← (decode buf : Except CodecError (UInt64 × Bytes))
    pure (.sessionClosed session, buf)
  | _ => throw (.invalidValue "enum discriminant")

instance [Decode C] : Decode (GatewayInput C) := ⟨decodeInput⟩

instance [Encode C] [Decode C] [LawfulCodec C] : LawfulCodec (GatewayInput C) where
  decode_encode input rest := by
    show decodeInput _ = _
    cases input with
    | client session clientSeq cmd =>
      show decodeInput ((leBytes 2 0 ++ (encode session ++ (encode clientSeq ++ encode cmd))) ++ rest) = _
      simp only [List.append_assoc, decodeInput, take_append _ (leBytes_length 2 0), bind, Except.bind,
        LawfulCodec.decode_encode]
      rfl
    | sessionClosed session =>
      show decodeInput ((leBytes 2 1 ++ encode session) ++ rest) = _
      simp only [List.append_assoc, decodeInput, take_append _ (leBytes_length 2 1), bind, Except.bind,
        LawfulCodec.decode_encode]
      rfl

end Ticktape.Gateway
