import Ticktape.Gateway.Attachment

/-!
# The connection threads

A connection's bytes become requests for the sequencer thread (`read_msg`, `write_msg` in
`ticktape-gateway/src/wire.rs`, `connection_loop` in `ticktape-gateway/src/server.rs`). Whatever bytes a client
sends, they are a list of whole messages and a rest that is none, and the requests are what those messages ask for
(`connection_exact`). Connections that are served so, in any order, send requests only in the order that the sequencer
thread is written for (`Serving.interleaved`).
-/

namespace Ticktape.Gateway

open Std Ticktape.Lib Ticktape.Core Ticktape.Journal Ticktape.Runtime

variable {svc : Service} {T C E : Type}

/-! ## Exact codecs -/

/-- A lawful codec that reads nothing but what it writes. -/
class ExactCodec (α : Type) [Encode α] [Decode α] : Prop extends LawfulCodec α where
  encode_decode {buf rest : Bytes} {v : α} : decode buf = .ok (v, rest) → buf = encode v ++ rest

theorem take_eq_ok {buf a rest : Bytes} {n : ℕ} (h : take buf n = .ok (a, rest)) : buf = a ++ rest ∧ a.length = n := by
  unfold take at h
  split at h
  · cases h
  · obtain ⟨rfl, rfl⟩ := Prod.mk.inj (Except.ok.inj h)
    exact ⟨(List.take_append_drop n buf).symm, List.length_take_of_le (by omega)⟩

/-- A number of the right width is its bytes. -/
theorem eq_leBytes {a : Bytes} {k n : ℕ} (hlen : a.length = k) (h : leNat a = n) : a = leBytes k n := by
  rw [← h, ← hlen, leBytes_leNat]

theorem except_bind_ok {ε α β : Type} {x : Except ε α} {f : α → Except ε β} {b : β} (h : x >>= f = .ok b) :
    ∃ a, x = .ok a ∧ f a = .ok b := by
  cases x with
  | error e => cases h
  | ok a => exact ⟨a, rfl, h⟩

instance : ExactCodec UInt64 where
  encode_decode {buf rest v} h := by
    simp only [decode] at h
    split at h
    · cases h
    next a rest' htake =>
      obtain ⟨rfl, hlen⟩ := take_eq_ok htake
      obtain ⟨rfl, rfl⟩ := Prod.mk.inj (Except.ok.inj h)
      have hv : (UInt64.ofNat (leNat a)).toNat = leNat a := by
        have hlt := leNat_lt a
        rw [hlen] at hlt
        exact UInt64.toNat_ofNat_of_lt' hlt
      show a ++ rest' = leBytes 8 (UInt64.ofNat (leNat a)).toNat ++ rest'
      rw [hv, ← eq_leBytes hlen rfl]

/-- Two fields, read one after the other. -/
theorem encode_two_fields {α β γ : Type} [Encode α] [Decode α] [ExactCodec α] [Encode β] [Decode β] [ExactCodec β]
    {f : α → β → γ} {buf rest : Bytes} {v : γ}
    (h : ((decode buf : Except CodecError (α × Bytes)) >>= fun x =>
      (decode x.2 : Except CodecError (β × Bytes)) >>= fun y => pure (f x.1 y.1, y.2)) = .ok (v, rest)) :
    ∃ a b, v = f a b ∧ buf = encode a ++ (encode b ++ rest) := by
  obtain ⟨⟨a, buf₁⟩, ha, h⟩ := except_bind_ok h
  obtain ⟨⟨b, buf₂⟩, hb, h⟩ := except_bind_ok h
  obtain ⟨rfl, rfl⟩ := Prod.mk.inj (Except.ok.inj h)
  exact ⟨a, b, rfl, by rw [ExactCodec.encode_decode ha, ← ExactCodec.encode_decode hb]⟩

/-! ## The messages of a client -/

/-- Client to gateway messages. -/
inductive ClientMsg (C : Type) where
  /-- First message of a command connection; events after `fromEventSeq` are sent again. -/
  | hello (session fromEventSeq : UInt64)
  /-- First message of an observer. -/
  | dropCopy (session fromEventSeq : UInt64)
  | cmd (clientSeq : UInt64) (cmd : C)
  deriving DecidableEq, Repr

instance [Encode C] : Encode (ClientMsg C) where
  encode
    | .hello session fromEventSeq => leBytes 2 0 ++ (encode session ++ encode fromEventSeq)
    | .dropCopy session fromEventSeq => leBytes 2 1 ++ (encode session ++ encode fromEventSeq)
    | .cmd clientSeq cmd => leBytes 2 2 ++ (encode clientSeq ++ encode cmd)

/-- Decode a discriminant, then the fields of its variant. -/
def decodeClientMsg [Decode C] (buf : Bytes) : Except CodecError (ClientMsg C × Bytes) := do
  let (discriminant, buf) ← take buf 2
  match leNat discriminant with
  | 0 => do
    let (session, buf) ← (decode buf : Except CodecError (UInt64 × Bytes))
    let (fromEventSeq, buf) ← (decode buf : Except CodecError (UInt64 × Bytes))
    pure (.hello session fromEventSeq, buf)
  | 1 => do
    let (session, buf) ← (decode buf : Except CodecError (UInt64 × Bytes))
    let (fromEventSeq, buf) ← (decode buf : Except CodecError (UInt64 × Bytes))
    pure (.dropCopy session fromEventSeq, buf)
  | 2 => do
    let (clientSeq, buf) ← (decode buf : Except CodecError (UInt64 × Bytes))
    let (cmd, buf) ← (decode buf : Except CodecError (C × Bytes))
    pure (.cmd clientSeq cmd, buf)
  | _ => throw (.invalidValue "enum discriminant")

instance [Decode C] : Decode (ClientMsg C) := ⟨decodeClientMsg⟩

instance [Encode C] [Decode C] [LawfulCodec C] : LawfulCodec (ClientMsg C) where
  decode_encode msg rest := by
    show decodeClientMsg _ = _
    cases msg with
    | hello session fromEventSeq =>
      show decodeClientMsg ((leBytes 2 0 ++ (encode session ++ encode fromEventSeq)) ++ rest) = _
      simp only [List.append_assoc, decodeClientMsg, take_append _ (leBytes_length 2 0), bind, Except.bind,
        LawfulCodec.decode_encode]
      rfl
    | dropCopy session fromEventSeq =>
      show decodeClientMsg ((leBytes 2 1 ++ (encode session ++ encode fromEventSeq)) ++ rest) = _
      simp only [List.append_assoc, decodeClientMsg, take_append _ (leBytes_length 2 1), bind, Except.bind,
        LawfulCodec.decode_encode]
      rfl
    | cmd clientSeq cmd =>
      show decodeClientMsg ((leBytes 2 2 ++ (encode clientSeq ++ encode cmd)) ++ rest) = _
      simp only [List.append_assoc, decodeClientMsg, take_append _ (leBytes_length 2 2), bind, Except.bind,
        LawfulCodec.decode_encode]
      rfl

instance [Encode C] [Decode C] [ExactCodec C] : ExactCodec (ClientMsg C) where
  encode_decode {buf rest msg} h := by
    replace h : decodeClientMsg buf = .ok (msg, rest) := h
    obtain ⟨⟨discriminant, buf'⟩, htake, hfields⟩ := except_bind_ok h
    obtain ⟨rfl, hlen⟩ := take_eq_ok htake
    clear h
    dsimp only at hfields
    split at hfields
    next hdisc =>
      obtain ⟨session, fromEventSeq, rfl, rfl⟩ := encode_two_fields hfields
      rw [eq_leBytes hlen hdisc]
      simp only [encode, List.append_assoc]
    next hdisc =>
      obtain ⟨session, fromEventSeq, rfl, rfl⟩ := encode_two_fields hfields
      rw [eq_leBytes hlen hdisc]
      simp only [encode, List.append_assoc]
    next hdisc =>
      obtain ⟨clientSeq, cmd, rfl, rfl⟩ := encode_two_fields hfields
      rw [eq_leBytes hlen hdisc]
      simp only [encode, List.append_assoc]
    next => cases hfields

/-! ## Messages on a stream -/

/-- The longest message a reader takes. -/
def MAX_MESSAGE : ℕ := 16 * 1024 * 1024

/-- Why a message could not be read. -/
inductive ReadError where
  /-- The stream ends inside the message. -/
  | unexpectedEof
  /-- `"message too large"`. -/
  | tooLarge
  | codec (e : CodecError)
  deriving DecidableEq, Repr

/-- Write one message behind its length, which is cut to 32 bits. -/
def writeMsg [Encode T] (msg : T) : Bytes := leBytes 4 (encode msg).length ++ encode msg

/-- Read one message; `none` at the end of the stream, also when it ends inside a length. -/
def readMsg [Decode T] (r : Bytes) : Except ReadError (Option (T × Bytes)) :=
  if r.length < 4 then .ok none
  else if leNat (r.take 4) > MAX_MESSAGE then .error .tooLarge
  else if (r.drop 4).length < leNat (r.take 4) then .error .unexpectedEof
  else match decodeAll ((r.drop 4).take (leNat (r.take 4))) with
    | .ok msg => .ok (some (msg, (r.drop 4).drop (leNat (r.take 4))))
    | .error e => .error (.codec e)

/-- Reading a message makes the stream shorter. -/
theorem readMsg_shortens [Decode T] {r rest : Bytes} {msg : T} (h : readMsg r = .ok (some (msg, rest))) :
    rest.length < r.length := by
  unfold readMsg at h
  split at h
  · cases h
  split at h
  · cases h
  split at h
  · cases h
  split at h
  next hlong _ _ _ _ =>
    obtain ⟨rfl, rfl⟩ := Prod.mk.inj (Option.some.inj (Except.ok.inj h))
    rw [List.length_drop, List.length_drop]
    omega
  · cases h

section Message

variable [Encode T] [Decode T] {r rest : Bytes} {msg : T}

/-- **A message reads back**, unless it is too large. -/
theorem readMsg_writeMsg [LawfulCodec T] (msg : T) (rest : Bytes) (hlen : (encode msg).length ≤ MAX_MESSAGE) :
    readMsg (writeMsg msg ++ rest) = .ok (some (msg, rest)) := by
  have hlt : (encode msg).length < 256 ^ 4 := Nat.lt_of_le_of_lt hlen (by decide)
  have hr : writeMsg msg ++ rest = leBytes 4 (encode msg).length ++ (encode msg ++ rest) := List.append_assoc ..
  have htake : (writeMsg msg ++ rest).take 4 = leBytes 4 (encode msg).length := by
    rw [hr, List.take_left' (leBytes_length 4 _)]
  have hdrop : (writeMsg msg ++ rest).drop 4 = encode msg ++ rest := by
    rw [hr, List.drop_left' (leBytes_length 4 _)]
  have hlong : ¬(writeMsg msg ++ rest).length < 4 := by
    rw [hr, List.length_append, leBytes_length]
    omega
  rw [readMsg, if_neg hlong, htake, hdrop, leNat_leBytes_of_lt hlt, if_neg (Nat.not_lt.mpr hlen),
    if_neg (by rw [List.length_append]; omega), List.take_left, List.drop_left, decodeAll_encode]

/-- **What reads as a message is one.** -/
theorem eq_of_readMsg [ExactCodec T] (h : readMsg r = .ok (some (msg, rest))) :
    r = writeMsg msg ++ rest ∧ (encode msg).length ≤ MAX_MESSAGE := by
  unfold readMsg at h
  split at h
  · cases h
  next hlong =>
  split at h
  · cases h
  next hlarge =>
  split at h
  · cases h
  next hwhole =>
  split at h
  next msg' hdecode =>
    obtain ⟨rfl, rfl⟩ := Prod.mk.inj (Option.some.inj (Except.ok.inj h))
    have hbody : (r.drop 4).take (leNat (r.take 4)) = encode msg' := by
      unfold decodeAll at hdecode
      split at hdecode
      · cases hdecode
      next v rest' hd =>
        split at hdecode
        next hrest =>
          obtain rfl := Except.ok.inj hdecode
          have heq := ExactCodec.encode_decode hd
          rwa [hrest, List.append_nil] at heq
        · cases hdecode
    have hlen : (encode msg').length = leNat (r.take 4) := by
      rw [← hbody, List.length_take, Nat.min_eq_left (by omega)]
    have hheader : leBytes 4 (leNat (r.take 4)) = r.take 4 := by
      refine (eq_leBytes ?_ rfl).symm
      rw [List.length_take]
      omega
    refine ⟨?_, by omega⟩
    rw [writeMsg, hlen, hheader, ← hbody, List.append_assoc, List.take_append_drop, List.take_append_drop]
  · cases h

end Message

/-- Read messages until there is none, and the rest. -/
def readMsgs (T : Type) [Decode T] (r : Bytes) : List T × Bytes :=
  match _hread : (readMsg r : Except ReadError (Option (T × Bytes))) with
  | .ok (some (msg, rest)) => (msg :: (readMsgs T rest).1, (readMsgs T rest).2)
  | _ => ([], r)
termination_by r.length
decreasing_by all_goals exact readMsg_shortens _hread

section Messages

variable [Encode T] [Decode T] {r tail : Bytes} {msgs : List T}

/-- No message stands first. -/
def Ended (T : Type) [Decode T] (tail : Bytes) : Prop :=
  ∀ (msg : T) (rest : Bytes), readMsg tail ≠ .ok (some (msg, rest))

/-- A stream of whole messages and a rest that is none. -/
structure Carries (r : Bytes) (msgs : List T) (tail : Bytes) : Prop where
  bytes : r = msgs.flatMap writeMsg ++ tail
  small : ∀ msg ∈ msgs, (encode msg).length ≤ MAX_MESSAGE
  ended : Ended T tail

/-- **A reader gets the messages that the stream carries.** -/
theorem Carries.readMsgs [LawfulCodec T] (h : Carries r msgs tail) : readMsgs T r = (msgs, tail) := by
  obtain ⟨rfl, hsmall, hended⟩ := h
  induction msgs with
  | nil =>
    rw [List.flatMap_nil, List.nil_append, Gateway.readMsgs]
    split
    next msg rest hread => exact absurd hread (hended msg rest)
    · rfl
  | cons msg msgs ih =>
    have hread := readMsg_writeMsg msg (msgs.flatMap writeMsg ++ tail) (hsmall msg (List.mem_cons_self ..))
    have hrest := ih fun m hm => hsmall m (List.mem_cons_of_mem _ hm)
    rw [List.flatMap_cons, List.append_assoc, Gateway.readMsgs]
    split
    next msg' rest hread' =>
      obtain ⟨rfl, rfl⟩ := Prod.mk.inj (Option.some.inj (Except.ok.inj (hread.symm.trans hread')))
      rw [hrest]
    next hnone => exact absurd hread (hnone _ _)

/-- **Every stream carries messages**, those that a reader gets. -/
theorem carries_readMsgs [ExactCodec T] (r : Bytes) : Carries r (readMsgs T r).1 (readMsgs T r).2 := by
  induction r using readMsgs.induct (T := T) with
  | case1 r msg rest hread ih =>
    obtain ⟨heq, hlen⟩ := eq_of_readMsg hread
    have hstep : readMsgs T r = (msg :: (readMsgs T rest).1, (readMsgs T rest).2) := by
      rw [readMsgs]
      split
      next msg' rest' hread' =>
        obtain ⟨rfl, rfl⟩ := Prod.mk.inj (Option.some.inj (Except.ok.inj (hread.symm.trans hread')))
        rfl
      next hnone => exact absurd hread (hnone msg rest)
    rw [hstep]
    refine ⟨?_, fun m hm => ?_, ih.ended⟩
    · rw [List.flatMap_cons, List.append_assoc, ← ih.bytes]
      exact heq
    · rcases List.mem_cons.mp hm with rfl | hm
      · exact hlen
      · exact ih.small m hm
  | case2 r hnone =>
    have hstep : readMsgs T r = ([], r) := by
      rw [readMsgs]
      split
      next msg rest hread => exact absurd hread (hnone msg rest)
      · rfl
    rw [hstep]
    exact ⟨rfl, fun m hm => (by cases hm), hnone⟩

end Messages

/-! ## The thread of a connection -/

/-- What a command connection asks for behind its first message: commands, until the stream ends or breaks or
another message comes. -/
def commandLoop [Decode C] (session : UInt64) (r : Bytes) : List (Req C) :=
  match _hread : (readMsg r : Except ReadError (Option (ClientMsg C × Bytes))) with
  | .ok (some (.cmd clientSeq cmd, rest)) => .cmd session clientSeq cmd :: commandLoop session rest
  | _ => [.close session]
termination_by r.length
decreasing_by exact readMsg_shortens _hread

/-- What a connection asks for; an observer only listens. -/
def connectionLoop [Decode C] (sink : Sink) (r : Bytes) : List (Req C) :=
  match (readMsg r : Except ReadError (Option (ClientMsg C × Bytes))) with
  | .ok (some (.hello session fromEventSeq, rest)) =>
    .attach session fromEventSeq.toNat sink :: commandLoop session rest
  | .ok (some (.dropCopy session fromEventSeq, _)) => [.watch session fromEventSeq.toNat sink]
  | _ => []

/-- What messages behind the first one ask for. -/
def commands (session : UInt64) : List (ClientMsg C) → List (Req C)
  | .cmd clientSeq cmd :: msgs => .cmd session clientSeq cmd :: commands session msgs
  | _ => [.close session]

/-- What the messages of a connection ask for. -/
def asks (sink : Sink) : List (ClientMsg C) → List (Req C)
  | .hello session fromEventSeq :: msgs => .attach session fromEventSeq.toNat sink :: commands session msgs
  | .dropCopy session fromEventSeq :: _ => [.watch session fromEventSeq.toNat sink]
  | _ => []

section Connection

variable [Encode C] [Decode C] {r tail : Bytes} {msgs : List (ClientMsg C)}

theorem commandLoop_eq [LawfulCodec C] (session : UInt64) (h : Carries r msgs tail) :
    commandLoop session r = commands session msgs := by
  obtain ⟨rfl, hsmall, hended⟩ := h
  induction msgs with
  | nil =>
    rw [List.flatMap_nil, List.nil_append, commandLoop]
    split
    next clientSeq cmd rest hread => exact absurd hread (hended _ rest)
    · rfl
  | cons msg msgs ih =>
    have hread := readMsg_writeMsg msg (msgs.flatMap writeMsg ++ tail) (hsmall msg (List.mem_cons_self ..))
    have hrest := ih fun m hm => hsmall m (List.mem_cons_of_mem _ hm)
    rw [List.flatMap_cons, List.append_assoc, commandLoop]
    split
    next clientSeq cmd rest hread' =>
      obtain ⟨rfl, rfl⟩ := Prod.mk.inj (Option.some.inj (Except.ok.inj (hread.symm.trans hread')))
      rw [hrest, commands]
    next hnone =>
      cases msg with
      | cmd clientSeq cmd => exact absurd hread (hnone _ _ _)
      | hello session' fromEventSeq => rfl
      | dropCopy session' fromEventSeq => rfl

/-- A connection asks for what the messages that it carries ask for. -/
theorem connectionLoop_eq [LawfulCodec C] (sink : Sink) (h : Carries r msgs tail) :
    connectionLoop sink r = asks sink msgs := by
  obtain ⟨rfl, hsmall, hended⟩ := h
  cases msgs with
  | nil =>
    rw [List.flatMap_nil, List.nil_append, connectionLoop]
    split
    next session fromEventSeq rest hread => exact absurd hread (hended _ rest)
    next session fromEventSeq rest hread => exact absurd hread (hended _ rest)
    · rfl
  | cons msg msgs =>
    have hread := readMsg_writeMsg msg (msgs.flatMap writeMsg ++ tail) (hsmall msg (List.mem_cons_self ..))
    have hrest : Carries (msgs.flatMap writeMsg ++ tail) msgs tail :=
      ⟨rfl, fun m hm => hsmall m (List.mem_cons_of_mem _ hm), hended⟩
    rw [List.flatMap_cons, List.append_assoc, connectionLoop, hread]
    cases msg with
    | hello session fromEventSeq =>
      simp only [asks]
      rw [commandLoop_eq session hrest]
    | dropCopy session fromEventSeq => rfl
    | cmd clientSeq cmd => rfl

/-- **Connections are exact.** Any bytes that reach a connection are whole messages of a client, none over 16 MiB, and
a rest at whose front no message stands, in one way only; and the connection asks for exactly what those messages ask
for: nothing, or to watch, or to attach, then its commands in order, then one close. -/
theorem connection_exact [ExactCodec C] (sink : Sink) (r : Bytes) :
    ∃ msgs : List (ClientMsg C), ∃ tail, Carries r msgs tail ∧ connectionLoop sink r = asks sink msgs ∧
      ∀ (msgs' : List (ClientMsg C)) tail', Carries r msgs' tail' → msgs' = msgs ∧ tail' = tail := by
  have hcarries := carries_readMsgs (T := ClientMsg C) r
  refine ⟨_, _, hcarries, connectionLoop_eq sink hcarries, fun msgs' tail' h' => ?_⟩
  rw [h'.readMsgs]
  exact ⟨rfl, rfl⟩

end Connection

/-- Connection 1 says hello for session 7, sends a command, and breaks inside a length; nobody else connects. -/
def helloAndCommand (conn : Sink) : Bytes :=
  if conn = 1 then [ClientMsg.hello 7 0, ClientMsg.cmd 1 (9 : UInt64)].flatMap writeMsg ++ [0, 0] else []

theorem carries_helloAndCommand :
    Carries (helloAndCommand 1) [ClientMsg.hello 7 0, ClientMsg.cmd 1 (9 : UInt64)] [0, 0] := by
  refine ⟨rfl, by decide, fun msg rest h => ?_⟩
  cases h

/-- It attaches, asks for its command, and closes. -/
theorem connection_exact_of_hello :
    connectionLoop 1 (helloAndCommand 1) = [.attach 7 0 1, .cmd 7 1 (9 : UInt64), .close 7] := by
  obtain ⟨msgs, tail, -, hasks, honly⟩ := connection_exact (C := UInt64) 1 (helloAndCommand 1)
  obtain ⟨rfl, rfl⟩ := honly _ _ carries_helloAndCommand
  exact hasks

/-! ## Connections and the sequencer thread -/

/-- The requests of a connection that were served, in order. -/
def sentBy (conn : Sink) (trace : List (Served C)) : List (Req C) := (trace.filter (·.conn = conn)).map (·.req)

/-- The runs of the sequencer thread on the requests of connection threads. What reaches a connection is `stream`, and
each request that is served is the next one of its connection. -/
inductive Serving [Decode C] (aware : SessionAware svc C E) (config : ServeConfig) (up : ℕ → Bool)
    (stream : Sink → Bytes) : Sequencer svc E → List (Served C) → Prop where
  | start {node : Node svc} {g : Sequencer svc E} :
      Sequencer.start node config up = some g → Serving aware config up stream g []
  | served {w w' : World JStore} {g g' : Sequencer svc E} {trace : List (Served C)} {failed : Option NodeError}
      (fuel : ℕ) (conn : Sink) (req : Req C) : Serving aware config up stream g trace →
      sentBy conn trace ++ [req] <+: connectionLoop conn (stream conn) →
      Sequencer.serve aware fuel req g w = .ok failed g' w' →
      Serving aware config up stream g' (trace ++ [⟨conn, req, failed⟩])

section Serving

variable {conn : Sink} {trace : List (Served C)} {done : List (Req C)} {req : Req C}

theorem mem_sentBy : req ∈ sentBy conn trace ↔ ∃ x ∈ trace, x.conn = conn ∧ x.req = req := by
  simp only [sentBy, List.mem_map, List.mem_filter, decide_eq_true_eq, and_assoc]

theorem sentBy_nil (h : sentBy conn trace = []) : conn ∉ trace.map (·.conn) := by
  intro hmem
  obtain ⟨x, hx, hconn⟩ := List.mem_map.mp hmem
  have hreq : x.req ∈ sentBy conn trace := mem_sentBy.mpr ⟨x, hx, hconn, rfl⟩
  rw [h] at hreq
  cases hreq

theorem sentBy_concat (x : Served C) :
    sentBy conn (trace ++ [x]) = if x.conn = conn then sentBy conn trace ++ [x.req] else sentBy conn trace := by
  by_cases h : x.conn = conn <;> simp [sentBy, h]

/-- Behind the first message come commands of the session, and then its close. -/
theorem prefix_commands {session : UInt64} {msgs : List (ClientMsg C)} (h : done ++ [req] <+: commands session msgs) :
    (∀ x ∈ done, ∃ clientSeq cmd, x = .cmd session clientSeq cmd) ∧
      (req = .close session ∨ ∃ clientSeq cmd, req = .cmd session clientSeq cmd) := by
  induction msgs generalizing done with
  | nil =>
    cases done with
    | nil => exact ⟨fun x hx => (by cases hx), .inl (List.cons_prefix_cons.mp h).1⟩
    | cons x done =>
      have hrest := (List.cons_prefix_cons.mp h).2
      exact absurd (List.prefix_nil.mp hrest) (by simp)
  | cons msg msgs ih =>
    cases msg with
    | cmd clientSeq cmd =>
      cases done with
      | nil => exact ⟨fun x hx => (by cases hx), .inr ⟨clientSeq, cmd, (List.cons_prefix_cons.mp h).1⟩⟩
      | cons x done =>
        obtain ⟨rfl, hrest⟩ := List.cons_prefix_cons.mp h
        obtain ⟨hdone, hreq⟩ := ih hrest
        refine ⟨fun y hy => ?_, hreq⟩
        rcases List.mem_cons.mp hy with rfl | hy
        · exact ⟨clientSeq, cmd, rfl⟩
        · exact hdone y hy
    | hello session' fromEventSeq =>
      cases done with
      | nil => exact ⟨fun x hx => (by cases hx), .inl (List.cons_prefix_cons.mp h).1⟩
      | cons x done =>
        have hrest := (List.cons_prefix_cons.mp h).2
        exact absurd (List.prefix_nil.mp hrest) (by simp)
    | dropCopy session' fromEventSeq =>
      cases done with
      | nil => exact ⟨fun x hx => (by cases hx), .inl (List.cons_prefix_cons.mp h).1⟩
      | cons x done =>
        have hrest := (List.cons_prefix_cons.mp h).2
        exact absurd (List.prefix_nil.mp hrest) (by simp)

/-- **Step lemma**: the next request of a connection continues what it sent. -/
theorem continues_of_next {msgs : List (ClientMsg C)} (h : sentBy conn trace ++ [req] <+: asks conn msgs) :
    Continues trace conn req := by
  generalize hdone : sentBy conn trace = done at h
  match msgs, h with
  | .hello session fromEventSeq :: msgs, h =>
    cases done with
    | nil =>
      obtain rfl := (List.cons_prefix_cons.mp h).1
      exact ⟨rfl, sentBy_nil hdone⟩
    | cons x done =>
      obtain ⟨rfl, hrest⟩ := List.cons_prefix_cons.mp h
      obtain ⟨hcmds, hreq⟩ := prefix_commands hrest
      have hopen : Open trace conn session := by
        constructor
        · obtain ⟨x, hx, hconn, hattach⟩ := mem_sentBy.mp (hdone ▸ List.mem_cons_self ..)
          exact ⟨x, hx, hconn, by rw [hattach]; rfl⟩
        · intro x hx hconn hcloses
          have hmem : x.req ∈ sentBy conn trace := mem_sentBy.mpr ⟨x, hx, hconn, rfl⟩
          rw [hdone] at hmem
          rcases List.mem_cons.mp hmem with hattach | hcmd
          · rw [hattach] at hcloses
            exact hcloses
          · obtain ⟨clientSeq, cmd, heq⟩ := hcmds _ hcmd
            rw [heq] at hcloses
            exact hcloses
      rcases hreq with rfl | ⟨clientSeq, cmd, rfl⟩
      · exact hopen
      · exact hopen
  | .dropCopy session fromEventSeq :: msgs, h =>
    cases done with
    | nil =>
      obtain rfl := (List.cons_prefix_cons.mp h).1
      exact ⟨rfl, sentBy_nil hdone⟩
    | cons x done =>
      have hrest := (List.cons_prefix_cons.mp h).2
      exact absurd (List.prefix_nil.mp hrest) (by simp)
  | .cmd clientSeq cmd :: msgs, h => exact absurd (List.prefix_nil.mp h) (by simp)
  | [], h => exact absurd (List.prefix_nil.mp h) (by simp)

variable [Encode C] [Decode C] [ExactCodec C] {aware : SessionAware svc C E} {config : ServeConfig} {up : ℕ → Bool}
  {stream : Sink → Bytes} {g : Sequencer svc E}

/-- **Any clients on any connections send requests in an order the sequencer thread is written for**: every run on the
bytes of any connections is one in which each connection attaches or watches first, with a channel of its own, and goes
on with commands of its session and one close; and what is served of a connection is what its messages ask for, in
their order, as far as it got. -/
theorem serving_interleaved (h : Serving aware config up stream g trace) :
    Interleaved aware config up g trace ∧
      ∀ conn, sentBy conn trace <+: asks conn (readMsgs (ClientMsg C) (stream conn)).1 := by
  have hasks : ∀ conn, connectionLoop conn (stream conn) = asks conn (readMsgs (ClientMsg C) (stream conn)).1 :=
    fun conn => connectionLoop_eq conn (carries_readMsgs (stream conn))
  induction h with
  | start hstart => exact ⟨.start hstart, fun conn => List.nil_prefix⟩
  | served fuel conn req _ hnext hserve ih =>
    rw [hasks] at hnext
    refine ⟨.served fuel conn req ih.1 (continues_of_next hnext) hserve, fun conn' => ?_⟩
    rw [sentBy_concat]
    split
    next heq =>
      dsimp only at heq
      subst heq
      exact hnext
    · exact ih.2 conn'

end Serving

theorem Serving.oneCommand {g : Sequencer echo UInt64} {w : World JStore}
    {served : Option NodeError × Sequencer echo UInt64 × World JStore}
    (h : Gateway.oneCommand 1 = some ((g, w), served)) :
    Serving echoAware {} (fun _ => true) helloAndCommand served.2.1
      [⟨1, .attach 7 0 1, none⟩, ⟨1, .cmd 7 1 9, served.1⟩] := by
  simp only [Gateway.oneCommand, bind, Option.bind_eq_some_iff] at h
  obtain ⟨⟨node, _, w₀⟩, -, g₀, hstart, ⟨attached, g₁, w₁⟩, hattach, ⟨r, g₂, w₂⟩, hcmd, h⟩ := h
  obtain ⟨⟨-, hattached⟩, heq⟩ := Option.ite_none_right_eq_some.mp h
  cases heq
  rw [Outcome.returned_eq_some] at hattach hcmd
  obtain rfl := Option.isNone_iff_eq_none.mp hattached
  have hasks : connectionLoop 1 (helloAndCommand 1) = [.attach 7 0 1, .cmd 7 1 (9 : UInt64), .close 7] :=
    connectionLoop_eq 1 carries_helloAndCommand
  have hfirst : Serving echoAware {} (fun _ => true) helloAndCommand g₁ [⟨1, .attach 7 0 1, none⟩] :=
    (Serving.start hstart).served 4 1 (.attach 7 0 1) (by rw [hasks]; exact ⟨_, rfl⟩) hattach
  exact hfirst.served 4 1 (.cmd 7 1 9) (by rw [hasks]; exact ⟨_, rfl⟩) hcmd

/-- What is served of connection 1 is its attach and its command. -/
theorem serving_interleaved_of_hello : ∃ g : Sequencer echo UInt64,
    Interleaved echoAware {} (fun _ => true) g [⟨1, .attach 7 0 1, none⟩, ⟨1, .cmd 7 1 9, none⟩] := by
  have hrun : (oneCommand 1).any (fun p => decide (p.2.1 = none)) = true := by decide +kernel
  obtain ⟨⟨⟨g, w⟩, failed, g', w'⟩, hrun, hend⟩ := (Option.any_eq_true _ _).mp hrun
  obtain rfl := of_decide_eq_true hend
  exact ⟨g', (serving_interleaved (Serving.oneCommand hrun)).1⟩

end Ticktape.Gateway
