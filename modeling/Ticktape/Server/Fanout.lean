import Ticktape.Journal.Layout
import Ticktape.Server.Pump
import Ticktape.Transport.Follower
import Ticktape.Transport.Delivery
import Ticktape.Transport.Packing

/-!
# One leader and its followers

A leader that started on an empty directory sends every frame it publishes to the feed of every follower, one datagram
each (`Server::submit` and `publish_to_all` in `ticktape-server/src/lib.rs`). The network loses, repeats and reorders
datagrams as it likes, sockets fail, gaps are filled from what was published, and followers are started again on their
journals. Whatever happens, a follower holds a prefix of what was published and computes what the leader computed there.
-/

namespace Ticktape.Transport.Publisher

open Ticktape.Lib Ticktape.Core

variable {Addr : Type}

/-- Send one frame to a single explicit destination. -/
def publishTo (sendTo : Addr → Bytes → Bool) (p : Publisher Addr) (frame : Frame) (dest : Addr) :
    List Bytes × Publisher Addr × Published :=
  match addU64 frame.seq 1 with
  | none => ([], p, .panic)
  | some nextSeq =>
    let p := { p with nextSeq := nextSeq }
    match encodeData p.session [frame] with
    | none => ([], p, .panic)
    | some buf => ([buf], p, if sendTo dest buf then .done else .io)

/-- The packet that announces the next seq. -/
def heartbeat (p : Publisher Addr) : Option Bytes := (Packet.heartbeat p.session p.nextSeq).encode

end Ticktape.Transport.Publisher

namespace Ticktape.Server

open Ticktape.Lib Ticktape.Core Ticktape.Journal Ticktape.Transport Ticktape.Cluster Ticktape.Runtime

variable {svc : Service} {Addr ι : Type}

/-! ## Sending -/

/-- Send a frame to every follower feed. -/
def publishToAll (sendTo : Addr → Bytes → Bool) (frame : Frame) :
    List Addr → Publisher Addr → List Bytes × Publisher Addr × Published
  | [], p => ([], p, .done)
  | dest :: rest, p =>
    match p.publishTo sendTo frame dest with
    | (packets, p, .done) =>
      let more := publishToAll sendTo frame rest p
      (packets ++ more.1, more.2.1, more.2.2)
    | failed => failed

/-- What draining the node's stream did: the datagrams encoded, the publisher, the frames left in the stream, and how
it ended. -/
structure Drained (Addr : Type) where
  packets : List Bytes
  publisher : Publisher Addr
  left : List Frame
  fin : Published

/-- Fan out the frames in the stream, until the socket refuses one. -/
def drainStream (sendTo : Addr → Bytes → Bool) (peers : List Addr) : List Frame → Publisher Addr → Drained Addr
  | [], p => ⟨[], p, [], .done⟩
  | frame :: rest, p =>
    match publishToAll sendTo frame peers p with
    | (packets, p, .done) =>
      let more := drainStream sendTo peers rest p
      { more with packets := packets ++ more.packets }
    | (packets, p, fin) => ⟨packets, p, rest, fin⟩

/-! ## Runs -/

/-- A leader, its feed, and the followers. -/
structure Fanout (svc : Service) (Addr ι : Type) where
  leader : Node svc
  publisher : Publisher Addr
  /-- What the leader published and did not drain yet. -/
  stream : List Frame
  /-- Every datagram that was ever sent. -/
  wire : List Bytes
  follower : ι → Follower svc

/-- A call of the leader. -/
inductive Leads : Node svc → Node svc → Prop where
  | submit {n n' : Node svc} {w w' : World JStore} {result : ℕ × List svc.Output} (fuel : ℕ) (input : svc.Input) :
      Node.submit fuel input n w = .ok result n' w' → Leads n n'
  | tick {n n' : Node svc} {w w' : World JStore} {seq : ℕ} (fuel : ℕ) :
      Node.tick fuel n w = .ok seq n' w' → Leads n n'
  | fence {n n' : Node svc} {w w' : World JStore} {seq : ℕ} (epoch : UInt64) :
      Node.fence epoch n w = .ok seq n' w' → Leads n n'

/-- What a follower may find: a datagram from the wire or a socket error, and replies with frames that were
published. -/
def Round.From (c : Fanout svc Addr ι) (round : Round) : Prop :=
  (∀ packet, round.datagram = some (.ok packet) → ∃ b ∈ c.wire, Packet.decode b = some (.ok packet)) ∧
    ∀ packet ∈ round.replies, ∃ frames, packet = .data c.publisher.session frames ∧
      ∀ f ∈ frames, f ∈ publishedFrames c.leader

namespace Fanout

variable [DecidableEq ι] {config : svc.Config} {peers : List Addr}

/-- One step. A call of the leader and the draining after it are one step. -/
inductive Step (config : svc.Config) (peers : List Addr) : Fanout svc Addr ι → Fanout svc Addr ι → Prop where
  | led {c : Fanout svc Addr ι} {n' : Node svc} (sendTo : Addr → Bytes → Bool) (d : Drained Addr) :
      Leads c.leader n' →
      drainStream sendTo peers (c.stream ++ (publishedFrames n').drop (publishedFrames c.leader).length) c.publisher = d →
      d.fin ≠ .panic →
      Step config peers c
        { c with leader := n', publisher := d.publisher, stream := d.left, wire := c.wire ++ d.packets }
  | heartbeat {c : Fanout svc Addr ι} {buf : Bytes} :
      c.publisher.heartbeat = some buf → Step config peers c { c with wire := c.wire ++ [buf] }
  | pumped {c : Fanout svc Addr ι} (i : ι) (fuel : ℕ) (rounds : List Round) : (∀ round ∈ rounds, round.From c) →
      Step config peers c
        { c with follower := Function.update c.follower i ((c.follower i).pump fuel rounds).2 }
  /-- A follower process ends and starts again. -/
  | restarted {c : Fanout svc Addr ι} (i : ι) (acceptor : Acceptor) :
      Step config peers c
        { c with follower := Function.update c.follower i (.openFollower config acceptor (c.follower i).journal) }

/-- What runs lead to from a new deployment. -/
inductive Reachable (config : svc.Config) (peers : List Addr) : Fanout svc Addr ι → Prop where
  | start {nodeConfig : NodeConfig} {clock : ℕ → UInt64} {w w' w'' : World JStore} {n n' : Node svc}
      (publisher : Publisher Addr) (acceptor : ι → Acceptor) : w.st.disk = Disk.empty →
      Node.openWith nodeConfig config clock () w = .ok n () w' → Node.subscribe n w' = .ok () n' w'' →
      publisher.nextSeq = 1 →
      Reachable config peers ⟨n', publisher, [], [], fun i => .openFollower config (acceptor i) []⟩
  | step {c c' : Fanout svc Addr ι} : Reachable config peers c → Step config peers c c' → Reachable config peers c'

end Fanout

/-! ## Feeding a part -/

section Feed

variable {r r' : Replica svc} {frames more : List Frame} {frame : Frame} {trace : List (svc.State × List svc.Output)}

/-- What was fed in one go was fed in two. -/
theorem feed_append (h : r.feed (frames ++ more) = some (trace, r')) : ∃ before r₁ after,
    r.feed frames = some (before, r₁) ∧ r₁.feed more = some (after, r') ∧ trace = before ++ after := by
  induction frames generalizing r trace with
  | nil => exact ⟨[], r, trace, rfl, h, rfl⟩
  | cons f fs ih =>
    simp only [List.cons_append, Replica.feed] at h ⊢
    split at h
    · rename_i outputs r₁ happly
      obtain ⟨⟨rest, last⟩, hfeed, heq⟩ := Option.map_eq_some_iff.mp h
      obtain ⟨rfl, rfl⟩ := Prod.mk.inj heq
      obtain ⟨before, r₂, after, hbefore, hafter, rfl⟩ := ih hfeed
      refine ⟨(r₁.service, outputs) :: before, r₂, after, ?_, hafter, rfl⟩
      simp only [hbefore]
      rfl
    · cases h

theorem length_feed (h : r.feed frames = some (trace, r')) : trace.length = frames.length := by
  induction frames generalizing r trace with
  | nil =>
    obtain ⟨rfl, -⟩ := Prod.mk.inj (Option.some.inj h)
    rfl
  | cons f fs ih =>
    simp only [Replica.feed] at h
    split at h
    · obtain ⟨⟨rest, last⟩, hfeed, heq⟩ := Option.map_eq_some_iff.mp h
      obtain ⟨rfl, rfl⟩ := Prod.mk.inj heq
      rw [List.length_cons, List.length_cons, ih hfeed]
    · cases h

/-- The replica has the last state of its trace. -/
theorem state_feed (h : r.feed frames = some (trace, r')) :
    (r.service :: trace.map (·.1))[frames.length]? = some r'.service := by
  induction frames generalizing r trace with
  | nil =>
    obtain ⟨rfl, rfl⟩ := Prod.mk.inj (Option.some.inj h)
    rfl
  | cons f fs ih =>
    simp only [Replica.feed] at h
    split at h
    · obtain ⟨⟨rest, last⟩, hfeed, heq⟩ := Option.map_eq_some_iff.mp h
      obtain ⟨rfl, rfl⟩ := Prod.mk.inj heq
      exact ih hfeed
    · cases h

/-- Frames that are all accepted rebuild the replica that they feed. -/
theorem rebuild_feed (h : r.feed frames = some (trace, r')) : Follower.rebuild r frames = r' := by
  induction frames generalizing r trace with
  | nil =>
    obtain ⟨-, rfl⟩ := Prod.mk.inj (Option.some.inj h)
    rfl
  | cons f fs ih =>
    simp only [Replica.feed] at h
    split at h
    · rename_i outputs r₁ happly
      obtain ⟨⟨rest, last⟩, hfeed, heq⟩ := Option.map_eq_some_iff.mp h
      obtain ⟨rfl, rfl⟩ := Prod.mk.inj heq
      rw [Follower.rebuild, List.foldl_cons, happly]
      exact ih hfeed
    · cases h

end Feed

/-! ## A follower's copy -/

/-- A stream that goes on. -/
structure Extends (stream stream' : Transport.Stream) : Prop where
  frames : stream.frames <+: stream'.frames
  past : stream.past ≤ stream'.past

/-- **What a follower keeps**: it holds the stream as far as it got, and has computed it. -/
structure Copies (config : svc.Config) (session : UInt64) (stream : Transport.Stream) (f : Follower svc) : Prop where
  le : f.applied ≤ stream.frames.length
  journal : f.journal = stream.frames.take f.applied
  replica : ∃ trace, (Replica.new config).feed f.journal = some (trace, f.replica)
  received : ∃ start delivered fed, Reassembler.Inv session stream start f.reassembler delivered fed ∧
    f.reassembler.next = f.applied + 1

section Copy

variable {config : svc.Config} {session : UInt64} {stream stream' : Transport.Stream} {f : Follower svc} {packet : Packet}

theorem Extends.of (h : Extends stream stream') (hof : packet.Of session stream) : packet.Of session stream' := by
  cases packet with
  | data s frames => exact ⟨hof.1, fun frame hf => h.frames.subset (hof.2 frame hf)⟩
  | heartbeat s nextSeq => exact ⟨hof.1, Nat.le_trans hof.2 h.past⟩

theorem Extends.received (h : Extends stream stream') {start : ℕ} {r : Reassembler} {delivered : List Frame}
    {fed : List ℕ} (hinv : Reassembler.Inv session stream start r delivered fed) :
    Reassembler.Inv session stream' start r delivered fed where
  locked := hinv.locked
  next := hinv.next
  delivered := fun i frame hi => ⟨h.frames.subset (hinv.delivered i frame hi).1, (hinv.delivered i frame hi).2⟩
  pending := fun seq frame hseq => ⟨h.frames.subset (hinv.pending seq frame hseq).1, (hinv.pending seq frame hseq).2⟩
  cap := hinv.cap
  fed := hinv.fed
  announced := ⟨hinv.announced.1, Nat.le_trans hinv.announced.2 (max_le_max (Nat.le_refl start) h.past)⟩

theorem Copies.mono (h : Copies config session stream f) (hext : Extends stream stream') :
    Copies config session stream' f where
  le := Nat.le_trans h.le hext.frames.length_le
  journal := by
    obtain ⟨rest, hrest⟩ := hext.frames
    rw [h.journal, ← hrest, List.take_append_of_le_length h.le]
  replica := h.replica
  received := by
    obtain ⟨start, delivered, fed, hinv, hnext⟩ := h.received
    exact ⟨start, delivered, fed, hext.received hinv, hnext⟩

/-- A packet of the stream is taken in. -/
theorem Copies.ingest (h : Copies config session stream f) (hof : packet.Of session stream) {r : Reassembler}
    (hrun : f.reassembler.ingest packet = .ok r) : Copies config session stream { f with reassembler := r } where
  le := h.le
  journal := h.journal
  replica := h.replica
  received := by
    obtain ⟨start, delivered, fed, hinv, hnext⟩ := h.received
    exact ⟨start, delivered, _, hinv.ingest hof hrun, (Reassembler.ingest_spec hrun).1.trans hnext⟩

/-- The frame that comes out is the next one of the stream. -/
theorem Copies.next (h : Copies config session stream f) (hfirst : stream.first = 1) {r : Reassembler} {frame : Frame}
    (hrun : f.reassembler.nextFrame = some (frame, r)) :
    frame.seq = f.applied + 1 ∧ stream.frames[f.applied]? = some frame := by
  obtain ⟨start, delivered, fed, hinv, hnext⟩ := h.received
  obtain ⟨hmem, hseq, -⟩ := hinv.pending _ _ (Reassembler.nextFrame_cases hrun).1
  rw [hnext] at hseq
  refine ⟨hseq, ?_⟩
  obtain ⟨i, hi, hget⟩ := List.getElem_of_mem hmem
  have hindex := stream.run.getElem hi
  rw [List.get_eq_getElem, hget, hseq, hfirst] at hindex
  have hsame : f.applied = i := by omega
  rw [hsame, List.getElem?_eq_getElem hi, hget]

/-- **A frame comes out**, is journaled and applied. -/
theorem Copies.onFrame (h : Copies config session stream f) (hfirst : stream.first = 1) {r : Reassembler} {frame : Frame}
    (hfeed : ∃ trace last, (Replica.new config).feed stream.frames = some (trace, last))
    (hrun : f.reassembler.nextFrame = some (frame, r)) :
    Copies config session stream (Follower.onFrame { f with reassembler := r } frame) := by
  obtain ⟨hseq, hget⟩ := h.next hfirst hrun
  obtain ⟨hlt, hframe⟩ := List.getElem?_eq_some_iff.mp hget
  have htake : stream.frames.take (f.applied + 1) = f.journal ++ [frame] := by
    rw [h.journal, List.take_add_one, hget]
    rfl
  -- the leader's own run says that the replica accepts it
  have hone : ∃ outputs r', f.replica.apply frame = some (.ok outputs, r') ∧
      ∃ trace, (Replica.new config).feed (f.journal ++ [frame]) = some (trace, r') := by
    obtain ⟨trace, last, hall⟩ := hfeed
    rw [← List.take_append_drop (f.applied + 1) stream.frames, htake] at hall
    obtain ⟨before, r₁, after, hbefore, -, -⟩ := feed_append hall
    obtain ⟨trace₁, r₂, trace₂, hjournal, hlast, -⟩ := feed_append hbefore
    obtain ⟨trace', htrace'⟩ := h.replica
    rw [htrace'] at hjournal
    obtain ⟨-, rfl⟩ := Prod.mk.inj (Option.some.inj hjournal)
    simp only [Replica.feed] at hlast
    split at hlast
    · rename_i outputs r₃ happly
      obtain ⟨-, rfl⟩ := Prod.mk.inj (Option.some.inj hlast)
      exact ⟨outputs, _, happly, before, hbefore⟩
    · cases hlast
  obtain ⟨outputs, r', happly, hfed⟩ := hone
  rw [Follower.onFrame, if_pos hseq]
  refine ⟨?_, ?_, ?_, ?_⟩
  · show frame.seq ≤ _
    rw [hseq]
    exact hlt
  · show f.journal ++ [frame] = stream.frames.take frame.seq
    rw [hseq, htake]
  · show ∃ trace, (Replica.new config).feed (f.journal ++ [frame]) =
      some (trace, ((f.replica.apply frame).map Prod.snd).getD f.replica)
    rw [happly]
    exact hfed
  · obtain ⟨start, delivered, fed, hinv, hnext⟩ := h.received
    refine ⟨start, delivered ++ [frame], fed, hinv.nextFrame hrun, ?_⟩
    have hpopped : r.next = f.reassembler.next + 1 := by
      unfold Reassembler.nextFrame at hrun
      split at hrun
      · cases hrun
      · obtain ⟨-, rfl⟩ := Prod.mk.inj (Option.some.inj hrun)
        rfl
    show r.next = frame.seq + 1
    rw [hpopped, hnext, hseq]

/-- **A follower that starts again** on its journal has its place in the stream. -/
theorem Copies.restart (h : Copies config session stream f) (acceptor : Acceptor) :
    Copies config session stream (.openFollower config acceptor f.journal) := by
  have hlength : f.journal.length = f.applied := by
    rw [h.journal, List.length_take, Nat.min_eq_left h.le]
  obtain ⟨trace, hfed⟩ := h.replica
  refine ⟨?_, ?_, ⟨trace, ?_⟩, ?_⟩
  · show f.journal.length ≤ _
    rw [hlength]
    exact h.le
  · show f.journal = stream.frames.take f.journal.length
    rw [hlength]
    exact h.journal
  · show _ = some (trace, Follower.rebuild (.new config) f.journal)
    rw [rebuild_feed hfed]
    exact hfed
  · refine ⟨_, [], [], Reassembler.Inv.new, ?_⟩
    show max (f.journal.length + 1) 1 = f.journal.length + 1
    omega

end Copy

/-! ## What is sent -/

section Sent

variable {sendTo : Addr → Bytes → Bool} {peers : List Addr} {p : Publisher Addr} {frame : Frame} {frames : List Frame}

/-- The publisher after a frame. -/
def behind (p : Publisher Addr) (frame : Frame) : Publisher Addr := { p with nextSeq := frame.seq + 1 }

theorem publishTo_eq {dest : Addr} (h : (p.publishTo sendTo frame dest).2.2 ≠ .panic) :
    (p.publishTo sendTo frame dest).2.1 = behind p frame ∧
      ∀ b ∈ (p.publishTo sendTo frame dest).1, Packet.decode b = some (.ok (.data p.session [frame])) := by
  unfold Publisher.publishTo at h ⊢
  split at h
  · exact absurd rfl h
  · rename_i nextSeq hnext
    have hseq : nextSeq = frame.seq + 1 := by
      unfold addU64 at hnext
      split at hnext
      · exact (Option.some.inj hnext).symm
      · cases hnext
    obtain ⟨buf, hencode, hdecode⟩ := @decode_encodeData p.session [frame] frame.seq (by simp)
      (by simp) ⟨rfl, trivial⟩
    have hencode : encodeData p.session [frame] = some buf := hencode
    simp only [hencode]
    refine ⟨by rw [behind, hseq], fun b hb => ?_⟩
    rw [List.mem_singleton.mp hb]
    exact hdecode

theorem publishToAll_eq (h : (publishToAll sendTo frame peers p).2.2 ≠ .panic) :
    (publishToAll sendTo frame peers p).2.1 = (if peers = [] then p else behind p frame) ∧
      ∀ b ∈ (publishToAll sendTo frame peers p).1, Packet.decode b = some (.ok (.data p.session [frame])) := by
  induction peers generalizing p with
  | nil => exact ⟨rfl, fun b hb => by cases hb⟩
  | cons dest rest ih =>
    rw [if_neg (List.cons_ne_nil dest rest)]
    unfold publishToAll at h ⊢
    split at h
    · rename_i packets p' hone
      have hdone : (p.publishTo sendTo frame dest).2.2 ≠ .panic := by
        rw [hone]
        exact fun heq => by cases heq
      have hspec := publishTo_eq hdone
      rw [hone] at hspec
      obtain ⟨rfl, hpackets⟩ := hspec
      obtain ⟨hlast, hmore⟩ := ih h
      refine ⟨?_, fun b hb => ?_⟩
      · show (publishToAll sendTo frame rest (behind p frame)).2.1 = _
        rw [hlast]
        split <;> rfl
      · rcases List.mem_append.mp hb with hb | hb
        · exact hpackets b hb
        · exact hmore b hb
    · exact publishTo_eq h

/-- **What draining sends**: a datagram is one of the frames, and the publisher is behind the last frame it took. -/
structure DrainedFrom (peers : List Addr) (frames : List Frame) (p : Publisher Addr) (d : Drained Addr) : Prop where
  session : d.publisher.session = p.session
  suffix : d.left <:+ frames
  packets : ∀ b ∈ d.packets, ∃ frame ∈ frames, Packet.decode b = some (.ok (.data p.session [frame]))
  nextSeq : d.publisher.nextSeq = p.nextSeq ∨ ∃ frame ∈ frames, d.publisher.nextSeq = frame.seq + 1
  current : peers ≠ [] → SeqRun p.nextSeq frames →
    d.publisher.nextSeq + d.left.length = p.nextSeq + frames.length

theorem drainStream_eq (h : (drainStream sendTo peers frames p).fin ≠ .panic) :
    DrainedFrom peers frames p (drainStream sendTo peers frames p) := by
  induction frames generalizing p with
  | nil => exact ⟨rfl, List.suffix_refl _, (fun b hb => by cases hb), .inl rfl, fun _ _ => rfl⟩
  | cons frame rest ih =>
    unfold drainStream at h ⊢
    split at h
    · rename_i packets p' hone
      have hdone : (publishToAll sendTo frame peers p).2.2 ≠ .panic := by
        rw [hone]
        exact fun heq => by cases heq
      have hspec := publishToAll_eq hdone
      rw [hone] at hspec
      obtain ⟨rfl, hpackets⟩ := hspec
      have hmore := ih h
      have hsession : (if peers = [] then p else behind p frame).session = p.session := by
        split <;> rfl
      refine ⟨hmore.session.trans hsession, hmore.suffix.trans (List.suffix_cons ..), fun b hb => ?_, ?_, ?_⟩
      · rcases List.mem_append.mp hb with hb | hb
        · exact ⟨frame, List.mem_cons_self .., hpackets b hb⟩
        · obtain ⟨f, hf, hdecode⟩ := hmore.packets b hb
          rw [hsession] at hdecode
          exact ⟨f, List.mem_cons_of_mem _ hf, hdecode⟩
      · rcases hmore.nextSeq with hsame | ⟨f, hf, hlast⟩
        · dsimp only at hsame ⊢
          rw [hsame]
          split
          · exact .inl rfl
          · exact .inr ⟨frame, List.mem_cons_self .., rfl⟩
        · exact .inr ⟨f, List.mem_cons_of_mem _ hf, hlast⟩
      · intro hpeers hrun
        have hlast := hmore.current hpeers
        rw [if_neg hpeers] at hlast
        have hnext : (behind p frame).nextSeq = p.nextSeq + 1 := congrArg (· + 1) hrun.1
        rw [hnext] at hlast
        have hfinal := hlast hrun.2
        rw [if_neg hpeers]
        rw [List.length_cons]
        show (drainStream sendTo peers rest (behind p frame)).publisher.nextSeq +
          (drainStream sendTo peers rest (behind p frame)).left.length = _
        omega
    · rename_i packets p' fin hfin hone
      have hended : (publishToAll sendTo frame peers p).2.2 ≠ .panic := by
        rw [hone]
        exact h
      have hspec := publishToAll_eq hended
      rw [hone] at hspec
      obtain ⟨rfl, hpackets⟩ := hspec
      refine ⟨?_, List.suffix_cons .., fun b hb => ⟨frame, List.mem_cons_self .., hpackets b hb⟩, ?_, ?_⟩
      · dsimp only
        split <;> rfl
      · dsimp only
        split
        · exact .inl rfl
        · exact .inr ⟨frame, List.mem_cons_self .., rfl⟩
      · intro hpeers hrun
        rw [if_neg hpeers, List.length_cons]
        show frame.seq + 1 + rest.length = _
        rw [hrun.1]
        omega

end Sent

/-! ## What is published -/

section Published

variable {config : svc.Config} {n n' : Node svc}

/-- The published frames only grow. -/
theorem publishing_grows (n : Node svc) : Node.Publishing fun m : Node svc => publishedFrames n <+: publishedFrames m := by
  have hgrows : ∀ (m m' : Node svc) (frame : Frame) outputs, m'.ledger = m.ledger →
      publishedFrames n <+: publishedFrames m → publishedFrames n <+: publishedFrames (Node.published m' frame outputs) := by
    intro m m' frame outputs hledger h
    have hframes : publishedFrames (Node.published m' frame outputs) = publishedFrames m ++ [frame] := by
      simp [publishedFrames, Node.published, hledger]
    rw [hframes]
    exact h.trans (List.prefix_append ..)
  constructor
  case blind => exact fun _ _ _ h => h
  case control => exact fun h _ _ => hgrows _ _ _ _ rfl h
  case input => exact fun h _ _ _ => hgrows _ _ _ _ rfl h
  case timer => exact fun _ h _ _ _ => hgrows _ _ _ _ rfl h

/-- A call keeps an invariant of publication. -/
theorem Leads.keeps {I : Node svc → Prop} (hI : Node.Publishing I) (h : Leads n n') (hn : I n) : I n' := by
  cases h with
  | submit fuel input hrun => exact mwp_ok (hI.mwp_submit fuel input hn) hrun
  | tick fuel hrun => exact mwp_ok (hI.mwp_tick fuel hn) hrun
  | fence epoch hrun => exact mwp_ok (hI.mwp_fence epoch hn) hrun

theorem seqRun_of_seqs {first : ℕ} {frames : List Frame}
    (h : frames.map (·.seq) = List.range' first frames.length) : SeqRun first frames := by
  induction frames generalizing first with
  | nil => trivial
  | cons f fs ih =>
    rw [List.map_cons, List.length_cons, List.range'_succ] at h
    obtain ⟨hhead, htail⟩ := List.cons.inj h
    exact ⟨hhead, ih htail⟩

/-- What a leader published is a stream. -/
theorem exists_stream (h : Caught config n) (hseq : n.seq + 1 < 2 ^ 64) :
    ∃ stream : Transport.Stream, stream.first = 1 ∧ stream.frames = publishedFrames n ∧ stream.past = n.seq + 1 := by
  obtain ⟨hseqs, hlast⟩ := Replica.feed_seqs h.feed
  have hlength : (publishedFrames n).length = n.seq := by
    have hzero : (Replica.new config : Replica svc).seq = 0 := rfl
    rw [hzero, Nat.zero_add] at hlast
    exact hlast.symm
  refine ⟨⟨1, publishedFrames n, seqRun_of_seqs hseqs, by omega⟩, rfl, rfl, ?_⟩
  show 1 + (publishedFrames n).length = _
  omega

end Published

/-! ## The invariant -/

namespace Fanout

section Invariant

variable {config : svc.Config} {peers : List Addr} {c c' : Fanout svc Addr ι} {stream : Transport.Stream}

/-- **The invariant** of a leader whose published frames are the stream. -/
structure Inv (config : svc.Config) (peers : List Addr) (c : Fanout svc Addr ι) (stream : Transport.Stream) : Prop where
  first : stream.first = 1
  frames : stream.frames = publishedFrames c.leader
  left : c.stream <:+ stream.frames
  announced : c.publisher.nextSeq ≤ stream.past
  current : peers ≠ [] → c.publisher.nextSeq + c.stream.length = stream.past
  wire : ∀ b ∈ c.wire, ∃ packet, Packet.decode b = some (.ok packet) ∧ packet.Of c.publisher.session stream
  follower : ∀ i, Copies config c.publisher.session stream (c.follower i)

/-- What is left to send carries on where the publisher is. -/
theorem Inv.seqRun (h : Inv config peers c stream) (hpeers : peers ≠ []) : SeqRun c.publisher.nextSeq c.stream := by
  obtain ⟨sent, hsent⟩ := h.left
  have hrun := stream.run
  rw [← hsent, SeqRun.append] at hrun
  have hpast := h.current hpeers
  rw [Transport.Stream.past, ← hsent, List.length_append] at hpast
  have hnext : c.publisher.nextSeq = stream.first + sent.length := by omega
  rw [hnext]
  exact hrun.2

/-- A call of the leader, and what it sends. -/
theorem Inv.led (h : Inv config peers c stream) {n' : Node svc} {stream' : Transport.Stream} {d : Drained Addr}
    (hfirst : stream'.first = 1) (hframes : stream'.frames = publishedFrames n')
    (hgrows : publishedFrames c.leader <+: publishedFrames n')
    (hd : DrainedFrom peers (c.stream ++ (publishedFrames n').drop (publishedFrames c.leader).length) c.publisher d) :
    Inv config peers { c with leader := n', publisher := d.publisher, stream := d.left, wire := c.wire ++ d.packets }
      stream' := by
  obtain ⟨new, hnew⟩ := hgrows
  have hall : stream'.frames = stream.frames ++ new := by rw [hframes, ← hnew, h.frames]
  have hdrop : (publishedFrames n').drop (publishedFrames c.leader).length = new := by
    rw [← hnew, List.drop_left]
  rw [hdrop] at hd
  have hpast : stream'.past = stream.past + new.length := by
    rw [Transport.Stream.past, Transport.Stream.past, hfirst, h.first, hall, List.length_append]
    omega
  have hext : Extends stream stream' := ⟨hall ▸ List.prefix_append .., by omega⟩
  have hqueue : c.stream ++ new <:+ stream'.frames := by
    obtain ⟨sent, hsent⟩ := h.left
    exact ⟨sent, by rw [hall, ← hsent, List.append_assoc]⟩
  refine ⟨hfirst, hframes, hd.suffix.trans hqueue, ?_, fun hpeers => ?_, fun b hb => ?_, fun i => ?_⟩
  · rcases hd.nextSeq with hsame | ⟨frame, hframe, hlast⟩
    · rw [hsame]
      exact Nat.le_trans h.announced hext.past
    · rw [hlast]
      exact Reassembler.Stream.seq_lt stream' (hqueue.subset hframe)
  · -- what is left and the new frames carry on from the publisher
    have hrun : SeqRun c.publisher.nextSeq (c.stream ++ new) := by
      rw [SeqRun.append]
      refine ⟨h.seqRun hpeers, ?_⟩
      have hrun' := stream'.run
      rw [hall, SeqRun.append, hfirst] at hrun'
      rw [h.current hpeers, Transport.Stream.past, h.first]
      exact hrun'.2
    have hlast := hd.current hpeers hrun
    rw [List.length_append] at hlast
    have hcurrent := h.current hpeers
    show d.publisher.nextSeq + d.left.length = _
    omega
  · show ∃ packet, Packet.decode b = some (.ok packet) ∧ packet.Of d.publisher.session stream'
    rw [hd.session]
    rcases List.mem_append.mp hb with hb | hb
    · obtain ⟨packet, hdecode, hof⟩ := h.wire b hb
      exact ⟨packet, hdecode, hext.of hof⟩
    · obtain ⟨frame, hframe, hdecode⟩ := hd.packets b hb
      refine ⟨_, hdecode, rfl, fun f hf => ?_⟩
      rw [List.mem_singleton.mp hf]
      exact hqueue.subset hframe
  · show Copies config d.publisher.session stream' (c.follower i)
    rw [hd.session]
    exact (h.follower i).mono hext

/-- A heartbeat announces no more than there is. -/
theorem Inv.heartbeat (h : Inv config peers c stream) {buf : Bytes} (hbuf : c.publisher.heartbeat = some buf) :
    Inv config peers { c with wire := c.wire ++ [buf] } stream where
  first := h.first
  frames := h.frames
  left := h.left
  announced := h.announced
  current := h.current
  wire := by
    intro b hb
    rcases List.mem_append.mp hb with hb | hb
    · exact h.wire b hb
    · rw [List.mem_singleton.mp hb]
      have hnext : c.publisher.nextSeq < 2 ^ 64 := Nat.lt_of_le_of_lt h.announced stream.fits
      obtain ⟨bytes, hencode, hdecode⟩ := decode_heartbeat c.publisher.session hnext
      rw [Publisher.heartbeat, hencode] at hbuf
      obtain rfl := Option.some.inj hbuf
      exact ⟨_, hdecode, rfl, h.announced⟩
  follower := h.follower

/-- Another follower is not touched. -/
theorem Inv.update [DecidableEq ι] (h : Inv config peers c stream) (i : ι) {f : Follower svc}
    (hf : Copies config c.publisher.session stream f) :
    Inv config peers { c with follower := Function.update c.follower i f } stream where
  first := h.first
  frames := h.frames
  left := h.left
  announced := h.announced
  current := h.current
  wire := h.wire
  follower := by
    intro j
    by_cases hj : j = i
    · rw [hj]
      show Copies config _ stream (Function.update c.follower i f i)
      rw [Function.update_self]
      exact hf
    · show Copies config _ stream (Function.update c.follower i f j)
      rw [Function.update_of_ne hj]
      exact h.follower j

/-- What a follower may find is of the stream. -/
theorem Inv.of_round (h : Inv config peers c stream) {round : Round} (hround : round.From c) {packet : Packet}
    (hpacket : packet ∈ round.packets) : packet.Of c.publisher.session stream := by
  have hreply : ∀ packet ∈ round.replies, packet.Of c.publisher.session stream := by
    intro packet hmem
    obtain ⟨frames, rfl, hframes⟩ := hround.2 packet hmem
    exact ⟨rfl, fun f hf => h.frames ▸ hframes f hf⟩
  unfold Round.packets at hpacket
  split at hpacket
  · rename_i received hdatagram
    rcases List.mem_cons.mp hpacket with rfl | hmem
    · obtain ⟨b, hb, hdecode⟩ := hround.1 _ hdatagram
      obtain ⟨sent, hsent, hof⟩ := h.wire b hb
      rw [hdecode] at hsent
      obtain rfl := Except.ok.inj (Option.some.inj hsent)
      exact hof
    · exact hreply packet hmem
  · exact hreply packet hpacket

/-- The follower's replica accepts the stream, as the leader went through it. -/
theorem exists_feed (hcaught : Caught config c.leader) (h : Inv config peers c stream) :
    ∃ trace last, (Replica.new config).feed stream.frames = some (trace, last) := by
  rw [h.frames]
  exact ⟨_, _, hcaught.feed⟩

/-- **Pumping** keeps a follower's copy, whatever it finds. -/
theorem Inv.pumped (hcaught : Caught config c.leader) (h : Inv config peers c stream) (i : ι) {fuel : ℕ}
    {rounds : List Round} (hrounds : ∀ round ∈ rounds, round.From c) :
    Copies config c.publisher.session stream ((c.follower i).pump fuel rounds).2 := by
  refine Follower.pump_induct (fun {f r packet} hf (hof : packet.Of c.publisher.session stream) hrun => ?_)
    (fun hf hrun => ?_) (fun round hround packet hpacket => ?_) (h.follower i)
  · exact hf.ingest hof hrun
  · exact hf.onFrame h.first (exists_feed hcaught h) hrun
  · exact h.of_round (hrounds round hround) hpacket

/-- What a follower's copy says of its state. -/
theorem Inv.state (hcaught : Caught config c.leader) (h : Inv config peers c stream) (i : ι) :
    (svc.genesis config :: c.leader.ledger.map (·.state))[(c.follower i).applied]? =
      some (c.follower i).replica.service := by
  have hcopy := h.follower i
  obtain ⟨trace, hfed⟩ := hcopy.replica
  have hsplit : publishedFrames c.leader = (c.follower i).journal ++
      (publishedFrames c.leader).drop (c.follower i).applied := by
    rw [hcopy.journal, h.frames, List.take_append_drop]
  have hall := hcaught.feed
  rw [hsplit] at hall
  obtain ⟨before, r₁, after, hbefore, -, htrace⟩ := feed_append hall
  rw [hfed] at hbefore
  obtain ⟨rfl, rfl⟩ := Prod.mk.inj (Option.some.inj hbefore)
  have hlength : (c.follower i).journal.length = (c.follower i).applied := by
    rw [hcopy.journal, List.length_take, Nat.min_eq_left hcopy.le]
  have hstate := state_feed hfed
  have hstates : c.leader.ledger.map (·.state) = trace.map (·.1) ++ after.map (·.1) := by
    rw [← List.map_append, ← htrace, publishedTrace, List.map_map]
    rfl
  rw [hlength] at hstate
  rw [hstates, ← List.cons_append, List.getElem?_append_left]
  · exact hstate
  · rw [List.length_cons, List.length_map, length_feed hfed, hlength]
    omega

end Invariant

/-! ## Every run -/

section Runs

variable [DecidableEq ι] {config : svc.Config} {peers : List Addr} {c c' : Fanout svc Addr ι} {stream : Transport.Stream}

theorem Step.grows (hcodec : svc.Codecs) (h : Step config peers c c') (hcaught : Caught config c.leader) :
    Caught config c'.leader ∧ publishedFrames c.leader <+: publishedFrames c'.leader := by
  cases h with
  | led sendTo d hcall hdrain hfin =>
    exact ⟨hcall.keeps (publishing_caught hcodec) hcaught,
      hcall.keeps (publishing_grows c.leader) (List.prefix_refl _)⟩
  | heartbeat hbuf => exact ⟨hcaught, List.prefix_refl _⟩
  | pumped i fuel rounds hrounds => exact ⟨hcaught, List.prefix_refl _⟩
  | restarted i acceptor => exact ⟨hcaught, List.prefix_refl _⟩

theorem leading_start {nodeConfig : NodeConfig} {clock : ℕ → UInt64} {w w' w'' : World JStore} {n n' : Node svc}
    (hempty : w.st.disk = Disk.empty) (hopen : Node.openWith nodeConfig config clock () w = .ok n () w')
    (hsubscribe : Node.subscribe n w' = .ok () n' w'') : publishedFrames n' = [] := by
  cases hsubscribe
  have hnames : w.st.disk.names = [] := by rw [hempty]; rfl
  obtain ⟨-, -, -, hledger⟩ := wp_ok (Node.wp_openWith_empty hnames) (fun _ _ => trivial) hopen
  simp [publishedFrames, hledger]

theorem Reachable.caught (hcodec : svc.Codecs) (h : Reachable config peers c) : Caught config c.leader := by
  induction h with
  | start publisher acceptor hempty hopen hsubscribe hnext =>
    exact (Leading.opened hempty hopen hsubscribe).caught hcodec
  | step _ hstep ih => exact (hstep.grows hcodec ih).1

/-- The seq of a leader is the number of frames it published. -/
theorem length_published {n : Node svc} (h : Caught config n) : (publishedFrames n).length = n.seq := by
  have hlast := (Replica.feed_seqs h.feed).2
  have hzero : (Replica.new config : Replica svc).seq = 0 := rfl
  rw [hzero, Nat.zero_add] at hlast
  exact hlast.symm

/-- **Step lemma**. -/
theorem Step.inv (hcodec : svc.Codecs) (h : Step config peers c c') (hcaught : Caught config c.leader)
    (hinv : Inv config peers c stream) (hseq : c'.leader.seq + 1 < 2 ^ 64) : ∃ stream', Inv config peers c' stream' := by
  obtain ⟨hcaught', hgrows⟩ := h.grows hcodec hcaught
  cases h with
  | led sendTo d hcall hdrain hfin =>
    obtain ⟨stream', hfirst, hframes, -⟩ := exists_stream hcaught' hseq
    subst hdrain
    exact ⟨stream', hinv.led hfirst hframes hgrows (drainStream_eq hfin)⟩
  | heartbeat hbuf => exact ⟨stream, hinv.heartbeat hbuf⟩
  | pumped i fuel rounds hrounds => exact ⟨stream, hinv.update i (hinv.pumped hcaught i hrounds)⟩
  | restarted i acceptor => exact ⟨stream, hinv.update i ((hinv.follower i).restart acceptor)⟩

/-- **Run lemma**. -/
theorem Reachable.inv (hcodec : svc.Codecs) (h : Reachable config peers c) (hseq : c.leader.seq + 1 < 2 ^ 64) :
    ∃ stream, Inv config peers c stream := by
  induction h with
  | @start nodeConfig clock w w' w'' n n' publisher acceptor hempty hopen hsubscribe hnext =>
    have hcaught := (Leading.opened hempty hopen hsubscribe).caught hcodec
    have hnone := leading_start hempty hopen hsubscribe
    obtain ⟨stream, hfirst, hframes, hpast⟩ := exists_stream hcaught hseq
    rw [← length_published hcaught, hnone] at hpast
    refine ⟨stream, hfirst, hframes, List.nil_suffix .., ?_, fun _ => ?_, (fun b hb => by cases hb), fun i => ?_⟩
    · show publisher.nextSeq ≤ _
      rw [hnext, hpast]
      exact Nat.le_refl _
    · show publisher.nextSeq + 0 = _
      rw [hnext, hpast]
      rfl
    · refine ⟨Nat.zero_le _, rfl, ⟨[], rfl⟩, _, [], [], Reassembler.Inv.new, ?_⟩
      show max 1 1 = 0 + 1
      rfl
  | step hreach hstep ih =>
    have hcaught := hreach.caught hcodec
    obtain ⟨hcaught', hgrows⟩ := hstep.grows hcodec hcaught
    have hle := hgrows.length_le
    rw [length_published hcaught, length_published hcaught'] at hle
    obtain ⟨stream, hinv⟩ := ih (by omega)
    exact hstep.inv hcodec hcaught hinv hseq

end Runs

/-- **Followers compute what the leader computed**: in every deployment that runs lead to, whatever the network lost,
repeated and reordered and however often followers were started again, the journal of a follower is the frames that the
leader published first, as many as it has applied, and the state of its replica is the state the leader had right after
the last of them. So two followers never disagree. -/
theorem followers_follow [DecidableEq ι] {config : svc.Config} {peers : List Addr} {c : Fanout svc Addr ι}
    (hcodec : svc.Codecs) (h : Reachable config peers c) (hseq : c.leader.seq + 1 < 2 ^ 64) :
    (∀ i, (c.follower i).applied ≤ c.leader.seq ∧
      (c.follower i).journal = (c.leader.ledger.map (·.frame)).take (c.follower i).applied ∧
      (svc.genesis config :: c.leader.ledger.map (·.state))[(c.follower i).applied]? =
        some (c.follower i).replica.service) ∧
    ∀ i j, (c.follower i).applied ≤ (c.follower j).applied →
      (c.follower i).journal <+: (c.follower j).journal := by
  have hcaught := h.caught hcodec
  obtain ⟨stream, hinv⟩ := h.inv hcodec hseq
  constructor
  · intro i
    have hcopy := hinv.follower i
    refine ⟨?_, ?_, hinv.state hcaught i⟩
    · rw [← length_published hcaught, ← hinv.frames]
      exact hcopy.le
    · rw [hcopy.journal, hinv.frames]
      rfl
  · intro i j hle
    rw [(hinv.follower i).journal, (hinv.follower j).journal]
    exact List.take_prefix_take_left hle

/-- A leader opens, sequences an input and a fired timer and sends them to its one peer. -/
def firstInput : Option (Node doubler × Node doubler × Drained Unit) := do
  let opening : Prog Unit JStore NodeError (Node doubler) :=
    Node.openWith ⟨⟨64, .never⟩, 1, none, 1, none⟩ () fun i => UInt64.ofNat i
  let (n₀, _, w₀) ← (opening () (.healthy ⟨Disk.empty, History.fresh⟩)).returned
  let (_, n₀, w₀) ← (Node.subscribe n₀ w₀).returned
  let (_, n₁, _) ← (Node.submit 4 (3 : UInt64) n₀ w₀).returned
  pure (n₀, n₁, drainStream (fun _ _ => true) [()] (publishedFrames n₁) ⟨7, (), none, 1⟩)

/-- A deployment with two frames on the wire, which neither of two followers has seen. -/
theorem exists_fanout : ∃ c : Fanout doubler Unit Bool, Reachable () [()] c ∧ c.leader.seq = 2 ∧ c.stream = [] := by
  have hrun : firstInput.any (fun p => decide (p.1.ledger.length = 0) && decide (p.2.1.seq = 2) &&
      decide (p.2.2.fin ≠ .panic) && decide (p.2.2.left = [])) = true := by decide +kernel
  obtain ⟨⟨n₀, n₁, d⟩, hrun, hchecked⟩ := (Option.any_eq_true _ _).mp hrun
  simp only [Bool.and_eq_true, decide_eq_true_eq] at hchecked
  obtain ⟨⟨⟨hnone, hseq⟩, hfin⟩, hleft⟩ := hchecked
  simp only [firstInput, bind, Option.bind_eq_some_iff] at hrun
  obtain ⟨⟨_, _, _⟩, hopen, ⟨_, m₀, _⟩, hsub, ⟨_, m₁, _⟩, hsubmit, hpure⟩ := hrun
  cases hpure
  dsimp only at hnone hseq hfin hleft
  rw [Outcome.returned_eq_some] at hopen hsub hsubmit
  have hstart : Reachable () [()] (⟨_, ⟨7, (), none, 1⟩, [], [], fun _ => .openFollower () (Acceptor.new) []⟩ :
      Fanout doubler Unit Bool) := .start _ (fun _ => Acceptor.new) rfl hopen hsub rfl
  have hdrop : (publishedFrames m₁).drop (publishedFrames m₀).length = publishedFrames m₁ := by
    rw [publishedFrames, publishedFrames, List.length_map, hnone, List.drop_zero]
  have hled := hstart.step (.led (fun _ _ => true) _ (.submit _ _ hsubmit) rfl (by
    rw [List.nil_append, hdrop]
    exact hfin))
  refine ⟨_, hled, hseq, ?_⟩
  show (drainStream _ _ _ _).left = []
  rw [List.nil_append, hdrop]
  exact hleft

/-- The second follower agrees with what the leader did, as far as it got. -/
theorem followers_follow_of_input : ∃ c : Fanout doubler Unit Bool, c.leader.seq = 2 ∧
    (c.follower true).applied ≤ c.leader.seq ∧
    (c.follower true).journal = (c.leader.ledger.map (·.frame)).take (c.follower true).applied := by
  obtain ⟨c, hreach, hseq, -⟩ := exists_fanout
  obtain ⟨hfollows, -⟩ := followers_follow doubler_codecs hreach (by rw [hseq]; decide)
  exact ⟨c, hseq, (hfollows true).1, (hfollows true).2.1⟩

end Fanout

end Ticktape.Server
