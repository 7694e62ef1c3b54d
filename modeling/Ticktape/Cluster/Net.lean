import Ticktape.Cluster.Winner
import Ticktape.Core.Framing
import Ticktape.Server.Grants

/-!
# Votes on the wire

Vote requests and replies as bytes (`ticktape-cluster/src/net.rs`). A candidate opens a connection to every
acceptor, writes its request and reads one reply; a connection may be cut anywhere, and what it carries may be
damaged. A damaged or cut message is not a message, so a network of connections does what a network of messages
does that may lose them (`Network.Refines.step`), and whatever holds of the elections there holds here.
-/

namespace Ticktape.Cluster

open Ticktape.Lib Ticktape.Core Ticktape.Journal Ticktape.Server Ticktape.Cluster.PersistentAcceptor

/-! ## The two messages -/

/-- `b"TKVQ"`. -/
def REQUEST_MAGIC : Bytes := [0x54, 0x4B, 0x56, 0x51]

/-- `b"TKVR"`. -/
def REPLY_MAGIC : Bytes := [0x54, 0x4B, 0x56, 0x52]

/-- magic(4) + epoch(8) + crc(4). -/
def REQUEST_LEN : ℕ := 16

/-- magic(4) + kind(1) + a(8) + b(8) + crc(4). -/
def REPLY_LEN : ℕ := 25

/-- The checksummed part of a request. -/
def requestFields (request : VoteRequest) : Bytes := REQUEST_MAGIC ++ leBytes 8 request.epoch.toNat

def encodeRequest (request : VoteRequest) : Bytes := withCrc (requestFields request)

/-- Read the bytes of a request. -/
def decodeRequest (bytes : Bytes) : Option VoteRequest :=
  if slice bytes 0 4 ≠ REQUEST_MAGIC then none
  else if (crc32c (slice bytes 0 12)).toNat ≠ leNat (slice bytes 12 4) then none
  else some ⟨UInt64.ofNat (leNat (slice bytes 4 8))⟩

/-- The checksummed part of a reply. -/
def replyFields (kind a b : ℕ) : Bytes := REPLY_MAGIC ++ (leBytes 1 kind ++ (leBytes 8 a ++ leBytes 8 b))

def encodeReply : VoteReply → Bytes
  | .grant epoch highWater => withCrc (replyFields 0 epoch.toNat highWater)
  | .reject promised => withCrc (replyFields 1 promised.toNat 0)

/-- Read the bytes of a reply. -/
def decodeReply (bytes : Bytes) : Option VoteReply :=
  if slice bytes 0 4 ≠ REPLY_MAGIC then none
  else if (crc32c (slice bytes 0 21)).toNat ≠ leNat (slice bytes 21 4) then none
  else match leNat (slice bytes 4 1) with
    | 0 => some (.grant (UInt64.ofNat (leNat (slice bytes 5 8))) (leNat (slice bytes 13 8)))
    | 1 => some (.reject (UInt64.ofNat (leNat (slice bytes 5 8))))
    | _ => none

/-- The seq in a reply is one: below `2^64`. -/
def VoteReply.Fits : VoteReply → Prop
  | .grant _ highWater => highWater < 2 ^ 64
  | .reject _ => True

section Codec

variable {bytes q : Bytes} {request : VoteRequest} {reply : VoteReply}

@[simp] theorem requestFields_length (request : VoteRequest) : (requestFields request).length = 12 := by
  simp [requestFields, REQUEST_MAGIC]

@[simp] theorem encodeRequest_length (request : VoteRequest) : (encodeRequest request).length = REQUEST_LEN := by
  simp [encodeRequest, REQUEST_LEN]

@[simp] theorem replyFields_length (kind a b : ℕ) : (replyFields kind a b).length = 21 := by
  simp [replyFields, REPLY_MAGIC]

@[simp] theorem encodeReply_length (reply : VoteReply) : (encodeReply reply).length = REPLY_LEN := by
  cases reply <;> simp [encodeReply, REPLY_LEN]

/-- The checksum of a block that carries its own is right. -/
theorem crc_withCrc (data : Bytes) :
    (crc32c (slice (withCrc data) 0 data.length)).toNat = leNat (slice (withCrc data) data.length 4) := by
  have hdata : slice (withCrc data) 0 data.length = data := slice_here _ rfl
  have hstored : slice (withCrc data) data.length 4 = leBytes 4 (crc32c data).toNat := by
    rw [withCrc, slice, List.drop_left, List.take_of_length_le (by simp)]
  rw [hdata, hstored, leNat_crc]

/-- **A request reads back.** -/
theorem decodeRequest_encode (request : VoteRequest) : decodeRequest (encodeRequest request) = some request := by
  have hmagic : slice (encodeRequest request) 0 4 = REQUEST_MAGIC := by
    rw [encodeRequest, withCrc, requestFields, List.append_assoc]
    exact slice_here _ rfl
  have hepoch : slice (encodeRequest request) 4 8 = leBytes 8 request.epoch.toNat := by
    rw [encodeRequest, withCrc, requestFields, List.append_assoc]
    exact (slice_skip _ 0 8 rfl).trans (slice_here _ (leBytes_length 8 _))
  have hcrc := crc_withCrc (requestFields request)
  rw [requestFields_length, ← encodeRequest] at hcrc
  rw [decodeRequest, if_neg (not_not.mpr hmagic), if_neg (not_not.mpr hcrc), hepoch,
    leNat_leBytes_of_lt (show _ < 256 ^ 8 from request.epoch.toNat_lt), UInt64.ofNat_toNat]

/-- **What reads as a request is one.** -/
theorem eq_of_decodeRequest (hlen : bytes.length = REQUEST_LEN) (h : decodeRequest bytes = some request) :
    bytes = encodeRequest request := by
  unfold decodeRequest at h
  split at h
  · cases h
  split at h
  · cases h
  next hmagic hcrc =>
  obtain rfl := Option.some.inj h
  have hlength : (slice bytes 4 8).length = 8 := slice_length (by rw [hlen]; decide)
  have hepoch : leBytes 8 (leNat (slice bytes 4 8)) = slice bytes 4 8 := by
    have hback := leBytes_leNat (slice bytes 4 8)
    rwa [hlength] at hback
  have hfields : requestFields ⟨UInt64.ofNat (leNat (slice bytes 4 8))⟩ = slice bytes 0 12 := by
    rw [requestFields, UInt64.toNat_ofNat_of_lt' (leNat_slice_lt bytes 4 8), hepoch, ← not_not.mp hmagic]
    exact (slice_append bytes 0 4 8).symm
  have hstored : (slice bytes 12 4).length = 4 := slice_length (by rw [hlen]; decide)
  rw [encodeRequest, hfields, withCrc_eq hstored (not_not.mp hcrc), ← slice_append bytes 0 12 4, slice,
    List.drop_zero]
  exact (List.take_of_length_le (Nat.le_of_eq hlen)).symm

/-- **A damaged request is none.** -/
theorem decodeRequest_burst (h : BitBurst 32 (encodeRequest request) q) : decodeRequest q = none := by
  have hcrc := withCrc_rejects_burst h []
  rw [List.append_nil, requestFields_length] at hcrc
  rw [decodeRequest, if_pos hcrc]
  split <;> rfl

/-- The fields of a reply. -/
theorem slice_replyFields (kind a b : ℕ) :
    slice (withCrc (replyFields kind a b)) 0 4 = REPLY_MAGIC ∧
    slice (withCrc (replyFields kind a b)) 4 1 = leBytes 1 kind ∧
    slice (withCrc (replyFields kind a b)) 5 8 = leBytes 8 a ∧
    slice (withCrc (replyFields kind a b)) 13 8 = leBytes 8 b := by
  simp only [withCrc, replyFields, List.append_assoc]
  refine ⟨slice_here _ rfl, ?_, ?_, ?_⟩
  · exact (slice_skip _ 0 1 rfl).trans (slice_here _ (leBytes_length 1 _))
  · exact ((slice_skip _ 1 8 rfl).trans (slice_skip _ 0 8 (leBytes_length 1 _))).trans
      (slice_here _ (leBytes_length 8 _))
  · exact ((slice_skip _ 9 8 rfl).trans ((slice_skip _ 8 8 (leBytes_length 1 _)).trans
      (slice_skip _ 0 8 (leBytes_length 8 _)))).trans (slice_here _ (leBytes_length 8 _))

theorem decodeReply_replyFields (kind a b : ℕ) :
    kind < 256 → decodeReply (withCrc (replyFields kind a b)) = match kind with
      | 0 => some (.grant (UInt64.ofNat (leNat (leBytes 8 a))) (leNat (leBytes 8 b)))
      | 1 => some (.reject (UInt64.ofNat (leNat (leBytes 8 a))))
      | _ => none := by
  intro h
  obtain ⟨hmagic, hkind, ha, hb⟩ := slice_replyFields kind a b
  have hcrc := crc_withCrc (replyFields kind a b)
  rw [replyFields_length] at hcrc
  rw [decodeReply, if_neg (not_not.mpr hmagic), if_neg (not_not.mpr hcrc), hkind, ha, hb,
    leNat_leBytes_of_lt (show kind < 256 ^ 1 from h)]

/-- **A reply reads back.** -/
theorem decodeReply_encode (h : reply.Fits) : decodeReply (encodeReply reply) = some reply := by
  cases reply with
  | grant epoch highWater =>
    rw [encodeReply, decodeReply_replyFields 0 _ _ (by decide),
      leNat_leBytes_of_lt (show _ < 256 ^ 8 from epoch.toNat_lt),
      leNat_leBytes_of_lt (show highWater < 256 ^ 8 from h)]
    exact congrArg (fun epoch => some (VoteReply.grant epoch highWater)) UInt64.ofNat_toNat
  | reject promised =>
    rw [encodeReply, decodeReply_replyFields 1 _ _ (by decide),
      leNat_leBytes_of_lt (show _ < 256 ^ 8 from promised.toNat_lt)]
    exact congrArg (fun promised => some (VoteReply.reject promised)) UInt64.ofNat_toNat

/-- **A damaged reply is none.** -/
theorem decodeReply_burst (h : BitBurst 32 (encodeReply reply) q) : decodeReply q = none := by
  obtain ⟨kind, a, b, heq⟩ : ∃ kind a b, encodeReply reply = withCrc (replyFields kind a b) := by
    cases reply with
    | grant epoch highWater => exact ⟨0, _, _, rfl⟩
    | reject promised => exact ⟨1, _, _, rfl⟩
  rw [heq] at h
  have hcrc := withCrc_rejects_burst h []
  rw [List.append_nil, replyFields_length] at hcrc
  rw [decodeReply, if_pos hcrc]
  split <;> rfl

/-- **What reads as a reply** is one, but for the last field of a rejection, which is not looked at. -/
theorem eq_of_decodeReply (hlen : bytes.length = REPLY_LEN) (h : decodeReply bytes = some reply) :
    reply.Fits ∧ (bytes = encodeReply reply ∨
      ∃ promised b, b < 2 ^ 64 ∧ reply = .reject promised ∧ bytes = withCrc (replyFields 1 promised.toNat b)) := by
  unfold decodeReply at h
  split at h
  · cases h
  split at h
  · cases h
  next hmagic hcrc =>
  have hfield : ∀ off len, off + len ≤ 25 → leBytes len (leNat (slice bytes off len)) = slice bytes off len := by
    intro off len hle
    have hlength : (slice bytes off len).length = len := slice_length (by rw [hlen]; exact hle)
    have hback := leBytes_leNat (slice bytes off len)
    rwa [hlength] at hback
  have hstored : (slice bytes 21 4).length = 4 := slice_length (by rw [hlen]; decide)
  -- whatever the kind, the bytes are the four fields and their checksum
  have hbytes : bytes = withCrc (replyFields (leNat (slice bytes 4 1)) (leNat (slice bytes 5 8))
      (leNat (slice bytes 13 8))) := by
    have hfields : replyFields (leNat (slice bytes 4 1)) (leNat (slice bytes 5 8)) (leNat (slice bytes 13 8)) =
        slice bytes 0 21 := by
      rw [replyFields, hfield 4 1 (by decide), hfield 5 8 (by decide), hfield 13 8 (by decide), ← not_not.mp hmagic,
        ← slice_append bytes 5 8 8, ← slice_append bytes 4 1 16, ← slice_append bytes 0 4 17]
    rw [hfields, withCrc_eq hstored (not_not.mp hcrc), ← slice_append bytes 0 21 4, slice, List.drop_zero]
    exact (List.take_of_length_le (Nat.le_of_eq hlen)).symm
  have hepoch : (UInt64.ofNat (leNat (slice bytes 5 8))).toNat = leNat (slice bytes 5 8) :=
    UInt64.toNat_ofNat_of_lt' (leNat_slice_lt bytes 5 8)
  have hseq : leNat (slice bytes 13 8) < 2 ^ 64 := leNat_slice_lt bytes 13 8
  split at h
  next hkind =>
    obtain rfl := Option.some.inj h
    refine ⟨hseq, .inl ?_⟩
    rw [encodeReply, hepoch, ← hkind]
    exact hbytes
  next hkind =>
    obtain rfl := Option.some.inj h
    refine ⟨trivial, .inr ⟨_, _, hseq, rfl, ?_⟩⟩
    rw [hepoch, ← hkind]
    exact hbytes
  · cases h

end Codec

/-- **The messages are exact.** Of the byte strings of a request's length exactly the encoded requests read as
requests, each as itself. Of those of a reply's length exactly the encoded replies read as replies, each as itself,
and beside them the rejections whose last field is not zero. No burst of up to 32 bits makes a message of a
message. -/
theorem vote_messages_exact :
    (∀ bytes : Bytes, bytes.length = REQUEST_LEN → ∀ request, decodeRequest bytes = some request ↔
      bytes = encodeRequest request) ∧
    (∀ bytes : Bytes, bytes.length = REPLY_LEN → ∀ reply, decodeReply bytes = some reply ↔
      reply.Fits ∧ (bytes = encodeReply reply ∨ ∃ promised b, b < 2 ^ 64 ∧ reply = .reject promised ∧
        bytes = withCrc (replyFields 1 promised.toNat b))) ∧
    (∀ request q, BitBurst 32 (encodeRequest request) q → decodeRequest q = none) ∧
    (∀ reply q, BitBurst 32 (encodeReply reply) q → decodeReply q = none) := by
  refine ⟨fun bytes hlen request => ⟨eq_of_decodeRequest hlen, ?_⟩,
    fun bytes hlen reply => ⟨eq_of_decodeReply hlen, ?_⟩, fun _ _ => decodeRequest_burst, fun _ _ => decodeReply_burst⟩
  · rintro rfl
    exact decodeRequest_encode request
  · rintro ⟨hfits, rfl | ⟨promised, b, hb, rfl, rfl⟩⟩
    · exact decodeReply_encode hfits
    · rw [decodeReply_replyFields 1 _ _ (by decide), leNat_leBytes_of_lt (show _ < 256 ^ 8 from promised.toNat_lt)]
      exact congrArg (fun promised => some (VoteReply.reject promised)) UInt64.ofNat_toNat

/-! ## One connection -/

/-- What one end reads of what the other wrote: the connection may be cut anywhere, and a burst of up to 32 bits
may have hit the message. -/
def Arrives (sent got : Bytes) : Prop :=
  ∃ whole n, (whole = sent ∨ BitBurst 32 sent whole) ∧ got = whole.take n

/-- `read_exact` into a buffer of `n` bytes. -/
def readExact (n : ℕ) (bytes : Bytes) : Option Bytes := if n ≤ bytes.length then some (bytes.take n) else none

/-- What the acceptor makes of what it reads. -/
def readRequest (got : Bytes) : Option VoteRequest := (readExact REQUEST_LEN got).bind decodeRequest

/-- What the candidate makes of what it reads. -/
def readReply (got : Bytes) : Option VoteReply := (readExact REPLY_LEN got).bind decodeReply

/-- The acceptor's end of a connection: a request that does not read, or a promise that cannot be persisted, gets
no reply. -/
def serveOne {γ ε : Type} (bytes : Bytes) : Prog Acceptor (Store γ) ε (Option Bytes) :=
  match readRequest bytes with
  | none => pure none
  | some request => do
    match ← Prog.attempt (handle request) with
    | .ok reply => pure (some (encodeReply reply))
    | .error _ => pure none

section Connection

variable {request request' : VoteRequest} {reply reply' : VoteReply} {sent got : Bytes}

/-- What arrives whole is what was sent, or damaged. -/
theorem readExact_arrives (h : Arrives sent got) {bytes : Bytes} (hread : readExact sent.length got = some bytes) :
    bytes = sent ∨ BitBurst 32 sent bytes := by
  obtain ⟨whole, n, hwhole, rfl⟩ := h
  have hlen : whole.length = sent.length := by
    rcases hwhole with rfl | hburst
    · rfl
    · exact hburst.length_eq
  unfold readExact at hread
  split at hread
  next hle =>
    obtain rfl := Option.some.inj hread
    rw [List.length_take] at hle
    have hall : (whole.take n).take sent.length = whole := by
      rw [List.take_take, Nat.min_eq_left (by omega), List.take_of_length_le (by omega)]
    rw [hall]
    exact hwhole
  · cases hread

/-- **The only request read on a connection is the one written there.** -/
theorem request_arrives (h : Arrives (encodeRequest request) got)
    (hread : readRequest got = some request') : request' = request := by
  obtain ⟨bytes, hbytes, hdecode⟩ := Option.bind_eq_some_iff.mp hread
  rw [← encodeRequest_length request] at hbytes
  rcases readExact_arrives h hbytes with rfl | hburst
  · rw [decodeRequest_encode] at hdecode
    exact (Option.some.inj hdecode).symm
  · rw [decodeRequest_burst hburst] at hdecode
    cases hdecode

/-- **The only reply read on a connection is the one written there.** -/
theorem reply_arrives (hfits : reply.Fits) (h : Arrives (encodeReply reply) got)
    (hread : readReply got = some reply') : reply' = reply := by
  obtain ⟨bytes, hbytes, hdecode⟩ := Option.bind_eq_some_iff.mp hread
  rw [← encodeReply_length reply] at hbytes
  rcases readExact_arrives h hbytes with rfl | hburst
  · rw [decodeReply_encode hfits] at hdecode
    exact (Option.some.inj hdecode).symm
  · rw [decodeReply_burst hburst] at hdecode
    cases hdecode

end Connection

/-- How the acceptor's end of a connection can end. -/
theorem serveOne_ok {γ : Type} {got : Bytes} {a a' : Acceptor} {w w' : World (Store γ)} {answer : Option Bytes}
    (h : (serveOne got : Prog Acceptor (Store γ) PersistError (Option Bytes)) a w = .ok answer a' w') :
    (answer = none ∧ a' = a ∧ w' = w) ∨
    ∃ request, readRequest got = some request ∧
      ((∃ reply, handle request a w = .ok reply a' w' ∧ answer = some (encodeReply reply)) ∨
        ∃ e, handle request a w = .err e a' w' ∧ answer = none) := by
  unfold serveOne at h
  cases hread : readRequest got with
  | none =>
    rw [hread] at h
    cases h
    exact .inl ⟨rfl, rfl, rfl⟩
  | some request =>
    rw [hread] at h
    obtain ⟨result, a₁, w₁, hattempt, hrest⟩ := Prog.bind_ok h
    refine .inr ⟨request, rfl, ?_⟩
    unfold Prog.attempt at hattempt
    cases hrun : handle request a w with
    | ok reply a₂ w₂ =>
      rw [hrun] at hattempt
      cases hattempt
      cases hrest
      exact .inl ⟨reply, rfl, rfl⟩
    | err e a₂ w₂ =>
      rw [hrun] at hattempt
      cases hattempt
      cases hrest
      exact .inr ⟨e, rfl, rfl⟩
    | down w₂ =>
      rw [hrun] at hattempt
      cases hattempt
    | spin =>
      rw [hrun] at hattempt
      cases hattempt

/-- Power can only be lost while a promise is persisted. -/
theorem serveOne_down {γ : Type} {got : Bytes} {a : Acceptor} {w w' : World (Store γ)}
    (h : (serveOne got : Prog Acceptor (Store γ) PersistError (Option Bytes)) a w = .down w') :
    ∃ request, handle request a w = .down w' := by
  unfold serveOne at h
  cases hread : readRequest got with
  | none =>
    rw [hread] at h
    cases h
  | some request =>
    rw [hread] at h
    refine ⟨request, ?_⟩
    replace h : Prog.andThen (Prog.attempt (handle request)) _ a w = .down w' := h
    unfold Prog.andThen Prog.attempt at h
    cases hrun : handle request a w with
    | ok reply a₂ w₂ =>
      rw [hrun] at h
      cases h
    | err e a₂ w₂ =>
      rw [hrun] at h
      cases h
    | down w₂ =>
      rw [hrun] at h
      cases h
      rfl
    | spin =>
      rw [hrun] at h
      cases h

/-! ## The network -/

/-- The high-water of a running acceptor is a seq: below `2^64`. -/
def Site.Fits (site : Site) : Prop := ∀ a, site.acceptor = some a → a.highWater < 2 ^ 64

/-- The acceptors with their disks, the candidates' bids and what they won, and what was written on which
connection: the bid that opened it, the acceptor at its other end, and the bytes. -/
structure Network where
  sites : UInt32 → Site
  bids : ℕ → Option Bid
  wins : List Win
  requests : List (ℕ × UInt32 × Bytes)
  replies : List (ℕ × UInt32 × Bytes)

namespace Network

/-- Nothing has happened; every disk is empty and no acceptor runs. -/
def start : Network := ⟨fun _ => ⟨none, ⟨Disk.empty, ()⟩⟩, fun _ => none, [], [], []⟩

/-- The candidates' side of the network. -/
def polls (c : Network) : Ballots := ⟨c.bids, [], c.wins⟩

/-- One step of a cluster of `voters`. -/
inductive Step (voters : Finset UInt32) : Network → Network → Prop where
  /-- A candidate bids for an epoch. -/
  | bid {c : Network} (i : ℕ) (epoch : UInt64) : c.bids i = none →
      Step voters c { c with bids := (c.polls.propose i epoch voters.card).bids }
  /-- A candidate connects to an acceptor and writes its request. -/
  | asked {c : Network} {b : Bid} (i : ℕ) (r : UInt32) : r ∈ voters → c.bids i = some b →
      Step voters c { c with requests := c.requests ++ [(i, r, encodeRequest b.election.request)] }
  /-- An acceptor serves a connection. -/
  | served {c : Network} {w w' : World (Store Unit)} {a a' : Acceptor} {sent got : Bytes} {answer : Option Bytes}
      (i : ℕ) (r : UInt32) : (i, r, sent) ∈ c.requests → Arrives sent got → c.sites r = ⟨some a, w.st⟩ →
      (serveOne got : Prog Acceptor (Store Unit) PersistError (Option Bytes)) a w = .ok answer a' w' →
      Step voters c { c with
        sites := Function.update c.sites r ⟨some a', w'.st⟩
        replies := c.replies ++ answer.toList.map fun bytes => (i, r, bytes) }
  /-- Power is lost while an acceptor serves a connection. -/
  | servedCut {c : Network} {w w' : World (Store Unit)} {a : Acceptor} {s : Store Unit} {sent got : Bytes}
      (i : ℕ) (r : UInt32) : (i, r, sent) ∈ c.requests → Arrives sent got → c.sites r = ⟨some a, w.st⟩ →
      (serveOne got : Prog Acceptor (Store Unit) PersistError (Option Bytes)) a w = .down w' → w'.st.PowerLoss s →
      Step voters c { c with sites := Function.update c.sites r ⟨none, s⟩ }
  /-- An acceptor does something without being asked. -/
  | site {c : Network} {s : Site} (r : UInt32) : SiteStep (c.sites r) s → s.Fits →
      Step voters c { c with sites := Function.update c.sites r s }
  /-- A candidate reads the reply on one of its connections. -/
  | counted {c : Network} {b : Bid} {sent got : Bytes} {reply : VoteReply} (i : ℕ) (r : UInt32) :
      (i, r, sent) ∈ c.replies → Arrives sent got → readReply got = some reply →
      c.bids i = some b →
      Step voters c { c with
        bids := (c.polls.deliver ⟨i, r, reply⟩ b).bids
        wins := (c.polls.deliver ⟨i, r, reply⟩ b).wins }

/-- The networks that runs lead to. -/
inductive Reachable (voters : Finset UInt32) : Network → Prop where
  | start : Reachable voters Network.start
  | step {c c' : Network} : Reachable voters c → Step voters c c' → Reachable voters c'

/-- Bid `i` has won this epoch, now or earlier, and was told to sync this far. -/
def HasWon (c : Network) (i : ℕ) (epoch : UInt64) (syncTo : ℕ) : Prop := c.polls.HasWon i epoch syncTo

/-- **The network refines the cluster**: the connections carry the cluster's messages. -/
structure Refines (voters : Finset UInt32) (c : Network) (e : Electorate) : Prop where
  sites : c.sites = e.sites
  bids : c.bids = e.ballots.bids
  wins : c.wins = e.ballots.wins
  fits : ∀ r, (c.sites r).Fits
  requests : ∀ i r bytes, (i, r, bytes) ∈ c.requests → r ∈ voters ∧
    ∃ b, c.bids i = some b ∧ bytes = encodeRequest b.election.request
  replies : c.replies = e.ballots.replies.map fun p => (p.bid, p.sender, encodeReply p.reply)
  seqs : ∀ p ∈ e.ballots.replies, p.reply.Fits

section Refines

variable {voters : Finset UInt32} {c c' : Network} {e : Electorate}

theorem refines_start : Refines voters Network.start Electorate.start where
  sites := rfl
  bids := rfl
  wins := rfl
  fits := fun _ _ h => by cases h
  requests := fun _ _ _ h => by cases h
  replies := rfl
  seqs := fun _ h => by cases h

/-- A changed site that still fits. -/
theorem fits_update (h : ∀ r, (c.sites r).Fits) {r : UInt32} {s : Site} (hs : s.Fits) :
    ∀ r', (Function.update c.sites r s r').Fits := by
  intro r'
  by_cases heq : r' = r
  · subst heq
    rw [Function.update_self]
    exact hs
  · rw [Function.update_of_ne heq]
    exact h r'

/-- A request stays the request of its bid, whatever the bid counts. -/
theorem requests_update {i : ℕ} {b b' : Bid} (h : ∀ j r bytes, (j, r, bytes) ∈ c.requests → r ∈ voters ∧
      ∃ b, c.bids j = some b ∧ bytes = encodeRequest b.election.request)
    (hb : c.bids i = some b) (hepoch : b'.election.request = b.election.request) :
    ∀ j r bytes, (j, r, bytes) ∈ c.requests → r ∈ voters ∧
      ∃ b, Function.update c.bids i (some b') j = some b ∧ bytes = encodeRequest b.election.request := by
  intro j r bytes hmem
  obtain ⟨hr, b₀, hb₀, hbytes⟩ := h j r bytes hmem
  refine ⟨hr, ?_⟩
  by_cases heq : j = i
  · subst heq
    rw [hb] at hb₀
    obtain rfl := Option.some.inj hb₀
    exact ⟨b', Function.update_self .., by rw [hbytes, hepoch]⟩
  · exact ⟨b₀, by rw [Function.update_of_ne heq]; exact hb₀, hbytes⟩

/-- **Step lemma**: a step of the network is a step of the cluster, or none. -/
theorem Refines.step (h : Refines voters c e) (hstep : Step voters c c') :
    ∃ e', (e' = e ∨ Electorate.Step voters e e') ∧ Refines voters c' e' := by
  cases hstep with
  | bid i epoch hnone =>
    refine ⟨_, .inr (.bid i epoch (h.bids ▸ hnone)), h.sites, ?_, h.wins, h.fits, ?_, h.replies, h.seqs⟩
    · show Function.update c.bids i _ = Function.update e.ballots.bids i _
      rw [h.bids]
    · intro j r bytes hmem
      obtain ⟨hr, b, hb, hbytes⟩ := h.requests j r bytes hmem
      have hne : j ≠ i := by
        rintro rfl
        rw [hnone] at hb
        cases hb
      exact ⟨hr, b, (Function.update_of_ne hne _ _).trans hb, hbytes⟩
  | asked i r hr hb =>
    refine ⟨e, .inl rfl, h.sites, h.bids, h.wins, h.fits, ?_, h.replies, h.seqs⟩
    intro j r' bytes hmem
    rcases List.mem_append.mp hmem with hold | hnew
    · exact h.requests j r' bytes hold
    · obtain ⟨rfl, rfl, rfl⟩ := by simpa using hnew
      exact ⟨hr, _, hb, rfl⟩
  | @served w w' a a' sent got answer i r hmem harrives hsite hrun =>
    obtain ⟨hr, b, hb, rfl⟩ := h.requests _ _ _ hmem
    have hbefore : (c.sites r).Fits := h.fits r
    rcases serveOne_ok hrun with ⟨rfl, rfl, rfl⟩ | ⟨request, hread, hhandled⟩
    · -- the request could not be read
      have hsame : Function.update c.sites r ⟨some a', w'.st⟩ = c.sites := by
        rw [← hsite, Function.update_eq_self]
      rw [hsame]
      refine ⟨e, .inl rfl, h.sites, h.bids, h.wins, h.fits, h.requests, ?_, h.seqs⟩
      rw [Option.toList_none, List.map_nil, List.append_nil]
      exact h.replies
    · obtain rfl := request_arrives harrives hread
      rw [hsite] at hbefore
      rcases hhandled with ⟨reply, hhandle, rfl⟩ | ⟨err, hhandle, rfl⟩
      · -- a reply goes out
        obtain ⟨hhigh, hgrant⟩ := mwp_ok (mwp_handle_highWater _ _) hhandle
        have hfits : reply.Fits := by
          cases reply with
          | grant epoch highWater =>
            rw [VoteReply.Fits, hgrant epoch highWater rfl]
            exact hbefore _ rfl
          | reject promised => trivial
        refine ⟨_, .inr (.answered i r hr (h.sites ▸ hsite) (h.bids ▸ hb) hhandle), ?_, h.bids, h.wins, ?_,
          h.requests, ?_, ?_⟩
        · rw [h.sites]
        · apply fits_update h.fits
          rintro _ ⟨rfl⟩
          rw [hhigh]
          exact hbefore _ rfl
        · rw [h.replies]
          simp [Ballots.send]
        · intro p hp
          rcases List.mem_append.mp hp with hold | hnew
          · exact h.seqs p hold
          · rw [List.mem_singleton.mp hnew]
            exact hfits
      · -- the promise could not be persisted
        have hhigh := mwp_err (mwp_handle_highWater _ _) hhandle
        have hfailed : SiteStep (e.sites r) ⟨some a', w'.st⟩ := by
          rw [← h.sites, hsite]
          exact .failed _ hhandle
        refine ⟨_, .inr (.site r hfailed), ?_, h.bids, h.wins, ?_, h.requests, ?_, h.seqs⟩
        · rw [h.sites]
        · apply fits_update h.fits
          rintro _ ⟨rfl⟩
          rw [hhigh]
          exact hbefore _ rfl
        · rw [Option.toList_none, List.map_nil, List.append_nil]
          exact h.replies
  | @servedCut w w' a s sent got i r hmem harrives hsite hrun hloss =>
    obtain ⟨request, hhandle⟩ := serveOne_down hrun
    have hcut : SiteStep (e.sites r) ⟨none, s⟩ := by
      rw [← h.sites, hsite]
      exact .cut request hhandle hloss
    refine ⟨_, .inr (.site r hcut), ?_, h.bids, h.wins, ?_, h.requests, h.replies, h.seqs⟩
    · rw [h.sites]
    · exact fits_update h.fits fun _ hnone => by cases hnone
  | site r hsite hfits =>
    refine ⟨_, .inr (.site r (h.sites ▸ hsite)), ?_, h.bids, h.wins, fits_update h.fits hfits, h.requests, h.replies,
      h.seqs⟩
    rw [h.sites]
  | counted i r hmem harrives hread hb =>
    rw [h.replies] at hmem
    obtain ⟨p, hp, heq⟩ := List.mem_map.mp hmem
    obtain ⟨rfl, rfl, rfl⟩ : p.bid = i ∧ p.sender = r ∧ encodeReply p.reply = _ := by simpa using heq
    obtain rfl := reply_arrives (h.seqs p hp) harrives hread
    refine ⟨_, .inr (.delivered p hp (h.bids ▸ hb)), h.sites, ?_, ?_, h.fits, ?_, h.replies, h.seqs⟩
    · show Function.update c.bids _ _ = Function.update e.ballots.bids _ _
      rw [h.bids]
    · show (c.polls.deliver p _).wins = (e.ballots.deliver p _).wins
      simp only [Ballots.deliver, polls, h.wins]
    · apply requests_update h.requests hb
      simp [Ballots.received, Election.request]

/-- **Run lemma**: every network a run leads to refines a cluster that a run leads to. -/
theorem Reachable.refines (h : Reachable voters c) : ∃ e, e.Reachable voters ∧ Refines voters c e := by
  induction h with
  | start => exact ⟨_, .start, refines_start⟩
  | step _ hstep ih =>
    obtain ⟨e, he, hrefines⟩ := ih
    obtain ⟨e', heq | hestep, hrefines'⟩ := hrefines.step hstep
    · exact ⟨e, he, heq ▸ hrefines'⟩
    · exact ⟨e', he.step hestep, hrefines'⟩

/-- **At most one winner, whatever the connections do.** In every reachable network two bids that ever won the same
epoch are one bid; behind every win stands a majority of acceptors that wrote a grant of the epoch to that bid,
none with a high-water above what it must sync to, and none of which has forgotten the promise; and a bid counts
nothing but replies that were written on its own connections. -/
theorem connections_elect_one (h : Reachable voters c) :
    (∀ i j epoch s s', c.HasWon i epoch s → c.HasWon j epoch s' → i = j) ∧
    (∀ i epoch syncTo, c.HasWon i epoch syncTo → ∃ granters ⊆ voters, majority voters.card ≤ granters.card ∧
      ∀ r ∈ granters, (∃ highWater ≤ syncTo, (i, r, encodeReply (.grant epoch highWater)) ∈ c.replies) ∧
        ∀ a, (c.sites r).acceptor = some a → epoch ≤ a.promised) ∧
    (∀ i b, c.bids i = some b → ∀ p ∈ b.delivered, (i, p.1, encodeReply p.2) ∈ c.replies) := by
  obtain ⟨e, he, hrefines⟩ := h.refines
  have hinv := he.inv
  have hbacked : ∀ {i epoch s}, c.HasWon i epoch s → e.ballots.Backed voters i epoch s := by
    intro i epoch s hwon
    apply hinv.ballots.backed_of_hasWon
    rcases hwon with hwin | ⟨b, hb, hout⟩
    · exact .inl (hrefines.wins ▸ hwin)
    · exact .inr ⟨b, hrefines.bids ▸ hb, hout⟩
  have hwritten : ∀ p ∈ e.ballots.replies, (p.bid, p.sender, encodeReply p.reply) ∈ c.replies := by
    intro p hp
    rw [hrefines.replies]
    exact List.mem_map_of_mem hp
  refine ⟨fun i j epoch s s' hi hj => hinv.winner_unique (hbacked hi) (hbacked hj), ?_, ?_⟩
  · intro i epoch syncTo hwon
    obtain ⟨granters, hsub, hmaj, hgrants⟩ := hbacked hwon
    refine ⟨granters, hsub, hmaj, fun r hr => ?_⟩
    obtain ⟨highWater, hle, hsent⟩ := hgrants r hr
    refine ⟨⟨highWater, hle, hwritten _ hsent⟩, fun a ha => ?_⟩
    -- the grant is remembered
    apply (hinv.sites r).process a (hrefines.sites ▸ ha)
    exact List.mem_filterMap.mpr ⟨_, hsent, by simp [Reply.grants]⟩
  · intro i b hb p hp
    exact hwritten _ ((hinv.ballots.bids i b (hrefines.bids ▸ hb)).sent p hp)

/-- An acceptor with an empty disk is opened, and grants epoch 5 on a connection of bid `i`. -/
theorem Reachable.vote (h : Reachable voters c) {i : ℕ} {r : UInt32} {b : Bid} (hr : r ∈ voters)
    (hsite : c.sites r = ⟨none, ⟨Disk.empty, ()⟩⟩) (hb : c.bids i = some b) (hepoch : b.election.epoch = 5) :
    ∃ c', Reachable voters c' ∧ c'.bids = c.bids ∧ c'.replies = c.replies ++ [(i, r, encodeReply (.grant 5 0))] ∧
      ∀ r', r' ≠ r → c'.sites r' = c.sites r' := by
  have hopen : openAt () (World.healthy (⟨Disk.empty, ()⟩ : Store Unit)) =
      .ok Acceptor.new () (World.healthy ⟨Disk.empty, ()⟩) := rfl
  have hup := Reachable.step h (.site r (hsite ▸ SiteStep.reopened hopen) fun a ha => by cases ha; decide)
  have hasked := hup.step (.asked i r hr hb)
  have hanswer : ((serveOne (encodeRequest ⟨5⟩) : Prog Acceptor (Store Unit) PersistError (Option Bytes))
      Acceptor.new (World.healthy ⟨Disk.empty, ()⟩)).returned.map (·.1) =
      some (some (encodeReply (.grant 5 0))) := by decide +kernel
  obtain ⟨⟨answer, a', w'⟩, hrun, heq⟩ := Option.map_eq_some_iff.mp hanswer
  rw [Outcome.returned_eq_some] at hrun
  obtain rfl : answer = some (encodeReply (.grant 5 0)) := heq
  have hwhole : Arrives (encodeRequest b.election.request) (encodeRequest ⟨5⟩) := by
    rw [Election.request, hepoch]
    exact ⟨_, 16, .inl rfl, by rw [List.take_of_length_le (by simp [REQUEST_LEN])]⟩
  refine ⟨_, hasked.step (.served i r (List.mem_append_right _ (List.mem_singleton.mpr rfl)) hwhole
    (Function.update_self ..) hrun), rfl, rfl, fun r' hne => ?_⟩
  simp [Function.update_of_ne hne]

end Refines

/-- Two of three acceptors grant epoch 5 to bid 0, and it wins. -/
theorem connections_elect_one_of_run : ∃ c : Network, c.HasWon 0 5 0 ∧
    (∀ i j epoch s s', c.HasWon i epoch s → c.HasWon j epoch s' → i = j) ∧
    (∀ i epoch syncTo, c.HasWon i epoch syncTo → ∃ granters ⊆ ({0, 1, 2} : Finset UInt32), majority 3 ≤ granters.card ∧
      ∀ r ∈ granters, (∃ highWater ≤ syncTo, (i, r, encodeReply (.grant epoch highWater)) ∈ c.replies) ∧
        ∀ a, (c.sites r).acceptor = some a → epoch ≤ a.promised) ∧
    (∀ i b, c.bids i = some b → ∀ p ∈ b.delivered, (i, p.1, encodeReply p.2) ∈ c.replies) := by
  have h₁ : Reachable {0, 1, 2} _ := .step .start (.bid 0 5 rfl)
  have hb₁ : (start.polls.propose 0 5 3).bids 0 = some ⟨Election.new 5 3, []⟩ := rfl
  obtain ⟨c₂, h₂, hbids₂, hreplies₂, hsites₂⟩ :=
    h₁.vote (i := 0) (r := 0) (b := ⟨Election.new 5 3, []⟩) (by decide) rfl hb₁ rfl
  have hb₂ : c₂.bids 0 = some ⟨Election.new 5 3, []⟩ := (congrFun hbids₂ 0).trans hb₁
  obtain ⟨c₃, h₃, hbids₃, hreplies₃, -⟩ := h₂.vote (r := 1) (by decide) (hsites₂ 1 (by decide)) hb₂ rfl
  have hwhole : Arrives (encodeReply (.grant 5 0)) (encodeReply (.grant 5 0)) :=
    ⟨_, 25, .inl rfl, by rw [List.take_of_length_le (by simp [REPLY_LEN])]⟩
  have hread : readReply (encodeReply (.grant 5 0)) = some (.grant 5 0) := by
    decide +kernel
  -- both grants reach the bid
  obtain ⟨c₄, h₄, hb₄, hreplies₄⟩ : ∃ c', Reachable {0, 1, 2} c' ∧
      c'.bids 0 = some (Ballots.received ⟨Election.new 5 3, []⟩ ⟨0, 0, .grant 5 0⟩) ∧ c'.replies = c₃.replies :=
    ⟨_, h₃.step (.counted 0 0 (by rw [hreplies₃, hreplies₂]; simp) hwhole hread ((congrFun hbids₃ 0).trans hb₂)),
      Ballots.deliver_self c₃.polls ⟨0, 0, .grant 5 0⟩ _, rfl⟩
  have h₅ := h₄.step (.counted 0 1 (by simp [hreplies₄, hreplies₃]) hwhole hread hb₄)
  refine ⟨_, ?_, connections_elect_one h₅⟩
  exact .inr ⟨_, Ballots.deliver_self c₄.polls ⟨0, 1, .grant 5 0⟩ _, by decide⟩

end Network

end Ticktape.Cluster
