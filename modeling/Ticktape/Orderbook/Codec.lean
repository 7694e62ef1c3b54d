import Ticktape.Orderbook.Session

/-!
# The order book as a service

The codecs that the commands and the snapshot derive, and the book behind the service contract. A command always
reads back; a snapshot does as long as the `u32` length prefixes can count its levels and queues, which they can
while fewer than `2^32` orders rest.

A service steps in one piece, so a panic is a state of its own, and nothing happens to it any more.
-/

namespace Ticktape.Orderbook

open Ticktape.Lib Ticktape.Core Std

/-! ## Commands -/

/-- A discriminant. -/
def encodeTag (tag : ℕ) : Bytes := leBytes 2 tag

def decodeTag (buf : Bytes) : Except CodecError (ℕ × Bytes) :=
  match take buf 2 with
  | .error e => .error e
  | .ok (bytes, rest) => .ok (leNat bytes, rest)

theorem decodeTag_append {tag : ℕ} (h : tag < 2 ^ 16) (rest : Bytes) :
    decodeTag (encodeTag tag ++ rest) = .ok (tag, rest) := by
  rw [decodeTag, encodeTag, take_append rest (leBytes_length 2 tag)]
  simp only [leNat_leBytes_of_lt (show tag < 256 ^ 2 from h)]

instance : Encode Side where
  encode
    | .buy => encodeTag 0
    | .sell => encodeTag 1

instance : Decode Side where
  decode buf := do
    let (tag, rest) ← decodeTag buf
    if tag = 0 then .ok (.buy, rest)
    else if tag = 1 then .ok (.sell, rest)
    else .error (.invalidValue "enum discriminant")

instance : LawfulCodec Side where
  decode_encode v rest := by
    cases v with
    | buy =>
      show (decodeTag (encodeTag 0 ++ rest) >>= _) = _
      rw [decodeTag_append (by decide)]
      rfl
    | sell =>
      show (decodeTag (encodeTag 1 ++ rest) >>= _) = _
      rw [decodeTag_append (by decide)]
      rfl

instance : Encode Cmd where
  encode
    | .submit id side price qty => encodeTag 0 ++ encode (id, side, price, qty)
    | .submitGtd id side price qty expireAt => encodeTag 1 ++ encode (id, side, price, qty, expireAt)
    | .cancel id => encodeTag 2 ++ encode id

instance : Decode Cmd where
  decode buf := do
    let (tag, rest) ← decodeTag buf
    if tag = 0 then do
      let ((id, side, price, qty), rest) ← (decode rest : Except CodecError ((UInt64 × Side × UInt32 × UInt32) × Bytes))
      .ok (.submit id side price qty, rest)
    else if tag = 1 then do
      let ((id, side, price, qty, expireAt), rest) ←
        (decode rest : Except CodecError ((UInt64 × Side × UInt32 × UInt32 × UInt64) × Bytes))
      .ok (.submitGtd id side price qty expireAt, rest)
    else if tag = 2 then do
      let (id, rest) ← (decode rest : Except CodecError (UInt64 × Bytes))
      .ok (.cancel id, rest)
    else .error (.invalidValue "enum discriminant")

/-- **Every command reads back.** -/
instance : LawfulCodec Cmd where
  decode_encode v rest := by
    cases v with
    | submit id side price qty =>
      show (decodeTag ((encodeTag 0 ++ encode (id, side, price, qty)) ++ rest) >>= _) = _
      rw [List.append_assoc, decodeTag_append (by decide)]
      have hfields := LawfulCodec.decode_encode (id, side, price, qty) rest
      simp only [bind, Except.bind, hfields]
      rfl
    | submitGtd id side price qty expireAt =>
      show (decodeTag ((encodeTag 1 ++ encode (id, side, price, qty, expireAt)) ++ rest) >>= _) = _
      rw [List.append_assoc, decodeTag_append (by decide)]
      have hfields := LawfulCodec.decode_encode (id, side, price, qty, expireAt) rest
      simp only [bind, Except.bind, hfields]
      rfl
    | cancel id =>
      show (decodeTag ((encodeTag 2 ++ encode id) ++ rest) >>= _) = _
      rw [List.append_assoc, decodeTag_append (by decide)]
      have hfields := LawfulCodec.decode_encode id rest
      simp only [bind, Except.bind, hfields]
      rfl

/-! ## Snapshots -/

instance : Encode BookSnapshot where
  encode s := encode (s.bids, s.asks, s.acceptedShares, s.tradedShares, s.canceledShares)

instance : Decode BookSnapshot where
  decode buf := do
    let ((bids, asks, accepted, traded, canceled), rest) ← (decode buf : Except CodecError
      ((List (UInt32 × List (UInt64 × UInt32)) × List (UInt32 × List (UInt64 × UInt32)) × UInt64 × UInt64 × UInt64) ×
        Bytes))
    .ok (⟨bids, asks, accepted, traded, canceled⟩, rest)

/-- A value reads back, whatever follows it. -/
def ReadsBack {α : Type} [Encode α] [Decode α] (v : α) : Prop := ∀ rest, decode (encode v ++ rest) = .ok (v, rest)

theorem readsBack_pair {α β : Type} [Encode α] [Decode α] [Encode β] [Decode β] {a : α} {b : β} (ha : ReadsBack a)
    (hb : ReadsBack b) : ReadsBack (a, b) := by
  intro rest
  have hfirst := ha (encode b ++ rest)
  rw [← List.append_assoc] at hfirst
  exact decode_pair hfirst (hb rest)

/-- A vector reads back if its elements do and its length prefix can count them. -/
theorem readsBack_list {α : Type} [Encode α] [Decode α] {v : List α} (hlen : v.length < 2 ^ 32)
    (h : ∀ a ∈ v, ReadsBack a) : ReadsBack v := by
  have hitems : ∀ rest, decodeItems v.length (v.flatMap encode ++ rest) = .ok (v, rest) := by
    clear hlen
    induction v with
    | nil => exact fun _ => rfl
    | cons a v ih =>
      intro rest
      rw [List.flatMap_cons, List.append_assoc, List.length_cons, decodeItems, h a (List.mem_cons_self ..)]
      simp only [ih fun b hb => h b (List.mem_cons_of_mem _ hb)]
  intro rest
  show decodeVec ((leBytes 4 v.length ++ v.flatMap encode) ++ rest) = _
  rw [List.append_assoc, decodeVec, take_append _ (leBytes_length 4 _)]
  simp only [leNat_leBytes_of_lt (show v.length < 256 ^ 4 from hlen)]
  exact hitems rest

theorem readsBack_of_lawful {α : Type} [Encode α] [Decode α] [LawfulCodec α] (v : α) : ReadsBack v :=
  LawfulCodec.decode_encode v

/-- Queues that are not empty are no more than what they hold together. -/
theorem length_le_flatMap {κ α : Type} {entries : List (κ × List α)} (h : ∀ e ∈ entries, e.2 ≠ []) :
    entries.length ≤ (entries.flatMap (·.2)).length := by
  induction entries with
  | nil => exact Nat.le_refl _
  | cons e entries ih =>
    have hpos := List.length_pos_of_ne_nil (h e (List.mem_cons_self ..))
    have htail := ih fun e he => h e (List.mem_cons_of_mem _ he)
    rw [List.flatMap_cons, List.length_append, List.length_cons]
    omega

/-- A queue is no longer than all of them together. -/
theorem length_flatMap_of_mem {κ α : Type} {entries : List (κ × List α)} {e : κ × List α} (h : e ∈ entries) :
    e.2.length ≤ (entries.flatMap (·.2)).length := by
  induction entries with
  | nil => cases h
  | cons e' entries ih =>
    rw [List.flatMap_cons, List.length_append]
    rcases List.mem_cons.mp h with rfl | h
    · exact Nat.le_add_right ..
    · exact Nat.le_add_left_of_le (ih h)

/-- The queues of a book are no longer than its index is large. -/
theorem readsBack_serialize {b : Book} {l : List Order} (h : Represents b l) (hsize : b.index.size < 2 ^ 32) (s : Side) :
    ReadsBack (Book.serialize (b.side s)) := by
  have horders : (Book.resting (b.side s)).length ≤ b.index.size := by
    rw [(resting_perm h).length_eq, List.length_map, size_index h]
    exact List.length_filter_le ..
  apply readsBack_list
  · have hlevels : (b.side s).toList.length ≤ (Book.resting (b.side s)).length :=
      length_le_flatMap fun e he => (mem_toList h he).2
    rw [Book.serialize, List.length_map]
    omega
  · intro e he
    obtain ⟨⟨p, level⟩, hmem, rfl⟩ := List.mem_map.mp he
    have hlevel : level.length ≤ (Book.resting (b.side s)).length := length_flatMap_of_mem hmem
    apply readsBack_pair (readsBack_of_lawful p)
    apply readsBack_list
    · rw [List.length_map]
      show level.length < 2 ^ 32
      omega
    · exact fun o _ => readsBack_of_lawful o

/-- **A snapshot reads back** while fewer than `2^32` orders rest. -/
theorem decodeAll_snapshot {b : Book} {l : List Order} (h : Represents b l) (hsize : b.index.size < 2 ^ 32) :
    decodeAll (encode b.snapshot) = .ok b.snapshot := by
  have hfields : ReadsBack (b.snapshot.bids, b.snapshot.asks, b.snapshot.acceptedShares, b.snapshot.tradedShares,
      b.snapshot.canceledShares) :=
    readsBack_pair (readsBack_serialize h hsize .buy) (readsBack_pair (readsBack_serialize h hsize .sell)
      (readsBack_of_lawful (b.snapshot.acceptedShares, b.snapshot.tradedShares, b.snapshot.canceledShares)))
  have hall := hfields []
  rw [List.append_nil] at hall
  have hdecode : (decode (encode b.snapshot) : Except CodecError (BookSnapshot × Bytes)) = .ok (b.snapshot, []) := by
    show ((decode (encode (b.snapshot.bids, b.snapshot.asks, b.snapshot.acceptedShares, b.snapshot.tradedShares,
      b.snapshot.canceledShares))) >>= _) = _
    rw [hall]
    rfl
  rw [decodeAll, hdecode]
  rfl

/-- **A snapshot is the book**: whatever session led to it, the bytes of its snapshot restore the book itself, levels,
queues, index and counters. -/
theorem snapshot_restores {events : List Event} {b : Book} {answers : List (List Evt × List TimerReq)}
    (hrun : Book.run .genesis events = some (b, answers)) (hsize : b.index.size < 2 ^ 32) :
    (decodeAll (encode b.snapshot) : Except CodecError BookSnapshot).map Book.restore = .ok b := by
  have hsound := run_sound sound_genesis hrun
  rw [decodeAll_snapshot hsound.toRepresents hsize, Except.map, restore_eq hsound.toRepresents]

/-- The book after two asks and a bid that takes part of one of them. -/
theorem snapshot_restores_of_three : ∃ b answers,
    Book.run .genesis [.command (.submit 1 .sell 10 5), .command (.submit 2 .sell 10 5),
      .command (.submitGtd 3 .buy 10 7 100)] = some (b, answers) ∧
    (decodeAll (encode b.snapshot) : Except CodecError BookSnapshot).map Book.restore = .ok b := by
  have hplay : (Book.run .genesis [.command (.submit 1 .sell 10 5), .command (.submit 2 .sell 10 5),
      .command (.submitGtd 3 .buy 10 7 100)]).any (fun p => decide (p.1.index.size < 2 ^ 32)) = true := by
    decide +kernel
  obtain ⟨⟨b, answers⟩, hrun, hsize⟩ := (Option.any_eq_true _ _).mp hplay
  exact ⟨b, answers, hrun, snapshot_restores hrun (of_decide_eq_true hsize)⟩

/-! ## The service -/

/-- A step of a book that may panic. -/
def stepped : Option (Step Book Evt) → Step (Option Book) Evt
  | some step => ⟨some step.state, step.outputs, step.timers⟩
  | none => ⟨none, [], []⟩

/-- The order book. A process that panicked takes no step and no snapshot. -/
def orderbook : Service where
  State := Option Book
  Input := Cmd
  Output := Evt
  Snapshot := BookSnapshot
  Config := Unit
  SCHEMA_VERSION := 0
  genesis _ := some .genesis
  apply
    | some b, _, cmd, _ => stepped (b.apply cmd)
    | none, _, _, _ => ⟨none, [], []⟩
  onTimer
    | some b, id, _ => stepped (b.onTimer id)
    | none, _, _ => ⟨none, [], []⟩
  snapshot b := (b.getD .genesis).snapshot
  restore snap _ := some (.restore snap)

end Ticktape.Orderbook
