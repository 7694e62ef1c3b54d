import Mathlib.Data.Nat.ModEq
import Ticktape.Lib.Bytes
import Ticktape.Lib.Fifo

/-!
# The shared-memory ring

A memory-mapped file with a lock-free ring of slots between one producer and one consumer
(`ticktape-transport/src/shm.rs`). Each side runs its own steps, a cursor load, a copy into or out of
a slot, or a cursor store, and the two interleave freely. Both decide from a copy of the other side's
cursor that may be stale by the time they act on it.

A stale copy errs on the safe side: the producer sees no more room than there is, the consumer no more
packets. Every slot between the cursors therefore holds a whole packet, the slots the producer writes
lie outside them, and what the two sides return is a history of a bounded queue (`ring_is_fifo`).
-/

namespace Ticktape.Transport

open Ticktape.Lib

/-! ## Memory -/

/-- Copy `bytes` to `start`. -/
def copyTo (mem : ℕ → UInt8) (start : ℕ) (bytes : Bytes) : ℕ → UInt8 := fun a =>
  if start ≤ a then bytes.getD (a - start) (mem a) else mem a

/-- The `len` bytes from `start` on. -/
def readAt (mem : ℕ → UInt8) (start len : ℕ) : Bytes := (List.range len).map fun i => mem (start + i)

@[simp] theorem readAt_length (mem : ℕ → UInt8) (start len : ℕ) :
    (readAt mem start len).length = len := by
  simp [readAt]

/-- What was copied is read back. -/
theorem readAt_copyTo (mem : ℕ → UInt8) (start : ℕ) (bytes : Bytes) :
    readAt (copyTo mem start bytes) start bytes.length = bytes := by
  apply List.ext_getElem (readAt_length ..)
  intro i hi hlt
  simp [readAt, copyTo, List.getD_eq_getElem?_getD, hlt]

/-- A copy changes nothing outside its range. -/
theorem readAt_copyTo_apart (mem : ℕ → UInt8) {start from' len : ℕ} {bytes : Bytes}
    (h : from' + len ≤ start ∨ start + bytes.length ≤ from') :
    readAt (copyTo mem start bytes) from' len = readAt mem from' len := by
  apply List.ext_getElem (by simp)
  intro i hi hlt
  rw [readAt_length] at hi
  simp only [readAt, List.getElem_map, List.getElem_range, copyTo]
  split
  next hle =>
    rw [List.getD_eq_getElem?_getD, List.getElem?_eq_none (by omega), Option.getD_none]
  · rfl

/-! ## The ring -/

def HEADER_BYTES : ℕ := 64

/-- The layout of a ring file. -/
structure ShmRing where
  /-- Number of slots. -/
  capacity : UInt64
  /-- Bytes per slot, with the length prefix. -/
  slotBytes : ℕ
  powerOfTwo : ∃ k, capacity.toNat = 2 ^ k
  slotBytes_ge : 4 ≤ slotBytes

namespace ShmRing

/-- Where the slot of a cursor value starts. -/
def slotStart (ring : ShmRing) (seq : UInt64) : ℕ :=
  HEADER_BYTES + (seq &&& (ring.capacity - 1)).toNat * ring.slotBytes

/-- Where the producer is in `publish`. -/
inductive Producer where
  | idle
  /-- It has loaded its own cursor. -/
  | loadedWrite (packet : Bytes) (write : UInt64)
  /-- It has seen room, and is to copy the length. -/
  | writeLen (packet : Bytes) (write : UInt64)
  /-- It is to copy the packet. -/
  | writePayload (packet : Bytes) (write : UInt64)
  /-- The slot is filled; it is to store its cursor. -/
  | filled (packet : Bytes) (write : UInt64)

/-- Where the consumer is in `try_recv`. -/
inductive Consumer where
  | idle
  /-- It has loaded its own cursor. -/
  | loadedRead (bufLen : ℕ) (read : UInt64)
  /-- It has seen a packet, and is to copy the length. -/
  | nonempty (bufLen : ℕ) (read : UInt64)
  /-- It is to copy `n` bytes of the packet. -/
  | readLen (n : ℕ) (read : UInt64)
  /-- The slot is drained; it is to store its cursor. -/
  | drained (buf : Bytes) (read : UInt64)

/-- The shared file and the two sides; `log` is what their calls returned so far. -/
structure State where
  mem : ℕ → UInt8
  write : UInt64
  read : UInt64
  producer : Producer
  consumer : Consumer
  log : List (Fifo.Return Bytes)

/-- Both cursors at `cursor`, nobody at work. -/
def start (mem : ℕ → UInt8) (cursor : UInt64) : State := ⟨mem, cursor, cursor, .idle, .idle, []⟩

/-- Which side moves. -/
inductive Event where
  /-- The producer calls `publish` and loads its cursor. -/
  | publish (packet : Bytes)
  /-- The producer takes its next step. -/
  | producer
  /-- The consumer calls `try_recv` with a buffer of `bufLen` bytes and loads its cursor. -/
  | tryRecv (bufLen : ℕ)
  /-- The consumer takes its next step. -/
  | consumer

/-- One step of `publish`. -/
def publishStep (ring : ShmRing) (s : State) : Option State :=
  match s.producer with
  | .idle => none
  | .loadedWrite packet write =>
    if write - s.read ≥ ring.capacity then
      -- full
      some { s with producer := .idle, log := s.log ++ [.put packet false] }
    else some { s with producer := .writeLen packet write }
  | .writeLen packet write =>
    some { s with
      mem := copyTo s.mem (ring.slotStart write) (leBytes 4 packet.length)
      producer := .writePayload packet write }
  | .writePayload packet write =>
    some { s with
      mem := copyTo s.mem (ring.slotStart write + 4) packet
      producer := .filled packet write }
  | .filled packet write =>
    some { s with write := write + 1, producer := .idle, log := s.log ++ [.put packet true] }

/-- One step of `try_recv`. -/
def tryRecvStep (ring : ShmRing) (s : State) : Option State :=
  match s.consumer with
  | .idle => none
  | .loadedRead bufLen read =>
    if read = s.write then
      -- empty
      some { s with consumer := .idle, log := s.log ++ [.take none] }
    else some { s with consumer := .nonempty bufLen read }
  | .nonempty bufLen read =>
    some { s with consumer := .readLen (min (leNat (readAt s.mem (ring.slotStart read) 4)) bufLen) read }
  | .readLen n read =>
    -- a longer packet would be out of the slot's range
    if 4 + n ≤ ring.slotBytes then
      some { s with consumer := .drained (readAt s.mem (ring.slotStart read + 4) n) read }
    else none
  | .drained buf read =>
    some { s with read := read + 1, consumer := .idle, log := s.log ++ [.take (some buf)] }

/-- One step of either side; `none` if that side cannot take it. -/
def step (ring : ShmRing) (s : State) : Event → Option State
  | .publish packet =>
    match s.producer with
    | .idle =>
      -- packets fit their slot
      if packet.length + 4 ≤ ring.slotBytes then
        some { s with producer := .loadedWrite packet s.write }
      else none
    | _ => none
  | .producer => ring.publishStep s
  | .tryRecv bufLen =>
    match s.consumer with
    | .idle => some { s with consumer := .loadedRead bufLen s.read }
    | _ => none
  | .consumer => ring.tryRecvStep s

/-- An interleaving of the two sides. -/
def run (ring : ShmRing) (s : State) : List Event → Option State
  | [] => some s
  | e :: es => (ring.step s e).bind fun s' => ring.run s' es

/-! ## Slots -/

variable {ring : ShmRing}

theorem capacity_pos (ring : ShmRing) : 0 < ring.capacity.toNat := by
  obtain ⟨k, hk⟩ := ring.powerOfTwo
  rw [hk]
  exact Nat.two_pow_pos k

/-- Masking a cursor takes it modulo the capacity. -/
theorem toNat_mask (ring : ShmRing) (seq : UInt64) :
    (seq &&& (ring.capacity - 1)).toNat = seq.toNat % ring.capacity.toNat := by
  have hone : (1 : UInt64) ≤ ring.capacity := UInt64.le_iff_toNat_le.mpr ring.capacity_pos
  obtain ⟨k, hk⟩ := ring.powerOfTwo
  rw [UInt64.toNat_and, UInt64.toNat_sub_of_le _ _ hone, hk]
  exact Nat.and_two_pow_sub_one_eq_mod _ k

/-- The capacity divides the range of the cursors, so the slots go round when a cursor wraps. -/
theorem capacity_dvd (ring : ShmRing) : ring.capacity.toNat ∣ 2 ^ 64 := by
  obtain ⟨k, hk⟩ := ring.powerOfTwo
  have hlt : 2 ^ k < 2 ^ 64 := hk ▸ ring.capacity.toNat_lt
  rw [hk]
  exact Nat.pow_dvd_pow 2 (Nat.le_of_lt ((Nat.pow_lt_pow_iff_right (by decide)).mp hlt))

theorem capacity_le (ring : ShmRing) : ring.capacity.toNat < 2 ^ 64 := ring.capacity.toNat_lt

/-- The cursor `n` places on. -/
def ahead (seq : UInt64) (n : ℕ) : UInt64 := seq + UInt64.ofNat n

@[simp] theorem ahead_zero (seq : UInt64) : ahead seq 0 = seq := by
  simp [ahead]

theorem ahead_succ (seq : UInt64) (n : ℕ) : ahead (seq + 1) n = ahead seq (n + 1) := by
  rw [ahead, ahead, UInt64.ofNat_add, UInt64.add_assoc, UInt64.add_comm 1]
  rfl

theorem ahead_add_one (seq : UInt64) (n : ℕ) : ahead seq n + 1 = ahead seq (n + 1) := by
  rw [ahead, ahead, UInt64.ofNat_add, UInt64.add_assoc]
  rfl

/-- The distance of two cursors, even across the end of their range. -/
theorem ahead_sub (seq : UInt64) (n : ℕ) : ahead seq n - seq = UInt64.ofNat n := by
  rw [ahead, UInt64.add_comm, UInt64.add_sub_cancel]

/-- Slots less than a capacity apart are different. -/
theorem slot_ne (ring : ShmRing) (seq : UInt64) {i j : ℕ} (hlt : i < j)
    (hnear : j < i + ring.capacity.toNat) :
    (ahead seq i).toNat % ring.capacity.toNat ≠ (ahead seq j).toNat % ring.capacity.toNat := by
  have hmod : ∀ n, (ahead seq n).toNat % ring.capacity.toNat =
      (seq.toNat + n) % ring.capacity.toNat := by
    intro n
    rw [ahead, UInt64.toNat_add, UInt64.toNat_ofNat', Nat.mod_mod_of_dvd _ ring.capacity_dvd,
      Nat.add_mod, Nat.mod_mod_of_dvd _ ring.capacity_dvd, ← Nat.add_mod]
  rw [hmod, hmod]
  intro heq
  have hdvd : ring.capacity.toNat ∣ (seq.toNat + j) - (seq.toNat + i) :=
    (Nat.modEq_iff_dvd' (by omega)).mp heq
  have hle := Nat.le_of_dvd (by omega) hdvd
  omega

/-- Different slots lie apart. -/
theorem slots_apart (ring : ShmRing) {a b : UInt64}
    (hne : a.toNat % ring.capacity.toNat ≠ b.toNat % ring.capacity.toNat) :
    ring.slotStart a + ring.slotBytes ≤ ring.slotStart b ∨
      ring.slotStart b + ring.slotBytes ≤ ring.slotStart a := by
  rw [slotStart, slotStart, toNat_mask, toNat_mask]
  generalize a.toNat % ring.capacity.toNat = i at hne
  generalize b.toNat % ring.capacity.toNat = j at hne
  rcases Nat.lt_or_gt_of_ne hne with hlt | hgt
  · have := Nat.mul_le_mul_right ring.slotBytes (Nat.succ_le_of_lt hlt)
    rw [Nat.succ_mul] at this
    omega
  · have := Nat.mul_le_mul_right ring.slotBytes (Nat.succ_le_of_lt hgt)
    rw [Nat.succ_mul] at this
    omega

/-- The slot of `seq` holds a whole packet. -/
structure Holds (ring : ShmRing) (mem : ℕ → UInt8) (seq : UInt64) (packet : Bytes) : Prop where
  len : readAt mem (ring.slotStart seq) 4 = leBytes 4 packet.length
  payload : readAt mem (ring.slotStart seq + 4) packet.length = packet

/-- Packets that fit a slot, and whose length fits its prefix. -/
structure FitsSlot (ring : ShmRing) (packet : Bytes) : Prop where
  slot : packet.length + 4 ≤ ring.slotBytes
  short : packet.length < 2 ^ 32

/-- A copy within one slot leaves another as it was. -/
theorem Holds.copy {mem : ℕ → UInt8} {seq other : UInt64} {packet bytes : Bytes} {off : ℕ}
    (h : ring.Holds mem seq packet) (hfits : ring.FitsSlot packet)
    (hne : seq.toNat % ring.capacity.toNat ≠ other.toNat % ring.capacity.toNat)
    (hin : off + bytes.length ≤ ring.slotBytes) :
    ring.Holds (copyTo mem (ring.slotStart other + off) bytes) seq packet := by
  have hapart := ring.slots_apart hne
  have hslot := hfits.slot
  constructor
  · rw [readAt_copyTo_apart _ (by omega)]
    exact h.len
  · rw [readAt_copyTo_apart _ (by omega)]
    exact h.payload

/-! ## The invariant -/

/-- What the producer knows: its cursor, and from the moment it saw room that there is room for the
packet; and what it has already copied into the slot. -/
def ProducerOk (ring : ShmRing) (s : State) (unread : List Bytes) : Prop :=
  match s.producer with
  | .idle => True
  | .loadedWrite packet write => write = s.write ∧ ring.FitsSlot packet
  | .writeLen packet write =>
    write = s.write ∧ ring.FitsSlot packet ∧ unread.length < ring.capacity.toNat
  | .writePayload packet write =>
    write = s.write ∧ ring.FitsSlot packet ∧ unread.length < ring.capacity.toNat ∧
      readAt s.mem (ring.slotStart write) 4 = leBytes 4 packet.length
  | .filled packet write =>
    write = s.write ∧ ring.FitsSlot packet ∧ unread.length < ring.capacity.toNat ∧
      ring.Holds s.mem write packet

/-- What the consumer knows: its cursor, and from the moment it saw a packet which one it is. -/
def ConsumerOk (s : State) (unread : List Bytes) : Prop :=
  match s.consumer with
  | .idle => True
  | .loadedRead _ read => read = s.read
  | .nonempty _ read => read = s.read ∧ unread ≠ []
  | .readLen n read => read = s.read ∧ ∃ packet, unread.head? = some packet ∧ n = packet.length
  | .drained buf read => read = s.read ∧ unread.head? = some buf

/-- **The ring holds the packets `unread`**, in the slots between the cursors, and the returns so far
are those of a bounded queue that holds them. -/
structure Inv (ring : ShmRing) (s : State) (unread : List Bytes) : Prop where
  log : Fifo.run ring.capacity.toNat [] s.log = some unread
  write : s.write = ahead s.read unread.length
  fits : ∀ packet ∈ unread, ring.FitsSlot packet
  slots : ∀ i packet, unread[i]? = some packet → ring.Holds s.mem (ahead s.read i) packet
  producer : ring.ProducerOk s unread
  consumer : ConsumerOk s unread

variable {s s' : State} {unread : List Bytes}

theorem Inv.length_le (h : ring.Inv s unread) : unread.length ≤ ring.capacity.toNat :=
  Fifo.run_le h.log (Nat.zero_le _)

/-- The distance of the cursors is the number of unread packets. -/
theorem Inv.distance (h : ring.Inv s unread) : (s.write - s.read).toNat = unread.length := by
  rw [h.write, ahead_sub, UInt64.toNat_ofNat_of_lt' (Nat.lt_of_le_of_lt h.length_le ring.capacity_le)]

/-- The slot that is written is none of the unread ones. -/
theorem Inv.write_apart (h : ring.Inv s unread) (hroom : unread.length < ring.capacity.toNat) {i : ℕ}
    (hi : i < unread.length) :
    (ahead s.read i).toNat % ring.capacity.toNat ≠ s.write.toNat % ring.capacity.toNat := by
  rw [h.write]
  exact ring.slot_ne s.read hi (by omega)

theorem inv_start (ring : ShmRing) (mem : ℕ → UInt8) (cursor : UInt64) :
    ring.Inv (start mem cursor) [] where
  log := rfl
  write := (ahead_zero cursor).symm
  fits := by simp
  slots := by simp
  producer := trivial
  consumer := trivial

/-! ## The producer's steps -/

/-- What the consumer knows does not depend on the memory, and survives a longer queue. -/
theorem ConsumerOk.put (h : ConsumerOk s unread) (packet : Bytes) {mem : ℕ → UInt8} {write : UInt64}
    {producer : Producer} {log : List (Fifo.Return Bytes)} :
    ConsumerOk { s with mem := mem, write := write, producer := producer, log := log }
      (unread ++ [packet]) := by
  have hhead : ∀ {p : Bytes}, unread.head? = some p → (unread ++ [packet]).head? = some p := by
    intro p hp
    rw [List.head?_append, hp, Option.some_or]
  unfold ConsumerOk at h ⊢
  dsimp only
  cases hphase : s.consumer with
  | idle => trivial
  | loadedRead bufLen read =>
    rw [hphase] at h
    exact h
  | nonempty bufLen read =>
    rw [hphase] at h
    exact ⟨h.1, by simp⟩
  | readLen n read =>
    rw [hphase] at h
    obtain ⟨hread, p, hp, hn⟩ := h
    exact ⟨hread, p, hhead hp, hn⟩
  | drained buf read =>
    rw [hphase] at h
    exact ⟨h.1, hhead h.2⟩

theorem ConsumerOk.same (h : ConsumerOk s unread) {mem : ℕ → UInt8} {producer : Producer}
    {log : List (Fifo.Return Bytes)} :
    ConsumerOk { s with mem := mem, producer := producer, log := log } unread := h

/-- A copy into the slot being written leaves what is unread as it was. -/
theorem Inv.copy (h : ring.Inv s unread) (hroom : unread.length < ring.capacity.toNat) {bytes : Bytes}
    {off : ℕ} (hin : off + bytes.length ≤ ring.slotBytes) (i : ℕ) (packet : Bytes)
    (hget : unread[i]? = some packet) :
    ring.Holds (copyTo s.mem (ring.slotStart s.write + off) bytes) (ahead s.read i) packet := by
  have hi : i < unread.length := (List.getElem?_eq_some_iff.mp hget).1
  exact (h.slots i packet hget).copy (h.fits packet (List.mem_of_getElem? hget))
    (h.write_apart hroom hi) hin

/-- A step of `publish` keeps the invariant; it returns `false` only over a full ring. -/
theorem Inv.publishStep (h : ring.Inv s unread) (hstep : ring.publishStep s = some s') :
    ∃ unread', ring.Inv s' unread' := by
  have hok := h.producer
  unfold ProducerOk at hok
  unfold ShmRing.publishStep at hstep
  cases hphase : s.producer with
  | idle =>
    rw [hphase] at hstep
    cases hstep
  | loadedWrite packet write =>
    rw [hphase] at hstep hok
    obtain ⟨rfl, hfits⟩ := hok
    dsimp only at hstep
    split at hstep
    next hfull =>
      obtain rfl := Option.some.inj hstep
      -- the distance is the number of unread packets, so no slot is left
      have hlen : unread.length = ring.capacity.toNat := by
        have hle : ring.capacity.toNat ≤ (s.write - s.read).toNat := UInt64.le_iff_toNat_le.mp hfull
        rw [h.distance] at hle
        exact Nat.le_antisymm h.length_le hle
      refine ⟨unread, ?_, h.write, h.fits, h.slots, trivial, h.consumer.same⟩
      exact (Fifo.run_concat h.log).trans (if_pos hlen)
    next hroom =>
      obtain rfl := Option.some.inj hstep
      have hlt : (s.write - s.read).toNat < ring.capacity.toNat :=
        UInt64.lt_iff_toNat_lt.mp (UInt64.not_le.mp hroom)
      rw [h.distance] at hlt
      exact ⟨unread, h.log, h.write, h.fits, h.slots, ⟨rfl, hfits, hlt⟩, h.consumer.same⟩
  | writeLen packet write =>
    rw [hphase] at hstep hok
    obtain ⟨rfl, hfits, hroom⟩ := hok
    obtain rfl := Option.some.inj hstep
    have hslot := hfits.slot
    refine ⟨unread, h.log, h.write, h.fits, ?_, ⟨rfl, hfits, hroom, ?_⟩, h.consumer.same⟩
    · have hin : 0 + (leBytes 4 packet.length).length ≤ ring.slotBytes := by
        rw [leBytes_length]
        omega
      exact h.copy hroom hin
    · have hback := readAt_copyTo s.mem (ring.slotStart s.write) (leBytes 4 packet.length)
      rwa [leBytes_length] at hback
  | writePayload packet write =>
    rw [hphase] at hstep hok
    obtain ⟨rfl, hfits, hroom, hlen⟩ := hok
    obtain rfl := Option.some.inj hstep
    have hslot := hfits.slot
    refine ⟨unread, h.log, h.write, h.fits, ?_, ⟨rfl, hfits, hroom, ?_, ?_⟩, h.consumer.same⟩
    · exact h.copy hroom (by omega)
    · -- the payload stands behind the length
      exact (readAt_copyTo_apart _ (Or.inl (Nat.le_refl _))).trans hlen
    · exact readAt_copyTo s.mem (ring.slotStart s.write + 4) packet
  | filled packet write =>
    rw [hphase] at hstep hok
    obtain ⟨rfl, hfits, hroom, hholds⟩ := hok
    obtain rfl := Option.some.inj hstep
    refine ⟨unread ++ [packet], ?_, ?_, ?_, ?_, trivial, h.consumer.put packet⟩
    · exact (Fifo.run_concat h.log).trans (if_pos hroom)
    · rw [List.length_append, List.length_singleton]
      show s.write + 1 = ahead s.read (unread.length + 1)
      rw [h.write, ahead_add_one]
    · intro p hp
      rcases List.mem_append.mp hp with hp | hp
      · exact h.fits p hp
      · rw [List.mem_singleton.mp hp]
        exact hfits
    · intro i p hget
      show ring.Holds s.mem (ahead s.read i) p
      by_cases hi : i < unread.length
      · rw [List.getElem?_append_left hi] at hget
        exact h.slots i p hget
      · -- the slot just filled
        have hlt := (List.getElem?_eq_some_iff.mp hget).1
        rw [List.length_append, List.length_singleton] at hlt
        obtain rfl : i = unread.length := by omega
        rw [List.getElem?_concat_length] at hget
        obtain rfl := Option.some.inj hget
        rw [← h.write]
        exact hholds

/-! ## The consumer's steps -/

/-- The buffer of the call at work is at least as long as the packet it receives. -/
def Roomy (s : State) (unread : List Bytes) : Prop :=
  match s.consumer with
  | .nonempty bufLen _ => ∀ packet ∈ unread.head?, packet.length ≤ bufLen
  | _ => True

/-- What the producer knows survives a shorter queue. -/
theorem ProducerOk.take (h : ring.ProducerOk s unread) {rest : List Bytes}
    (hle : rest.length ≤ unread.length) {read : UInt64} {consumer : Consumer}
    {log : List (Fifo.Return Bytes)} :
    ring.ProducerOk { s with read := read, consumer := consumer, log := log } rest := by
  unfold ProducerOk at h ⊢
  dsimp only
  cases hphase : s.producer with
  | idle => trivial
  | loadedWrite packet write =>
    rw [hphase] at h
    exact h
  | writeLen packet write =>
    rw [hphase] at h
    exact ⟨h.1, h.2.1, Nat.lt_of_le_of_lt hle h.2.2⟩
  | writePayload packet write =>
    rw [hphase] at h
    exact ⟨h.1, h.2.1, Nat.lt_of_le_of_lt hle h.2.2.1, h.2.2.2⟩
  | filled packet write =>
    rw [hphase] at h
    exact ⟨h.1, h.2.1, Nat.lt_of_le_of_lt hle h.2.2.1, h.2.2.2⟩

/-- The oldest unread packet stands in the slot of the read cursor. -/
theorem Inv.head (h : ring.Inv s unread) {packet : Bytes} (hhead : unread.head? = some packet) :
    ring.Holds s.mem s.read packet ∧ ring.FitsSlot packet := by
  have hget : unread[0]? = some packet := by rw [← List.head?_eq_getElem?, hhead]
  have hholds := h.slots 0 packet hget
  rw [ahead_zero] at hholds
  exact ⟨hholds, h.fits packet (List.mem_of_getElem? hget)⟩

/-- A step of `try_recv` keeps the invariant. -/
theorem Inv.tryRecvStep (h : ring.Inv s unread) (hroomy : Roomy s unread)
    (hstep : ring.tryRecvStep s = some s') : ∃ unread', ring.Inv s' unread' := by
  have hok := h.consumer
  unfold ConsumerOk at hok
  unfold Roomy at hroomy
  unfold ShmRing.tryRecvStep at hstep
  cases hphase : s.consumer with
  | idle =>
    rw [hphase] at hstep
    cases hstep
  | loadedRead bufLen read =>
    rw [hphase] at hstep hok
    obtain rfl := hok
    dsimp only at hstep
    split at hstep
    next hempty =>
      obtain rfl := Option.some.inj hstep
      have hnil : unread = [] := by
        have hdistance := h.distance
        rw [← hempty, UInt64.sub_self] at hdistance
        exact List.eq_nil_of_length_eq_zero hdistance.symm
      subst hnil
      refine ⟨[], ?_, h.write, h.fits, h.slots, h.producer.take (Nat.le_refl _), trivial⟩
      exact (Fifo.run_concat h.log).trans rfl
    next hsome =>
      obtain rfl := Option.some.inj hstep
      have hne : unread ≠ [] := by
        rintro rfl
        exact hsome (h.write.trans (ahead_zero _)).symm
      exact ⟨unread, h.log, h.write, h.fits, h.slots, h.producer.take (Nat.le_refl _), rfl, hne⟩
  | nonempty bufLen read =>
    rw [hphase] at hstep hok hroomy
    obtain ⟨rfl, hne⟩ := hok
    obtain rfl := Option.some.inj hstep
    obtain ⟨packet, hhead⟩ : ∃ packet, unread.head? = some packet := by
      cases unread with
      | nil => exact absurd rfl hne
      | cons p ps => exact ⟨p, rfl⟩
    obtain ⟨hholds, hfits⟩ := h.head hhead
    have hlen : min (leNat (readAt s.mem (ring.slotStart s.read) 4)) bufLen = packet.length := by
      rw [hholds.len, leNat_leBytes_of_lt hfits.short, Nat.min_eq_left (hroomy packet hhead)]
    refine ⟨unread, h.log, h.write, h.fits, h.slots, h.producer.take (Nat.le_refl _), rfl, packet,
      hhead, hlen⟩
  | readLen n read =>
    rw [hphase] at hstep hok
    obtain ⟨rfl, packet, hhead, rfl⟩ := hok
    obtain ⟨hholds, hfits⟩ := h.head hhead
    dsimp only at hstep
    split at hstep
    · obtain rfl := Option.some.inj hstep
      refine ⟨unread, h.log, h.write, h.fits, h.slots, h.producer.take (Nat.le_refl _), rfl, ?_⟩
      rw [hholds.payload]
      exact hhead
    · cases hstep
  | drained buf read =>
    rw [hphase] at hstep hok
    obtain ⟨rfl, hhead⟩ := hok
    obtain rfl := Option.some.inj hstep
    obtain ⟨rest, rfl⟩ := List.head?_eq_some_iff.mp hhead
    refine ⟨rest, ?_, ?_, ?_, ?_, h.producer.take (Nat.le_succ _), trivial⟩
    · exact (Fifo.run_concat h.log).trans (if_pos rfl)
    · show s.write = ahead (s.read + 1) rest.length
      rw [h.write, ahead_succ, List.length_cons]
    · exact fun p hp => h.fits p (List.mem_cons_of_mem _ hp)
    · intro i p hget
      show ring.Holds s.mem (ahead (s.read + 1) i) p
      rw [ahead_succ]
      exact h.slots (i + 1) p (by rwa [List.getElem?_cons_succ])

/-! ## Every interleaving -/

/-- Every packet given to `publish` has a length its prefix can hold. -/
def Short (events : List Event) : Prop := ∀ packet, .publish packet ∈ events → packet.length < 2 ^ 32

/-- Wherever the consumer moves, the buffer of the call at work is long enough for the packet it
receives: the one behind those already taken. -/
def Buffers (ring : ShmRing) (s : State) : List Event → Prop
  | [] => True
  | e :: es =>
    (e = .consumer → Roomy s ((Fifo.put s.log).drop (Fifo.taken s.log).length)) ∧
      match ring.step s e with
      | none => True
      | some s' => ring.Buffers s' es

/-- What is unread are the packets that were published and not yet taken. -/
theorem Inv.unread_eq (h : ring.Inv s unread) :
    (Fifo.put s.log).drop (Fifo.taken s.log).length = unread := by
  have hput := Fifo.put_eq h.log
  rw [List.nil_append] at hput
  rw [hput, List.drop_left]

/-- One step of either side keeps the invariant. -/
theorem Inv.step (h : ring.Inv s unread) {e : Event}
    (hshort : ∀ packet, e = .publish packet → packet.length < 2 ^ 32)
    (hroomy : e = .consumer → Roomy s unread) (hstep : ring.step s e = some s') :
    ∃ unread', ring.Inv s' unread' := by
  cases e with
  | publish packet =>
    unfold ShmRing.step at hstep
    dsimp only at hstep
    split at hstep
    · split at hstep
      next hfits =>
        obtain rfl := Option.some.inj hstep
        exact ⟨unread, h.log, h.write, h.fits, h.slots, ⟨rfl, hfits, hshort packet rfl⟩,
          h.consumer.same⟩
      · cases hstep
    · cases hstep
  | producer => exact h.publishStep hstep
  | tryRecv bufLen =>
    unfold ShmRing.step at hstep
    dsimp only at hstep
    split at hstep
    · obtain rfl := Option.some.inj hstep
      exact ⟨unread, h.log, h.write, h.fits, h.slots, h.producer.take (Nat.le_refl _), rfl⟩
    · cases hstep
  | consumer => exact h.tryRecvStep (hroomy rfl) hstep

theorem Inv.run {events : List Event} (h : ring.Inv s unread) (hshort : Short events)
    (hbuffers : ring.Buffers s events) (hrun : ring.run s events = some s') :
    ∃ unread', ring.Inv s' unread' := by
  induction events generalizing s unread with
  | nil =>
    obtain rfl := Option.some.inj hrun
    exact ⟨unread, h⟩
  | cons e es ih =>
    obtain ⟨s₁, hstep, hrest⟩ := Option.bind_eq_some_iff.mp hrun
    obtain ⟨hroomy, hbuffers⟩ := hbuffers
    rw [h.unread_eq] at hroomy
    rw [hstep] at hbuffers
    obtain ⟨unread₁, h₁⟩ :=
      h.step (fun packet heq => hshort packet (heq ▸ List.mem_cons_self ..)) hroomy hstep
    exact ih h₁ (fun packet hmem => hshort packet (List.mem_cons_of_mem _ hmem))
      hbuffers hrest

/-- The buffer of the call at work is as long as a slot. -/
def SlotBuffer (ring : ShmRing) (s : State) : Prop :=
  match s.consumer with
  | .loadedRead bufLen _ | .nonempty bufLen _ => ring.slotBytes ≤ bufLen + 4
  | _ => True

/-- Calls bring buffers as long as a slot. -/
theorem SlotBuffer.step (h : ring.SlotBuffer s) {e : Event}
    (hbuf : ∀ bufLen, e = .tryRecv bufLen → ring.slotBytes ≤ bufLen + 4)
    (hstep : ring.step s e = some s') : ring.SlotBuffer s' := by
  unfold SlotBuffer at h ⊢
  cases e with
  | publish packet =>
    unfold ShmRing.step at hstep
    dsimp only at hstep
    split at hstep
    · obtain ⟨-, heq⟩ := Option.ite_none_right_eq_some.mp hstep
      obtain rfl := Option.some.inj heq
      exact h
    · cases hstep
  | producer =>
    unfold ShmRing.step publishStep at hstep
    dsimp only at hstep
    split at hstep
    · cases hstep
    · split at hstep
      all_goals
        obtain rfl := Option.some.inj hstep
        exact h
    all_goals
      obtain rfl := Option.some.inj hstep
      exact h
  | tryRecv bufLen =>
    unfold ShmRing.step at hstep
    dsimp only at hstep
    split at hstep
    · obtain rfl := Option.some.inj hstep
      exact hbuf bufLen rfl
    · cases hstep
  | consumer =>
    unfold ShmRing.step tryRecvStep at hstep
    dsimp only at hstep
    split at hstep
    · cases hstep
    next bufLen read hphase =>
      rw [hphase] at h
      split at hstep
      · obtain rfl := Option.some.inj hstep
        trivial
      · obtain rfl := Option.some.inj hstep
        exact h
    · obtain rfl := Option.some.inj hstep
      trivial
    · obtain ⟨-, heq⟩ := Option.ite_none_right_eq_some.mp hstep
      obtain rfl := Option.some.inj heq
      trivial
    · obtain rfl := Option.some.inj hstep
      trivial

/-- Buffers as long as a slot are long enough for every packet. -/
theorem Inv.buffers {events : List Event} (h : ring.Inv s unread) (hslot : ring.SlotBuffer s)
    (hshort : Short events)
    (hbufs : ∀ bufLen, .tryRecv bufLen ∈ events → ring.slotBytes ≤ bufLen + 4) :
    ring.Buffers s events := by
  induction events generalizing s unread with
  | nil => trivial
  | cons e es ih =>
    have hroomy : Roomy s unread := by
      unfold Roomy
      unfold SlotBuffer at hslot
      cases hphase : s.consumer with
      | nonempty bufLen read =>
        rw [hphase] at hslot
        intro packet hmem
        have hfits := (h.head hmem).2.slot
        exact Nat.le_of_add_le_add_right (Nat.le_trans hfits hslot)
      | _ => trivial
    refine ⟨fun _ => by rw [h.unread_eq]; exact hroomy, ?_⟩
    cases hstep : ring.step s e with
    | none => trivial
    | some s₁ =>
      obtain ⟨unread₁, h₁⟩ :=
        h.step (fun packet heq => hshort packet (heq ▸ List.mem_cons_self ..)) (fun _ => hroomy) hstep
      exact ih h₁ (hslot.step (fun bufLen heq => hbufs bufLen (heq ▸ List.mem_cons_self ..)) hstep)
        (fun packet hmem => hshort packet (List.mem_cons_of_mem _ hmem))
        fun bufLen hmem => hbufs bufLen (List.mem_cons_of_mem _ hmem)

/-- The slot the producer copies into, if it does. -/
def Producer.writing : Producer → Option UInt64
  | .writeLen _ write | .writePayload _ write => some write
  | _ => none

/-- The slot the consumer copies from, if it does. -/
def Consumer.reading : Consumer → Option UInt64
  | .nonempty _ read | .readLen _ read => some read
  | _ => none

/-- The producer never writes the slot that is being read. -/
theorem Inv.writing_ne_reading (h : ring.Inv s unread) {write read : UInt64}
    (hwriting : s.producer.writing = some write) (hreading : s.consumer.reading = some read) :
    ring.slotStart write ≠ ring.slotStart read := by
  have hproducer := h.producer
  have hconsumer := h.consumer
  have hwrite : write = s.write ∧ unread.length < ring.capacity.toNat := by
    unfold ProducerOk at hproducer
    cases hphase : s.producer with
    | writeLen packet w =>
      rw [hphase] at hproducer hwriting
      obtain rfl := Option.some.inj hwriting
      exact ⟨hproducer.1, hproducer.2.2⟩
    | writePayload packet w =>
      rw [hphase] at hproducer hwriting
      obtain rfl := Option.some.inj hwriting
      exact ⟨hproducer.1, hproducer.2.2.1⟩
    | _ =>
      rw [hphase] at hwriting
      cases hwriting
  have hread : read = s.read ∧ 0 < unread.length := by
    unfold ConsumerOk at hconsumer
    cases hphase : s.consumer with
    | nonempty bufLen r =>
      rw [hphase] at hconsumer hreading
      obtain rfl := Option.some.inj hreading
      exact ⟨hconsumer.1, List.length_pos_of_ne_nil hconsumer.2⟩
    | readLen n r =>
      rw [hphase] at hconsumer hreading
      obtain rfl := Option.some.inj hreading
      obtain ⟨hr, packet, hhead, -⟩ := hconsumer
      obtain ⟨rest, rfl⟩ := List.head?_eq_some_iff.mp hhead
      exact ⟨hr, Nat.succ_pos _⟩
    | _ =>
      rw [hphase] at hreading
      cases hreading
  obtain ⟨rfl, hroom⟩ := hwrite
  obtain ⟨rfl, hpos⟩ := hread
  have hne := h.write_apart hroom hpos
  rw [ahead_zero] at hne
  have hapart := ring.slots_apart hne
  have hslot := ring.slotBytes_ge
  omega

/-- **The ring is a bounded queue.** Over every interleaving of the two sides, from any common value of
the cursors, what `publish` and `try_recv` returned is a history of a queue of `capacity` packets: what
was received are the packets published, in order and byte for byte, up to those still unread, and a
packet was refused only over `capacity` unread ones. No slot is written while it is read. -/
theorem ring_is_fifo (ring : ShmRing) (mem : ℕ → UInt8) (cursor : UInt64) {events : List Event}
    {s : State} (hrun : ring.run (start mem cursor) events = some s)
    (hbuffers : ring.Buffers (start mem cursor) events) (hshort : Short events) :
    (∃ unread, Fifo.run ring.capacity.toNat [] s.log = some unread ∧
      Fifo.put s.log = Fifo.taken s.log ++ unread ∧ unread.length ≤ ring.capacity.toNat) ∧
    (∀ packet write, s.producer = .loadedWrite packet write → write - s.read ≥ ring.capacity →
      (Fifo.put s.log).length = (Fifo.taken s.log).length + ring.capacity.toNat) ∧
    ∀ write read, s.producer.writing = some write → s.consumer.reading = some read →
      ring.slotStart write ≠ ring.slotStart read := by
  obtain ⟨unread, h⟩ := (ring.inv_start mem cursor).run hshort hbuffers hrun
  have hput := Fifo.put_eq h.log
  rw [List.nil_append] at hput
  refine ⟨⟨unread, h.log, hput, h.length_le⟩, fun packet write hphase hfull => ?_,
    fun write read hwriting hreading => h.writing_ne_reading hwriting hreading⟩
  have hok := h.producer
  rw [ProducerOk, hphase] at hok
  obtain ⟨rfl, -⟩ := hok
  have hle : ring.capacity.toNat ≤ (s.write - s.read).toNat := UInt64.le_iff_toNat_le.mp hfull
  rw [h.distance] at hle
  rw [hput, List.length_append, Nat.le_antisymm h.length_le hle]

/-- A packet through a ring of one slot whose cursors are about to wrap. -/
theorem ring_is_fifo_of_one : ∃ (s : State) (unread : List Bytes),
    Fifo.run 1 [] s.log = some unread ∧ Fifo.put s.log = Fifo.taken s.log ++ unread ∧
      Fifo.taken s.log = [[7, 8]] := by
  let ring : ShmRing := ⟨1, 6, ⟨0, rfl⟩, by decide⟩
  let s₀ : State := start (fun _ => 0) 18446744073709551615
  let events : List Event := [.publish [7, 8], .producer, .producer, .producer, .producer,
    .tryRecv 2, .consumer, .consumer, .consumer, .consumer]
  have hlog : (ring.run s₀ events).map State.log =
      some [.put [7, 8] true, .take (some [7, 8])] := by decide +kernel
  obtain ⟨s, hrun, hs⟩ := Option.map_eq_some_iff.mp hlog
  have hshort : Short events := by
    intro packet hmem
    obtain rfl : packet = [7, 8] := by simpa [events] using hmem
    decide
  have hbuffers : ring.Buffers s₀ events := by
    refine (ring.inv_start _ _).buffers trivial hshort fun bufLen hmem => ?_
    obtain rfl : bufLen = 2 := by simpa [events] using hmem
    decide
  obtain ⟨⟨unread, hfifo, hput, -⟩, -⟩ := ring_is_fifo ring _ _ hrun hbuffers hshort
  exact ⟨s, unread, hfifo, hput, by rw [hs]; rfl⟩

/-- A packet of `2 ^ 32` bytes, as long as the slot is made for, is published and received as an
empty one: its length is cut to the width of the prefix. -/
theorem long_packet_cut : ∃ (ring : ShmRing) (packet : Bytes) (s : State),
    packet.length + 4 ≤ ring.slotBytes ∧
      ring.run (start (fun _ => 0) 0) [.publish packet, .producer, .producer, .producer, .producer,
        .tryRecv packet.length, .consumer, .consumer, .consumer, .consumer] = some s ∧
      Fifo.put s.log = [packet] ∧ Fifo.taken s.log = [[]] ∧ packet ≠ [] := by
  let ring : ShmRing := ⟨1, 2 ^ 32 + 4, ⟨0, rfl⟩, by decide⟩
  obtain ⟨packet, hlen⟩ : ∃ packet : Bytes, packet.length = 2 ^ 32 :=
    ⟨List.replicate (2 ^ 32) 0, List.length_replicate⟩
  have hfits : packet.length + 4 ≤ ring.slotBytes := by rw [hlen]
  have hread : ∀ mem : ℕ → UInt8, leNat (readAt (copyTo (copyTo mem (ring.slotStart 0)
      (leBytes 4 packet.length)) (ring.slotStart 0 + 4) packet) (ring.slotStart 0) 4) = 0 := by
    intro mem
    have hback := readAt_copyTo mem (ring.slotStart 0) (leBytes 4 packet.length)
    rw [leBytes_length] at hback
    rw [readAt_copyTo_apart _ (Or.inl (Nat.le_refl _)), hback, hlen]
    decide
  have hroom : ¬((0 : UInt64) - 0 ≥ ring.capacity) := by decide
  have hsome : (0 : UInt64) ≠ 0 + 1 := by decide
  have hempty : 4 + 0 ≤ ring.slotBytes := by decide
  let mem := copyTo (copyTo (fun _ => 0) (ring.slotStart 0) (leBytes 4 packet.length))
    (ring.slotStart 0 + 4) packet
  refine ⟨ring, packet, ⟨mem, 1, 1, .idle, .idle, [.put packet true, .take (some [])]⟩, hfits, ?_, rfl,
    rfl, ?_⟩
  · simp only [run, step, publishStep, tryRecvStep, start, if_pos hfits, if_neg hroom, if_neg hsome,
      Option.bind_some, hread, Nat.zero_min, if_pos hempty]
    rfl
  · rintro rfl
    cases hlen

end ShmRing

end Ticktape.Transport
