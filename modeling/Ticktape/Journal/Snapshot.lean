import Ticktape.Journal.Journal

/-!
# The snapshot store

Snapshot files (`ticktape-journal/src/snapshot.rs`): written whole and synced, listed, loaded
newest first, pruned, and purged above a tip. A snapshot file is used only if it parses, and
`parseSnapshot_torn` says that what a power loss leaves of one either is the whole file or does
not parse.
-/

namespace Ticktape.Journal

open Ticktape.Lib Ticktape.Core

/-! ## The file format -/

/-- `b"TKTS"`. -/
def SNAPSHOT_MAGIC : Bytes := [0x54, 0x4B, 0x54, 0x53]

/-- magic(4) + version(4) + seq(8) + epoch(8) + payload_len(4) + crc(4). -/
def SNAPSHOT_HEADER_LEN : ℕ := 32

/-- A validated snapshot loaded from disk. -/
structure LoadedSnapshot where
  seq : ℕ
  epoch : ℕ
  payload : Bytes
  deriving DecidableEq

/-- The checksummed part of a snapshot header. The payload length is cast to `u32`. -/
def snapshotHeaderFields (seq epoch len : ℕ) : Bytes :=
  SNAPSHOT_MAGIC ++ (leBytes 4 FORMAT_VERSION ++ (leBytes 8 seq ++ (leBytes 8 epoch ++ leBytes 4 len)))

/-- The bytes of a snapshot file. -/
def snapshotBytes (seq epoch : ℕ) (payload : Bytes) : Bytes :=
  withCrc (snapshotHeaderFields seq epoch payload.length) ++ withCrc payload

/-- Validate and parse a snapshot file; `none` means unusable. -/
def parseSnapshot (bytes : Bytes) : Option LoadedSnapshot :=
  if bytes.length < SNAPSHOT_HEADER_LEN + 4 ∨ slice bytes 0 4 ≠ SNAPSHOT_MAGIC then none
  else if leNat (slice bytes 4 4) ≠ FORMAT_VERSION then none
  else if (crc32c (slice bytes 0 28)).toNat ≠ leNat (slice bytes 28 4) then none
  else
    let payloadLen := leNat (slice bytes 24 4)
    let total := SNAPSHOT_HEADER_LEN + payloadLen + 4
    if bytes.length < total then none
    else
      let payload := slice bytes SNAPSHOT_HEADER_LEN payloadLen
      if (crc32c payload).toNat ≠ leNat (slice bytes (total - 4) 4) then none
      else some ⟨leNat (slice bytes 8 8), leNat (slice bytes 16 8), payload⟩

@[simp] theorem snapshotHeaderFields_length (seq epoch len : ℕ) :
    (snapshotHeaderFields seq epoch len).length = 28 := by
  simp [snapshotHeaderFields, SNAPSHOT_MAGIC]

section Header

variable (seq epoch len : ℕ) (rest : Bytes)

/-- The header block followed by anything. -/
private abbrev headed : Bytes := withCrc (snapshotHeaderFields seq epoch len) ++ rest

theorem slice_snapshot_magic : slice (headed seq epoch len rest) 0 4 = SNAPSHOT_MAGIC := by
  simp only [headed, withCrc, snapshotHeaderFields, List.append_assoc]
  exact slice_here _ rfl

theorem slice_snapshot_version : slice (headed seq epoch len rest) 4 4 = leBytes 4 FORMAT_VERSION := by
  simp only [headed, withCrc, snapshotHeaderFields, List.append_assoc]
  exact (slice_skip _ 0 4 rfl).trans (slice_here _ (leBytes_length 4 _))

theorem slice_snapshot_seq : slice (headed seq epoch len rest) 8 8 = leBytes 8 seq := by
  simp only [headed, withCrc, snapshotHeaderFields, List.append_assoc]
  refine (slice_skip _ 4 8 rfl).trans ?_
  exact (slice_skip _ 0 8 (leBytes_length 4 _)).trans (slice_here _ (leBytes_length 8 _))

theorem slice_snapshot_epoch : slice (headed seq epoch len rest) 16 8 = leBytes 8 epoch := by
  simp only [headed, withCrc, snapshotHeaderFields, List.append_assoc]
  refine (slice_skip _ 12 8 rfl).trans ?_
  refine (slice_skip _ 8 8 (leBytes_length 4 _)).trans ?_
  exact (slice_skip _ 0 8 (leBytes_length 8 _)).trans (slice_here _ (leBytes_length 8 _))

theorem slice_snapshot_len : slice (headed seq epoch len rest) 24 4 = leBytes 4 len := by
  simp only [headed, withCrc, snapshotHeaderFields, List.append_assoc]
  refine (slice_skip _ 20 4 rfl).trans ?_
  refine (slice_skip _ 16 4 (leBytes_length 4 _)).trans ?_
  refine (slice_skip _ 8 4 (leBytes_length 8 _)).trans ?_
  exact (slice_skip _ 0 4 (leBytes_length 8 _)).trans (slice_here _ (leBytes_length 4 _))

theorem slice_snapshot_fields :
    slice (headed seq epoch len rest) 0 28 = snapshotHeaderFields seq epoch len := by
  rw [headed, withCrc, List.append_assoc]
  exact slice_here _ (snapshotHeaderFields_length ..)

theorem slice_snapshot_crc : slice (headed seq epoch len rest) 28 4 =
    leBytes 4 (crc32c (snapshotHeaderFields seq epoch len)).toNat := by
  rw [headed, withCrc, List.append_assoc]
  exact (slice_skip _ 0 4 (snapshotHeaderFields_length ..)).trans (slice_here _ (leBytes_length 4 _))

theorem slice_behind_snapshot_header (off n : ℕ) :
    slice (headed seq epoch len rest) (SNAPSHOT_HEADER_LEN + off) n = slice rest off n :=
  slice_skip rest off n (by simp [SNAPSHOT_HEADER_LEN])

end Header

/-- **Parsing behind an intact header**: the payload is what the (truncated) length field says. -/
theorem parseSnapshot_header {seq epoch len : ℕ} (hseq : seq < 2 ^ 64) (hepoch : epoch < 2 ^ 64)
    (rest : Bytes) :
    parseSnapshot (withCrc (snapshotHeaderFields seq epoch len) ++ rest) =
      if rest.length < len % 2 ^ 32 + 4 then none
      else if (crc32c (slice rest 0 (len % 2 ^ 32))).toNat ≠ leNat (slice rest (len % 2 ^ 32) 4)
        then none
      else some ⟨seq, epoch, slice rest 0 (len % 2 ^ 32)⟩ := by
  have hlong : (withCrc (snapshotHeaderFields seq epoch len) ++ rest).length = 32 + rest.length := by
    simp
  have hpay : slice (withCrc (snapshotHeaderFields seq epoch len) ++ rest) SNAPSHOT_HEADER_LEN
      (len % 2 ^ 32) = slice rest 0 (len % 2 ^ 32) :=
    slice_behind_snapshot_header seq epoch len rest 0 _
  have hcrc : slice (withCrc (snapshotHeaderFields seq epoch len) ++ rest)
      (SNAPSHOT_HEADER_LEN + len % 2 ^ 32 + 4 - 4) 4 = slice rest (len % 2 ^ 32) 4 := by
    rw [Nat.add_sub_cancel]
    exact slice_behind_snapshot_header seq epoch len rest _ 4
  have hlen : leNat (leBytes 4 len) = len % 2 ^ 32 := leNat_leBytes 4 len
  have htotal : 32 + rest.length < SNAPSHOT_HEADER_LEN + len % 2 ^ 32 + 4 ↔
      rest.length < len % 2 ^ 32 + 4 := by
    simp only [SNAPSHOT_HEADER_LEN]
    omega
  unfold parseSnapshot
  rw [hlong, slice_snapshot_magic, slice_snapshot_version, slice_snapshot_fields,
    slice_snapshot_crc, slice_snapshot_len, slice_snapshot_seq, slice_snapshot_epoch, leNat_crc,
    leNat_leBytes_of_lt (show FORMAT_VERSION < 256 ^ 4 by decide),
    leNat_leBytes_of_lt (show seq < 256 ^ 8 from hseq),
    leNat_leBytes_of_lt (show epoch < 256 ^ 8 from hepoch), hlen]
  simp only [htotal, hpay, hcrc, ne_eq, not_true_eq_false, or_false, if_false]
  by_cases hshort : 32 + rest.length < SNAPSHOT_HEADER_LEN + 4
  · have : rest.length < len % 2 ^ 32 + 4 := by
      simp only [SNAPSHOT_HEADER_LEN] at hshort
      omega
    rw [if_pos hshort, if_pos this]
  · rw [if_neg hshort]

/-- A whole snapshot file is read back, as long as its length field can hold its length. -/
theorem parseSnapshot_bytes {seq epoch : ℕ} (hseq : seq < 2 ^ 64) (hepoch : epoch < 2 ^ 64)
    {payload : Bytes} (hlen : payload.length < 2 ^ 32) :
    parseSnapshot (snapshotBytes seq epoch payload) = some ⟨seq, epoch, payload⟩ := by
  have hpay : slice (withCrc payload) 0 payload.length = payload := slice_here _ rfl
  have hcrc : slice (withCrc payload) payload.length 4 = leBytes 4 (crc32c payload).toNat := by
    rw [slice, withCrc, List.drop_left, List.take_of_length_le (by simp)]
  rw [snapshotBytes, parseSnapshot_header hseq hepoch, Nat.mod_eq_of_lt hlen, hpay, hcrc, leNat_crc,
    withCrc_length, if_neg (Nat.lt_irrefl _)]
  simp

/-- A changed header block makes a snapshot unusable. -/
theorem parseSnapshot_header_burst {seq epoch len : ℕ} {q : Bytes}
    (h : BitBurst 32 (withCrc (snapshotHeaderFields seq epoch len)) q) (rest : Bytes) :
    parseSnapshot (q ++ rest) = none := by
  have hcrc := withCrc_rejects_burst h rest
  rw [snapshotHeaderFields_length] at hcrc
  rw [parseSnapshot, if_pos hcrc]
  split_ifs <;> rfl

/-- **Snapshots under damage**: what a power loss leaves of an unsynced snapshot file does not
parse, unless it is the whole file. -/
theorem parseSnapshot_torn {seq epoch : ℕ} (hseq : seq < 2 ^ 64) (hepoch : epoch < 2 ^ 64)
    {payload q : Bytes} (hlen : payload.length < 2 ^ 32)
    (h : Torn (snapshotBytes seq epoch payload) q) :
    q = snapshotBytes seq epoch payload ∨ parseSnapshot q = none := by
  have hmod : payload.length % 2 ^ 32 = payload.length := Nat.mod_eq_of_lt hlen
  rcases h.block with ⟨q₁, rfl, h₁⟩ | hshort | ⟨h', q', rfl, hone⟩
  · have h₁ : Torn (withCrc payload ++ []) q₁ := by simpa using h₁
    rcases h₁.block with ⟨q₂, rfl, h₂⟩ | hshort | ⟨p', q', rfl, hone⟩
    · rw [torn_nil] at h₂
      subst h₂
      exact Or.inl (by rw [List.append_nil, snapshotBytes])
    · rw [withCrc_length] at hshort
      refine Or.inr ?_
      rw [parseSnapshot_header hseq hepoch, hmod, if_pos hshort]
    · refine Or.inr ?_
      rw [parseSnapshot_header hseq hepoch, hmod, if_neg (by simp [hone.length_eq])]
      rw [if_pos (withCrc_rejects_burst (hone.bitBurst (by omega)) q')]
  · rw [withCrc_length, snapshotHeaderFields_length] at hshort
    refine Or.inr ?_
    rw [parseSnapshot, if_pos (Or.inl (by simp only [SNAPSHOT_HEADER_LEN]; omega))]
  · exact Or.inr (parseSnapshot_header_burst (hone.bitBurst (by omega)) q')

/-! ## The operations

`SnapshotStore` has no state of its own. -/

/-- The path of a snapshot. -/
abbrev snapName (seq : ℕ) : FileName := .numbered .snap seq

namespace Snapshots

variable {μ : Type}

/-- Durably write a snapshot of the state at `seq`. -/
def write (seq epoch : ℕ) (payload : Bytes) : Prog μ JStore JournalError Unit := do
  record fun h => { h with oversize := h.oversize || decide (2 ^ 32 ≤ payload.length) }
  io (createNew (snapName seq))
  io (writeAll (snapName seq) (snapshotBytes seq epoch payload))
  io (syncData (snapName seq))
  io syncDir

/-- Remove the snapshots numbered in `l`. -/
def removeAll : List ℕ → Prog μ JStore JournalError Unit
  | [] => pure ()
  | n :: rest => do
    io (remove (snapName n))
    removeAll rest

/-- Delete every snapshot above `maxSeq`. -/
def purgeAfter (maxSeq : ℕ) : Prog μ JStore JournalError Unit := do
  let names ← io listDir
  removeAll ((names.filterMap (·.number .snap)).filter (· > maxSeq))
  io syncDir

/-- Highest seq of any snapshot file, valid or not. -/
def highWaterSeq : Prog μ JStore JournalError ℕ := do
  let names ← io listDir
  pure ((names.filterMap (·.number .snap)).foldl max 0)

/-- The snapshots numbered in `l` that can be read, parse and are at or below `maxSeq`. -/
def loadAll (maxSeq : ℕ) : List ℕ → Prog μ JStore JournalError (List LoadedSnapshot)
  | [] => pure []
  | n :: rest => do
    let bytes ← Prog.attempt (read (snapName n))
    let more ← loadAll maxSeq rest
    match bytes with
    | .error _ => pure more
    | .ok bytes =>
      match parseSnapshot bytes with
      | none => pure more
      | some snap => if snap.seq ≤ maxSeq then pure (snap :: more) else pure more

/-- Validated snapshots at or below `maxSeq`, newest first. -/
def loadCandidates (maxSeq : ℕ) : Prog μ JStore JournalError (List LoadedSnapshot) := do
  let names ← io listDir
  loadAll maxSeq (sortedNumbers .snap names).reverse

/-- Prune to the newest `keep` snapshots; returns the oldest one kept. -/
def pruneKeepNewest (keep : ℕ) : Prog μ JStore JournalError (Option ℕ) := do
  let names ← io listDir
  let entries := sortedNumbers .snap names
  if entries.length > max keep 1 then do
    removeAll (entries.take (entries.length - max keep 1))
    io syncDir
    pure entries[entries.length - max keep 1]?
  else pure entries.head?

end Snapshots

end Ticktape.Journal
