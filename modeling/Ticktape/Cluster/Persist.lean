import Ticktape.Cluster.Election
import Ticktape.Core.Crc32c
import Ticktape.Journal.Storage

/-!
# Durable acceptors

An acceptor whose promise survives crashes (`ticktape-cluster/src/persist.rs`): a raised promise is on
stable storage before the grant is returned. The record is rewritten in place, so a crash inside the
rewrite can leave a file that does not parse; such an acceptor does not open again, and never opens
with a promise forgotten (`wp_handle`, `wp_openAt`).
-/

namespace Ticktape.Cluster

open Ticktape.Lib Ticktape.Core Ticktape.Journal

/-! ## The record -/

/-- `b"TKAP"`. -/
def ACCEPTOR_MAGIC : Bytes := [0x54, 0x4B, 0x41, 0x50]

/-- magic(4) + promised(8) + crc(4). -/
def RECORD_LEN : ℕ := 16

/-- Why an acceptor could not be opened or its promise not be persisted. -/
inductive PersistError where
  | io (e : IoError)
  /-- The state file exists but is malformed. -/
  | corrupt (what : String)
  deriving DecidableEq

/-- The checksummed part of a record. -/
def recordFields (promised : UInt64) : Bytes := ACCEPTOR_MAGIC ++ leBytes 8 promised.toNat

/-- The state file for a promise. -/
def recordBytes (promised : UInt64) : Bytes := withCrc (recordFields promised)

/-- Read a record back. -/
def parseRecord (bytes : Bytes) : Except PersistError UInt64 :=
  if bytes.length ≠ RECORD_LEN then .error (.corrupt "wrong length")
  else if slice bytes 0 4 ≠ ACCEPTOR_MAGIC then .error (.corrupt "bad magic")
  else if (crc32c (slice bytes 0 12)).toNat ≠ leNat (slice bytes 12 4) then
    .error (.corrupt "crc mismatch")
  else .ok (UInt64.ofNat (leNat (slice bytes 4 8)))

@[simp] theorem recordFields_length (promised : UInt64) : (recordFields promised).length = 12 := by
  simp [recordFields, ACCEPTOR_MAGIC]

@[simp] theorem recordBytes_length (promised : UInt64) :
    (recordBytes promised).length = RECORD_LEN := by
  simp [recordBytes, RECORD_LEN]

/-- A whole record reads back. -/
theorem parseRecord_bytes (promised : UInt64) : parseRecord (recordBytes promised) = .ok promised := by
  have hfields : slice (recordBytes promised) 0 12 = recordFields promised :=
    slice_here _ (recordFields_length promised)
  have hmagic : slice (recordBytes promised) 0 4 = ACCEPTOR_MAGIC := by
    simp only [recordBytes, withCrc, recordFields, List.append_assoc]
    exact slice_here _ rfl
  have hpromised : slice (recordBytes promised) 4 8 = leBytes 8 promised.toNat := by
    simp only [recordBytes, withCrc, recordFields, List.append_assoc]
    exact (slice_skip _ 0 8 rfl).trans (slice_here _ (leBytes_length 8 _))
  have hcrc : slice (recordBytes promised) 12 4 =
      leBytes 4 (crc32c (recordFields promised)).toNat := by
    have hrec : recordBytes promised =
        recordFields promised ++ (leBytes 4 (crc32c (recordFields promised)).toNat ++ []) := by
      rw [List.append_nil, recordBytes, withCrc]
    rw [hrec]
    exact (slice_skip _ 0 4 (recordFields_length promised)).trans (slice_here _ (leBytes_length 4 _))
  have hlt : promised.toNat < 256 ^ 8 := promised.toNat_lt
  rw [parseRecord, recordBytes_length, hfields, hmagic, hpromised, hcrc, leNat_crc,
    leNat_leBytes_of_lt hlt]
  simp

/-- A changed record does not parse. -/
theorem parseRecord_burst {promised : UInt64} {q : Bytes} (h : BitBurst 32 (recordBytes promised) q) :
    ∃ e, parseRecord q = .error e := by
  -- whichever check refuses first, the checksum would
  have hcrc := withCrc_rejects_burst h []
  rw [List.append_nil, recordFields_length] at hcrc
  rw [parseRecord, if_pos hcrc]
  split_ifs <;> exact ⟨_, rfl⟩

/-- **Records under damage**: what a power loss leaves of an unsynced record is the whole record or
does not parse. -/
theorem parseRecord_torn {promised : UInt64} {q : Bytes} (h : Torn (recordBytes promised) q) :
    q = recordBytes promised ∨ ∃ e, parseRecord q = .error e := by
  have hblock : Torn (recordBytes promised ++ []) q := by simpa using h
  rcases hblock.block with ⟨q', rfl, hq'⟩ | hshort | ⟨a', q', rfl, hone⟩
  · rw [torn_nil] at hq'
    subst hq'
    exact Or.inl (List.append_nil _)
  · rw [recordBytes_length] at hshort
    exact Or.inr ⟨_, if_pos (Nat.ne_of_lt hshort)⟩
  · by_cases hq' : q' = []
    · subst hq'
      rw [List.append_nil]
      exact Or.inr (parseRecord_burst (hone.bitBurst (by omega)))
    · -- bytes behind the record make it too long
      refine Or.inr ⟨_, if_pos ?_⟩
      have hpos : 0 < q'.length := List.length_pos_of_ne_nil hq'
      rw [List.length_append, hone.length_eq, recordBytes_length]
      omega

/-! ## The operations -/

/-- The state file of an acceptor. -/
abbrev stateFile : FileName := .acceptor

namespace PersistentAcceptor

variable {μ γ : Type}

/-- A storage call of an acceptor. -/
def io {α : Type} (p : Io μ γ α) : Prog μ (Store γ) PersistError α := Prog.mapErr .io p

/-- Create the state file, or truncate an existing one. -/
def openForRewrite : Prog μ (Store γ) PersistError Unit := do
  match ← Prog.attempt (createNew stateFile) with
  | .ok _ => pure ()
  | .error .alreadyExists => do
    io (truncate stateFile 0)
    io (openAppend stateFile)
  | .error e => Prog.fail (.io e)

/-- Write the promise in place and sync it. -/
def persist (promised : UInt64) : Prog μ (Store γ) PersistError Unit := do
  openForRewrite
  io (writeAll stateFile (recordBytes promised))
  io (syncData stateFile)

/-- Answer a vote request; a raised promise is durable before the grant is returned. -/
def handle (request : VoteRequest) : Prog Acceptor (Store γ) PersistError VoteReply := do
  let a ← Prog.mem
  Prog.update fun a => (a.handle request).2
  Prog.when (a.promised < (a.handle request).2.promised) (persist (a.handle request).2.promised)
  pure (a.handle request).1

/-- Open the acceptor with the promise its state file records; a record that does not parse is an
error. -/
def openAt : Prog μ (Store γ) PersistError Acceptor := do
  match ← Prog.attempt (read stateFile) with
  | .ok bytes => do
    let promised ← Prog.ofExcept (parseRecord bytes)
    -- one request at the recorded epoch brings the acceptor there
    pure (if promised > 0 then (Acceptor.new.handle ⟨promised⟩).2 else Acceptor.new)
  | .error .notFound => pure Acceptor.new
  | .error e => Prog.fail (.io e)

/-! ## What the disk remembers -/

/-- However the power is lost now, the state file will not forget any of the epochs `granted`: it
does not parse, or records a promise at or above them. -/
def Remembers (granted : List UInt64) (s : Store γ) : Prop :=
  ∀ s', s.PowerLoss s' → (s'.disk.get stateFile = none → granted = []) ∧
    ∀ f promised, s'.disk.get stateFile = some f → parseRecord f.combined = .ok promised →
      ∀ e ∈ granted, e ≤ promised

/-- The state file is being rewritten with `promised`: a survivor is damaged, or whole. -/
def Rewriting (promised : UInt64) (s : Store γ) : Prop :=
  ∃ f, s.disk.get stateFile = some f ∧
    ∀ f', f.Survives f' → Torn (recordBytes promised) f'.combined

variable {granted : List UInt64} {s s' : Store γ} {promised : UInt64}

theorem Rewriting.remembers (h : Rewriting promised s) (hle : ∀ e ∈ granted, e ≤ promised) :
    Remembers granted s := by
  obtain ⟨f, hget, htorn⟩ := h
  intro s' hl
  obtain ⟨f', hget', hs⟩ := hl.1.some hget
  refine ⟨fun hnone => absurd (hget'.symm.trans hnone) (by simp), fun f'' p hf'' hp => ?_⟩
  obtain rfl : f' = f'' := Option.some.inj (hget'.symm.trans hf'')
  rcases parseRecord_torn (htorn f' hs) with heq | ⟨e, herr⟩
  · rw [heq, parseRecord_bytes] at hp
    cases hp
    exact hle
  · rw [herr] at hp
    cases hp

/-- Losing power again changes nothing. -/
theorem Remembers.loss (h : Remembers granted s) (hl : s.PowerLoss s') : Remembers granted s' := by
  obtain ⟨hnone, hsome⟩ := h s' hl
  intro s'' hl'
  refine ⟨fun hget => hnone ?_, fun f'' p hf'' hp => ?_⟩
  · cases hget' : s'.disk.get stateFile with
    | none => rfl
    | some f' =>
      obtain ⟨f'', hf'', -⟩ := hl'.1.some hget'
      rw [hf''] at hget
      cases hget
  · obtain ⟨f', hf', hs'⟩ := hl'.1.of_some hf''
    -- what survived one loss is synced
    obtain ⟨f, -, hs⟩ := hl.1.of_some hf'
    rw [hs'.eq_of_synced hs.unsynced_eq] at hp
    exact hsome f' p hf' hp

/-- Whatever a loss can do to the state file, some loss of the whole directory does. -/
theorem exists_powerLoss {o : Option FileData}
    (h : Option.Rel FileData.Survives (s.disk.get stateFile) o) :
    ∃ s', s.PowerLoss s' ∧ s'.disk.get stateFile = o := by
  cases o with
  | none =>
    refine ⟨s.withDisk s.disk.settle, ⟨Disk.powerLoss_settle _, rfl⟩, ?_⟩
    cases hold : s.disk.get stateFile with
    | none =>
      rw [Store.withDisk_disk, Disk.get_settle, hold]
      rfl
    | some f =>
      rw [hold] at h
      cases h
  | some f =>
    -- all other files are spared
    refine ⟨s.withDisk (s.disk.settle.put stateFile f), ⟨fun k => ?_, rfl⟩, Disk.get_put_self ..⟩
    by_cases hk : stateFile = k
    · rw [← hk, Store.withDisk_disk, Disk.get_put_self]
      exact h
    · rw [Store.withDisk_disk, Disk.get_put_of_ne _ _ hk]
      exact Disk.powerLoss_settle s.disk k

/-- A loss may do anything to the other files. -/
theorem Remembers.of_survives (h : Remembers granted s)
    (hfile : Option.Rel FileData.Survives (s.disk.get stateFile) (s'.disk.get stateFile)) :
    Remembers granted s' := by
  obtain ⟨s₁, hl₁, hget₁⟩ := exists_powerLoss hfile
  intro s'' hl
  rw [← hget₁] at hfile
  obtain ⟨s₂, hl₂, hget₂⟩ := exists_powerLoss (s := s₁) (hget₁ ▸ hl.1 stateFile)
  rw [← hget₂]
  exact h.loss hl₁ s₂ hl₂

/-- What a reader sees now is what a loss that loses nothing would leave. -/
theorem Remembers.read (h : Remembers granted s) :
    (s.disk.get stateFile = none → granted = []) ∧
    ∀ f promised, s.disk.get stateFile = some f → parseRecord f.combined = .ok promised →
      ∀ e ∈ granted, e ≤ promised := by
  have hl : s.PowerLoss { s with disk := s.disk.settle } := ⟨Disk.powerLoss_settle _, rfl⟩
  obtain ⟨hnone, hsome⟩ := h _ hl
  simp only [Disk.get_settle, Option.map_eq_none_iff] at hnone
  refine ⟨hnone, fun f p hget hp => hsome f.sync p ?_ ?_⟩
  · rw [Disk.get_settle, hget]
    rfl
  · rwa [FileData.sync, FileData.combined, List.append_nil]

theorem remembers_nil : Remembers [] s := fun _ _ => ⟨fun _ => rfl, fun _ _ _ _ e he => by cases he⟩

/-! ## Specifications

For any fates: calls may fail, writes may be cut short, and power may be lost before any call. -/

section Specs

variable {F : Fate → Prop} {m : μ}

theorem rewriting_empty {d : Disk FileName} (hget : d.get stateFile = some ⟨[], []⟩) :
    Rewriting promised (s.withDisk d) := by
  refine ⟨_, hget, ?_⟩
  rintro f' ⟨q, hq, rfl⟩
  rw [torn_nil] at hq
  subst hq
  exact Torn.lost _

theorem wp_openForRewrite (h : Remembers granted s) (hle : ∀ e ∈ granted, e ≤ promised) :
    wp F (openForRewrite : Prog μ (Store γ) PersistError Unit)
      (fun _ m' s' => m' = m ∧ s'.disk.get stateFile = some ⟨[], []⟩)
      (fun _ m' s' => m' = m ∧ Remembers granted s') (Remembers granted) m s := by
  refine wp_bind (wp_attempt (wp_createNew (fun _ => h) (fun _ _ => wp_fail ⟨rfl, h⟩) ?_ ?_))
  · intro _
    exact wp_pure ⟨rfl, Disk.get_put_self ..⟩
  · intro f hf
    refine wp_bind (wp_mapErr (wp_onFile (fun _ => h) (fun _ _ => ⟨rfl, h⟩) ?_
      (fun _ => ⟨rfl, h⟩)))
    intro f' _
    -- the file is empty now, and stays so until the record is written
    have hget : (s.disk.put stateFile (f'.truncate 0)).get stateFile = some ⟨[], []⟩ := by
      rw [Disk.get_put_self]
      rfl
    have hempty : Remembers granted (s.withDisk (s.disk.put stateFile (f'.truncate 0))) :=
      (rewriting_empty hget).remembers hle
    exact wp_mapErr (wp_ofFile (fun _ => hempty) (fun _ _ => ⟨rfl, hempty⟩) (fun _ _ => ⟨rfl, hget⟩)
      (fun _ => ⟨rfl, hempty⟩))

/-- **Persisting a promise** that is at or above every granted epoch never loses one. -/
theorem wp_persist (h : Remembers granted s) (hle : ∀ e ∈ granted, e ≤ promised) :
    wp F (persist promised : Prog μ (Store γ) PersistError Unit)
      (fun _ m' s' => m' = m ∧ Rewriting promised s' ∧
        s'.disk.get stateFile = some ⟨recordBytes promised, []⟩)
      (fun _ m' s' => m' = m ∧ Remembers granted s') (Remembers granted) m s := by
  refine wp_seq (wp_openForRewrite h hle) ?_
  rintro - m₁ s₁ ⟨rfl, hget⟩
  have h₁ : Remembers granted s₁ := (rewriting_empty (s := s₁) hget).remembers hle
  -- a prefix of the record, written but not synced
  have hwritten : ∀ n, Rewriting promised
      (s₁.withDisk (s₁.disk.put stateFile (FileData.write ⟨[], []⟩ ((recordBytes promised).take n)))) := by
    intro n
    refine ⟨_, Disk.get_put_self .., ?_⟩
    rintro f' ⟨q, hq, rfl⟩
    have hq : Torn ((recordBytes promised).take n) q := hq
    have htorn := hq.append_right ((recordBytes promised).drop n)
    rw [List.take_append_drop] at htorn
    simpa [FileData.combined, FileData.write] using htorn
  refine wp_bind (wp_mapErr (wp_writeAll (fun _ => h₁) ?_ ?_ ?_))
  · intro n f _ hf
    obtain rfl : _ = f := Option.some.inj (hget.symm.trans hf)
    exact ⟨rfl, (hwritten n).remembers hle⟩
  · intro e hnone
    rw [hget] at hnone
    cases hnone
  intro f hf
  obtain rfl : _ = f := Option.some.inj (hget.symm.trans hf)
  have h₂ := (hwritten (recordBytes promised).length).remembers hle
  rw [List.take_length] at h₂
  refine wp_mapErr (wp_onFile (fun _ => h₂) (fun _ _ => ⟨rfl, h₂⟩) ?_ (fun _ => ⟨rfl, h₂⟩))
  intro f' hf'
  have hf' : some (FileData.write ⟨[], []⟩ (recordBytes promised)) = some f' := by
    rw [← hf']
    exact (Disk.get_put_self ..).symm
  cases hf'
  have hsynced : ((s₁.withDisk (s₁.disk.put stateFile (FileData.write ⟨[], []⟩
      (recordBytes promised)))).disk.put stateFile (FileData.sync (FileData.write ⟨[], []⟩
      (recordBytes promised)))).get stateFile = some ⟨recordBytes promised, []⟩ := by
    rw [Disk.get_put_self]
    rfl
  refine ⟨rfl, ⟨_, hsynced, ?_⟩, hsynced⟩
  intro f'' hs
  rw [hs.eq_of_synced rfl]
  simpa [FileData.combined] using Torn.refl (recordBytes promised)

/-- **Answering a request**: a grant is above everything granted before and is remembered from then
on; whatever else happens, nothing granted is forgotten. -/
theorem wp_handle {a : Acceptor} (request : VoteRequest) (h : Remembers granted s)
    (hle : ∀ e ∈ granted, e ≤ a.promised) :
    wp F (handle request)
      (fun reply a' s' =>
        (∃ highWater, reply = .grant request.epoch highWater ∧ a'.promised = request.epoch ∧
          (∀ e ∈ granted, e < request.epoch) ∧ Remembers (granted ++ [request.epoch]) s') ∨
        (∃ promised, reply = .reject promised) ∧ Remembers granted s' ∧
          ∀ e ∈ granted, e ≤ a'.promised)
      (fun _ a' s' => Remembers granted s' ∧ ∀ e ∈ granted, e ≤ a'.promised)
      (Remembers granted) a s := by
  refine wp_bind (wp_mem (wp_bind (wp_update ?_)))
  rcases a.handle_cases request with ⟨hlt, heq⟩ | ⟨hge, heq⟩
  · -- granted: the promise is raised
    have hbelow : ∀ e ∈ granted, e < request.epoch := fun e he => UInt64.lt_of_le_of_lt (hle e he) hlt
    rw [heq]
    refine wp_bind (wp_when (fun _ => ?_) (fun hn => absurd hlt hn))
    refine wp_mono (wp_persist h fun e he => UInt64.le_of_lt (hbelow e he)) ?_ ?_ (fun _ h => h)
    · rintro - a' s' ⟨rfl, hrw, -⟩
      refine wp_pure (Or.inl ⟨a.highWater, rfl, rfl, hbelow, hrw.remembers fun e he => ?_⟩)
      rcases List.mem_append.mp he with hold | hsing
      · exact UInt64.le_of_lt (hbelow e hold)
      · rw [List.mem_singleton.mp hsing]
        exact UInt64.le_refl _
    · rintro - a' s' ⟨rfl, hrem⟩
      exact ⟨hrem, fun e he => UInt64.le_of_lt (hbelow e he)⟩
  · -- refused: nothing changes
    rw [heq]
    refine wp_bind (wp_when (fun hlt => absurd hlt (UInt64.lt_irrefl _)) (fun _ => ?_))
    exact wp_pure (Or.inr ⟨⟨a.promised, rfl⟩, h, hle⟩)

/-- **Reopening** never comes back below a granted epoch. -/
theorem wp_openAt (h : Remembers granted s) :
    wp F (openAt : Prog μ (Store γ) PersistError Acceptor)
      (fun a _ s' => s' = s ∧ ∀ e ∈ granted, e ≤ a.promised) (fun _ _ s' => s' = s)
      (fun s' => s' = s) m s := by
  obtain ⟨hnone, hsome⟩ := h.read
  refine wp_bind (wp_attempt (wp_ofFile (fun _ => rfl) (fun _ _ => wp_fail rfl) ?_ ?_))
  · intro f hf
    refine wp_bind (wp_ofExcept (fun p hp => wp_pure ⟨rfl, fun e he => ?_⟩) (fun _ _ => rfl))
    have hle := hsome f p hf hp e he
    by_cases hpos : p > 0
    · rw [if_pos hpos]
      rcases Acceptor.new.handle_cases ⟨p⟩ with ⟨-, heq⟩ | ⟨hge, -⟩
      · rw [heq]
        exact hle
      · exact absurd hpos (UInt64.not_lt.mpr hge)
    · rw [if_neg hpos]
      exact UInt64.le_trans hle (UInt64.not_lt.mp hpos)
  · intro hmissing
    refine wp_pure ⟨rfl, fun e he => ?_⟩
    rw [hnone hmissing] at he
    cases he

end Specs

end PersistentAcceptor

end Ticktape.Cluster
