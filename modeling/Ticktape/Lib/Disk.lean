import Ticktape.Lib.Bytes
import Std.Data.ExtTreeMap.Lemmas

/-!
# A directory of files that can lose power

Each file is a synced part, which survives, and an unsynced part, of which a power loss
keeps a possibly damaged prefix. Readers see both parts (page-cache semantics). Creations
and removals are durable at once; the names whose directory entry was synced explicitly
are recorded separately in `entries`.
-/

namespace Ticktape.Lib

open Std

/-- One file. -/
structure FileData where
  synced : Bytes
  unsynced : Bytes
  deriving DecidableEq

/-- What a reader sees. -/
def FileData.combined (f : FileData) : Bytes := f.synced ++ f.unsynced

/-- The file after a sync. -/
def FileData.sync (f : FileData) : FileData := ⟨f.synced ++ f.unsynced, []⟩

/-- The file after a write that reached its end. -/
def FileData.write (f : FileData) (buf : Bytes) : FileData := { f with unsynced := f.unsynced ++ buf }

/-- The file cut to `n` bytes, durably. -/
def FileData.truncate (f : FileData) (n : ℕ) : FileData := ⟨f.combined.take n, []⟩

/-- `f'` is what may be left of `f` after a power loss. -/
def FileData.Survives (f f' : FileData) : Prop :=
  ∃ q, Torn f.unsynced q ∧ f' = ⟨f.synced ++ q, []⟩

/-- Why a storage call failed. -/
inductive IoError where
  | notFound
  | alreadyExists
  /-- An error the environment injected. -/
  | injected
  deriving DecidableEq, Repr

/-- A directory. -/
structure Disk (κ : Type) [Ord κ] where
  files : ExtTreeMap κ FileData
  entries : List κ

namespace Disk

variable {κ : Type} [Ord κ] [TransOrd κ] [LawfulEqOrd κ]

/-- The empty directory. -/
def empty : Disk κ := ⟨∅, []⟩

/-- Replace (or create) a file. -/
def put (d : Disk κ) (k : κ) (f : FileData) : Disk κ := { d with files := d.files.insert k f }

/-- Remove a file. -/
def del (d : Disk κ) (k : κ) : Disk κ := { d with files := d.files.erase k }

/-- Look a file up. -/
def get (d : Disk κ) (k : κ) : Option FileData := d.files[k]?

omit [LawfulEqOrd κ] in
@[simp] theorem get_empty (k : κ) : (empty : Disk κ).get k = none := by
  simp [get, empty]

@[simp] theorem get_put_self (d : Disk κ) (k : κ) (f : FileData) : (d.put k f).get k = some f := by
  simp [get, put]

theorem get_put_of_ne (d : Disk κ) {k k' : κ} (f : FileData) (h : k ≠ k') :
    (d.put k f).get k' = d.get k' := by
  simp [get, put, ExtTreeMap.getElem?_insert, h]

@[simp] theorem get_del_self (d : Disk κ) (k : κ) : (d.del k).get k = none := by
  simp [get, del]

theorem get_del_of_ne (d : Disk κ) {k k' : κ} (h : k ≠ k') : (d.del k).get k' = d.get k' := by
  simp [get, del, ExtTreeMap.getElem?_erase, h]

/-- All names, as `list_dir` returns them. -/
def names (d : Disk κ) : List κ := d.files.keys

theorem mem_names {d : Disk κ} {k : κ} : k ∈ d.names ↔ ∃ f, d.get k = some f := by
  rw [names, ExtTreeMap.mem_keys, get, ← Option.isSome_iff_exists, ExtTreeMap.isSome_getElem?_iff_mem]

theorem names_nodup (d : Disk κ) : d.names.Nodup := by
  refine (ExtTreeMap.distinct_keys (t := d.files)).imp ?_
  intro a b h heq
  exact h (by rw [heq]; exact ReflCmp.compare_self)

/-! ## The storage calls -/

/-- Create an empty file; it must not exist. -/
def createNew (k : κ) (d : Disk κ) : Except IoError Unit × Disk κ :=
  match d.get k with
  | some _ => (.error .alreadyExists, d)
  | none => (.ok (), d.put k ⟨[], []⟩)

/-- Update an existing file. -/
def onFile (k : κ) (f : FileData → FileData) (d : Disk κ) : Except IoError Unit × Disk κ :=
  match d.get k with
  | some file => (.ok (), d.put k (f file))
  | none => (.error .notFound, d)

/-- Ask something of an existing file. -/
def ofFile {α : Type} (k : κ) (f : FileData → α) (d : Disk κ) : Except IoError α × Disk κ :=
  match d.get k with
  | some file => (.ok (f file), d)
  | none => (.error .notFound, d)

/-- Remove an existing file. -/
def remove (k : κ) (d : Disk κ) : Except IoError Unit × Disk κ :=
  match d.get k with
  | some _ => (.ok (), d.del k)
  | none => (.error .notFound, d)

/-- Sync the directory: every present entry becomes durable. -/
def syncDir (d : Disk κ) : Disk κ := { d with entries := d.names }

omit [LawfulEqOrd κ] in
@[simp] theorem get_syncDir (d : Disk κ) (k : κ) : d.syncDir.get k = d.get k := rfl

/-! ## Power loss -/

/-- `d'` is a directory that a power loss may leave of `d`: every file survives as
`FileData.Survives` allows, and no file appears or disappears. -/
def PowerLoss (d d' : Disk κ) : Prop :=
  ∀ k, Option.Rel FileData.Survives (d.get k) (d'.get k)

omit [LawfulEqOrd κ] in
theorem PowerLoss.some {d d' : Disk κ} (h : PowerLoss d d') {k : κ} {f : FileData}
    (hf : d.get k = .some f) : ∃ f', d'.get k = .some f' ∧ f.Survives f' := by
  have hk := h k
  rw [hf] at hk
  cases hk' : d'.get k with
  | none => rw [hk'] at hk; cases hk
  | some f' =>
    rw [hk'] at hk
    cases hk with
    | some hs => exact ⟨f', rfl, hs⟩

omit [LawfulEqOrd κ] in
theorem PowerLoss.of_some {d d' : Disk κ} (h : PowerLoss d d') {k : κ} {f' : FileData}
    (hf : d'.get k = .some f') : ∃ f, d.get k = .some f ∧ f.Survives f' := by
  have hk := h k
  rw [hf] at hk
  cases hk' : d.get k with
  | none => rw [hk'] at hk; cases hk
  | some f =>
    rw [hk'] at hk
    cases hk with
    | some hs => exact ⟨f, rfl, hs⟩

/-- The directory after a loss that loses nothing: every file as a reader saw it. -/
def settle (d : Disk κ) : Disk κ := { d with files := d.files.map fun _ f => f.sync }

omit [LawfulEqOrd κ] in
theorem get_settle (d : Disk κ) (k : κ) : d.settle.get k = (d.get k).map FileData.sync := by
  simp [get, settle]

omit [LawfulEqOrd κ] in
theorem powerLoss_settle (d : Disk κ) : PowerLoss d d.settle := by
  intro k
  rw [get_settle]
  cases d.get k with
  | none => exact .none
  | some f => exact .some ⟨f.unsynced, Torn.refl _, rfl⟩

/-- The directory after a loss that keeps nothing unsynced. -/
def strip (d : Disk κ) : Disk κ := { d with files := d.files.map fun _ f => ⟨f.synced, []⟩ }

omit [LawfulEqOrd κ] in
theorem powerLoss_strip (d : Disk κ) : PowerLoss d d.strip := by
  intro k
  have hget : d.strip.get k = (d.get k).map fun f => ⟨f.synced, []⟩ := by simp [get, strip]
  rw [hget]
  cases d.get k with
  | none => exact .none
  | some f => exact .some ⟨[], Torn.lost _, by simp⟩

/-- `d'` is a directory that a power loss may leave of `d` when directory entries have to be synced too: a
file whose entry was not synced since it was created may be gone. What is left is durable. -/
def EntryLoss (d d' : Disk κ) : Prop :=
  (∀ k, Option.Rel FileData.Survives (d.get k) (d'.get k) ∨ k ∉ d.entries ∧ d'.get k = none) ∧
    d'.entries = d'.names

omit [LawfulEqOrd κ] in
/-- A file whose entry was synced is not lost. -/
theorem EntryLoss.durable {d d' : Disk κ} (h : EntryLoss d d') {k : κ} (hk : k ∈ d.entries) :
    Option.Rel FileData.Survives (d.get k) (d'.get k) :=
  (h.1 k).resolve_right fun hgone => hgone.1 hk

end Disk

/-- A file with nothing unsynced survives unchanged. -/
theorem FileData.Survives.eq_of_synced {f f' : FileData} (h : f.Survives f')
    (hu : f.unsynced = []) : f' = f := by
  obtain ⟨q, hq, rfl⟩ := h
  rw [hu, torn_nil] at hq
  subst hq
  cases f
  simp_all

theorem FileData.Survives.unsynced_eq {f f' : FileData} (h : f.Survives f') : f'.unsynced = [] := by
  obtain ⟨q, -, rfl⟩ := h
  rfl

end Ticktape.Lib
