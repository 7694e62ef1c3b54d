import Ticktape.Lib.Disk
import Ticktape.Lib.Prog
import Mathlib.Data.List.Sort

/-!
# Storage

The `Storage` and `StorageFile` traits (`ticktape-journal/src/storage.rs`) over the directory
of `Lib.Disk`: every method is one storage call, so power can be lost before it and a fault can
be injected into it. A path inside the directory is modelled by what the code can tell of it,
its extension and the number in its stem; a handle is the name it was opened under, so opening
returns nothing.

A `Store` carries history variables `γ` next to the directory. No call reads them.
-/

namespace Ticktape.Journal

open Ticktape.Lib Std

/-! ## File names -/

/-- The extensions of numbered files: `{seq:020}.seg` and `{seq:020}.snap`. -/
inductive Ext where
  | seg
  | snap
  deriving DecidableEq, Repr

/-- The files of one directory. -/
inductive FileName where
  | numbered (ext : Ext) (n : ℕ)
  /-- The state file of a persistent acceptor. -/
  | acceptor
  deriving DecidableEq, Repr

namespace FileName

/-- A position in the listing order. -/
def key : FileName → ℕ
  | numbered .seg n => 3 * n
  | numbered .snap n => 3 * n + 1
  | acceptor => 2

theorem key_inj {a b : FileName} (h : a.key = b.key) : a = b := by
  rcases a with ⟨⟨⟩ | ⟨⟩, m⟩ | _ <;> rcases b with ⟨⟨⟩ | ⟨⟩, n⟩ | _ <;>
    simp only [key] at h <;> first | rfl | omega | (congr 1; omega)

instance : Ord FileName := ⟨compareOn key⟩

instance : TransOrd FileName := inferInstanceAs (TransCmp (compareOn key))

instance : LawfulEqOrd FileName where
  eq_of_compare {a b} h := key_inj (LawfulEqOrd.eq_of_compare (show compare a.key b.key = .eq from h))

/-- The number of a file with extension `e`. -/
def number (e : Ext) : FileName → Option ℕ
  | numbered e' n => if e' = e then some n else none
  | acceptor => none

theorem number_eq_some {e : Ext} {k : FileName} {n : ℕ} :
    k.number e = some n ↔ k = numbered e n := by
  cases k with
  | numbered e' m =>
    simp only [number, numbered.injEq]
    split <;> simp_all
  | acceptor => simp [number]

end FileName

/-! ## Numbered files, in order -/

section Listing

variable (e : Ext) (d : Disk FileName)

/-- The files with extension `e` and their numbers, in ascending order. -/
def filesOf : List (ℕ × FileData) :=
  d.files.toList.filterMap fun p => (p.1.number e).map (·, p.2)

variable {e d}

theorem mem_filesOf {n : ℕ} {f : FileData} :
    (n, f) ∈ filesOf e d ↔ d.get (.numbered e n) = some f := by
  rw [filesOf, List.mem_filterMap, Disk.get]
  constructor
  · rintro ⟨⟨k, g⟩, hmem, heq⟩
    obtain ⟨m, hm, hpair⟩ := Option.map_eq_some_iff.mp heq
    obtain ⟨rfl, rfl⟩ := Prod.mk.inj hpair
    rw [FileName.number_eq_some] at hm
    subst hm
    exact ExtTreeMap.mem_toList_iff_getElem?_eq_some.mp hmem
  · intro h
    refine ⟨(.numbered e n, f), ExtTreeMap.mem_toList_iff_getElem?_eq_some.mpr h, ?_⟩
    simp [FileName.number]

theorem filesOf_sorted : (filesOf e d).Pairwise (·.1 < ·.1) := by
  rw [filesOf, List.pairwise_filterMap]
  refine (ExtTreeMap.ordered_keys_toList (t := d.files)).imp ?_
  rintro ⟨k, f⟩ ⟨k', f'⟩ hlt p hp p' hp'
  obtain ⟨n, hn, rfl⟩ := Option.map_eq_some_iff.mp hp
  obtain ⟨n', hn', rfl⟩ := Option.map_eq_some_iff.mp hp'
  have hkey : k.key < k'.key := Nat.compare_eq_lt.mp hlt
  rw [show k = _ from FileName.number_eq_some.mp hn,
    show k' = _ from FileName.number_eq_some.mp hn'] at hkey
  cases e <;> simp only [FileName.key] at hkey <;> show n < n' <;> omega

/-- A sorted list with the right members is the listing. -/
theorem filesOf_eq {l : List (ℕ × FileData)} (hsorted : l.Pairwise (·.1 < ·.1))
    (hmem : ∀ n f, (n, f) ∈ l ↔ d.get (.numbered e n) = some f) : filesOf e d = l := by
  have hnodup : ∀ {l : List (ℕ × FileData)}, l.Pairwise (·.1 < ·.1) → l.Nodup := fun h =>
    h.imp (fun hlt heq => by rw [heq] at hlt; exact Nat.lt_irrefl _ hlt)
  have hperm : (filesOf e d).Perm l := by
    refine (List.perm_ext_iff_of_nodup (hnodup filesOf_sorted) (hnodup hsorted)).mpr ?_
    rintro ⟨n, f⟩
    rw [mem_filesOf, hmem]
  exact hperm.eq_of_pairwise (fun a b _ _ hab hba => absurd hab (Nat.lt_asymm hba)) filesOf_sorted
    hsorted

theorem filesOf_congr {d' : Disk FileName}
    (h : ∀ n, d'.get (.numbered e n) = d.get (.numbered e n)) : filesOf e d' = filesOf e d :=
  filesOf_eq filesOf_sorted fun n f => by rw [mem_filesOf, h]

/-- Rewriting the file listed at one place. -/
theorem filesOf_put {l r : List (ℕ × FileData)} {n : ℕ} {f₀ : FileData}
    (h : filesOf e d = l ++ (n, f₀) :: r) (f : FileData) :
    filesOf e (d.put (.numbered e n) f) = l ++ (n, f) :: r := by
  have hsorted : (l ++ (n, f₀) :: r).Pairwise (·.1 < ·.1) := h ▸ filesOf_sorted
  have hsplit := List.pairwise_append.mp hsorted
  have hright := List.pairwise_cons.mp hsplit.2.1
  refine filesOf_eq ?_ ?_
  · exact List.pairwise_append.mpr ⟨hsplit.1, List.pairwise_cons.mpr ⟨hright.1, hright.2⟩,
      fun a ha b hb => by
        rcases List.mem_cons.mp hb with rfl | hb
        · exact hsplit.2.2 a ha (n, f₀) (List.mem_cons_self ..)
        · exact hsplit.2.2 a ha b (List.mem_cons_of_mem _ hb)⟩
  · intro m g
    by_cases hm : m = n
    · -- the rewritten number stands nowhere else in the listing
      subst hm
      have hl : ∀ g, (m, g) ∉ l := fun g hg =>
        Nat.lt_irrefl _ (hsplit.2.2 (m, g) hg (m, f₀) (List.mem_cons_self ..))
      have hr : ∀ g, (m, g) ∉ r := fun g hg => Nat.lt_irrefl _ (hright.1 (m, g) hg)
      rw [Disk.get_put_self]
      simp [hl, hr, eq_comm]
    · have hne : FileName.numbered e n ≠ .numbered e m := by simpa using fun h => hm h.symm
      rw [Disk.get_put_of_ne d f hne, ← mem_filesOf, h]
      simp [hm]

/-- A file numbered above all others is listed last. -/
theorem filesOf_put_new {n : ℕ} (h : ∀ p ∈ filesOf e d, p.1 < n) (f : FileData) :
    filesOf e (d.put (.numbered e n) f) = filesOf e d ++ [(n, f)] := by
  refine filesOf_eq ?_ ?_
  · refine List.pairwise_append.mpr ⟨filesOf_sorted, List.pairwise_singleton .., ?_⟩
    intro a ha b hb
    rw [List.mem_singleton.mp hb]
    exact h a ha
  · intro m g
    rw [List.mem_append, mem_filesOf, List.mem_singleton]
    by_cases hm : m = n
    · subst hm
      have hnew : d.get (.numbered e m) ≠ some g := fun hg =>
        Nat.lt_irrefl _ (h (m, g) (mem_filesOf.mpr hg))
      rw [Disk.get_put_self]
      simp [hnew, eq_comm]
    · have hne : FileName.numbered e n ≠ .numbered e m := by simpa using fun h => hm h.symm
      rw [Disk.get_put_of_ne d f hne]
      simp [hm]

/-- Removing a file. -/
theorem filesOf_del (n : ℕ) :
    filesOf e (d.del (.numbered e n)) = (filesOf e d).filter (·.1 ≠ n) := by
  refine filesOf_eq (filesOf_sorted.filter _) ?_
  intro m g
  rw [List.mem_filter, mem_filesOf]
  by_cases hm : m = n
  · subst hm
    simp
  · have hne : FileName.numbered e n ≠ .numbered e m := by simpa using fun h => hm h.symm
    rw [Disk.get_del_of_ne d hne]
    simp [hm]

/-- A power loss leaves the same numbers, each with a survivor of its file. -/
theorem filesOf_powerLoss {d' : Disk FileName} (h : Disk.PowerLoss d d') :
    List.Forall₂ (fun p p' => p'.1 = p.1 ∧ FileData.Survives p.2 p'.2) (filesOf e d) (filesOf e d') := by
  -- both listings are the sorted list of the same numbers
  have key : ∀ l l' : List (ℕ × FileData), l.Pairwise (·.1 < ·.1) → l'.Pairwise (·.1 < ·.1) →
      (∀ p ∈ l, ∃ f', (p.1, f') ∈ l' ∧ p.2.Survives f') →
      (∀ p ∈ l', ∃ f, (p.1, f) ∈ l) →
      List.Forall₂ (fun p p' => p'.1 = p.1 ∧ FileData.Survives p.2 p'.2) l l' := by
    intro l
    induction l with
    | nil =>
      rintro (_ | ⟨p, l'⟩) _ _ _ hback
      · exact .nil
      · obtain ⟨f, hf⟩ := hback p (List.mem_cons_self ..)
        cases hf
    | cons p l ih =>
      rintro (_ | ⟨p', l'⟩) hl hl' hfwd hback
      · obtain ⟨f', hf', _⟩ := hfwd p (List.mem_cons_self ..)
        cases hf'
      rw [List.pairwise_cons] at hl hl'
      have hhead : p'.1 = p.1 := by
        obtain ⟨f', hf', _⟩ := hfwd p (List.mem_cons_self ..)
        obtain ⟨f, hf⟩ := hback p' (List.mem_cons_self ..)
        rcases List.mem_cons.mp hf' with heq | hmem'
        · rw [← heq]
        · rcases List.mem_cons.mp hf with heq | hmem
          · rw [← heq]
          · have h₁ := hl'.1 _ hmem'
            have h₂ := hl.1 _ hmem
            simp only at h₁ h₂
            omega
      refine .cons ⟨hhead, ?_⟩ (ih l' hl.2 hl'.2 ?_ ?_)
      · obtain ⟨f', hf', hs⟩ := hfwd p (List.mem_cons_self ..)
        rcases List.mem_cons.mp hf' with heq | hmem'
        · rw [← heq]
          exact hs
        · have h₁ := hl'.1 _ hmem'
          simp only at h₁
          omega
      · intro r hr
        obtain ⟨f', hf', hs⟩ := hfwd r (List.mem_cons_of_mem _ hr)
        rcases List.mem_cons.mp hf' with heq | hmem'
        · have h₁ := hl.1 r hr
          have h₂ : p'.1 = r.1 := by rw [← heq]
          omega
        · exact ⟨f', hmem', hs⟩
      · intro r hr
        obtain ⟨f, hf⟩ := hback r (List.mem_cons_of_mem _ hr)
        rcases List.mem_cons.mp hf with heq | hmem
        · have h₁ := hl'.1 r hr
          have h₂ : p.1 = r.1 := by rw [← heq]
          omega
        · exact ⟨f, hmem⟩
  refine key _ _ filesOf_sorted filesOf_sorted ?_ ?_
  · rintro ⟨n, f⟩ hp
    obtain ⟨f', hf', hs⟩ := h.some (mem_filesOf.mp hp)
    exact ⟨f', mem_filesOf.mpr hf', hs⟩
  · rintro ⟨n, f'⟩ hp
    obtain ⟨f, hf, _⟩ := h.of_some (mem_filesOf.mp hp)
    exact ⟨f, mem_filesOf.mpr hf⟩

/-- What the code computes of a listing: the numbers of one extension, sorted. -/
def sortedNumbers (e : Ext) (names : List FileName) : List ℕ :=
  (names.filterMap (·.number e)).insertionSort (· ≤ ·)

theorem sortedNumbers_names : sortedNumbers e d.names = (filesOf e d).map Prod.fst := by
  have hmap : d.names.filterMap (·.number e) = (filesOf e d).map Prod.fst := by
    rw [Disk.names, filesOf, ← ExtTreeMap.map_fst_toList_eq_keys, List.filterMap_map,
      List.map_filterMap]
    congr 1
    funext p
    simp [Function.comp_def]
  have hsorted : ((filesOf e d).map Prod.fst).Pairwise (· ≤ ·) :=
    List.pairwise_map.mpr (filesOf_sorted.imp Nat.le_of_lt)
  rw [sortedNumbers, hmap, List.Pairwise.insertionSort_eq hsorted]

end Listing

/-! ## The store and its calls -/

/-- A directory together with history variables. -/
structure Store (γ : Type) where
  disk : Disk FileName
  ghost : γ

/-- What a power loss may leave of a store; history is not affected. -/
def Store.PowerLoss {γ : Type} (s s' : Store γ) : Prop :=
  Disk.PowerLoss s.disk s'.disk ∧ s'.ghost = s.ghost

variable {μ γ α : Type}

/-- A program over a store whose errors are I/O errors. -/
abbrev Io (μ γ α : Type) := Prog μ (Store γ) IoError α

/-- A storage call that acts on the directory; an injected fault leaves it unchanged. -/
def diskCall (act : Disk FileName → Except IoError α × Disk FileName) : Io μ γ α :=
  Prog.call (fun s => ((act s.disk).1, { s with disk := (act s.disk).2 })) (fun _ s => s) .injected

/-- The directory always exists in the model. -/
def createDirAll : Io μ γ Unit := diskCall fun d => (.ok (), d)

/-- All names in the directory; the order is unspecified and callers sort. -/
def listDir : Io μ γ (List FileName) := diskCall fun d => (.ok d.names, d)

/-- Read a whole file, unsynced writes included. -/
def read (k : FileName) : Io μ γ Bytes := diskCall (Disk.ofFile k FileData.combined)

/-- Open an existing file for appending. -/
def openAppend (k : FileName) : Io μ γ Unit := diskCall (Disk.ofFile k fun _ => ())

/-- Create a new file for appending; an error if it exists. -/
def createNew (k : FileName) : Io μ γ Unit := diskCall (Disk.createNew k)

/-- Truncate a file, durably. -/
def truncate (k : FileName) (len : ℕ) : Io μ γ Unit := diskCall (Disk.onFile k (·.truncate len))

/-- Remove a file. -/
def remove (k : FileName) : Io μ γ Unit := diskCall (Disk.remove k)

/-- Durably persist the directory entries. -/
def syncDir : Io μ γ Unit := diskCall fun d => (.ok (), d.syncDir)

/-- Append to an open file; a fault may strike after a prefix was written. -/
def writeAll (k : FileName) (buf : Bytes) : Io μ γ Unit :=
  Prog.call (fun s => ((Disk.onFile k (·.write buf) s.disk).1,
      { s with disk := (Disk.onFile k (·.write buf) s.disk).2 }))
    (fun n s => { s with disk := (Disk.onFile k (·.write (buf.take n)) s.disk).2 }) .injected

/-- Persist written data. -/
def syncData (k : FileName) : Io μ γ Unit := diskCall (Disk.onFile k FileData.sync)

/-- The length of an open file. -/
def fileLen (k : FileName) : Io μ γ ℕ := diskCall (Disk.ofFile k fun f => f.combined.length)

/-! ## Rules of the calls

Stated for any fates: the process may go down before the call (`hcut`), a fault may be injected
(`hfault`), or the call takes effect. -/

section Rules

variable {F : Fate → Prop} {E : IoError → μ → Store γ → Prop} {C : Store γ → Prop} {m : μ}
  {s : Store γ}

/-- Replace the directory. -/
def Store.withDisk (s : Store γ) (d : Disk FileName) : Store γ := { s with disk := d }

@[simp] theorem Store.withDisk_disk (s : Store γ) (d : Disk FileName) : (s.withDisk d).disk = d := rfl

@[simp] theorem Store.withDisk_ghost (s : Store γ) (d : Disk FileName) :
    (s.withDisk d).ghost = s.ghost := rfl

theorem wp_diskCall {act : Disk FileName → Except IoError α × Disk FileName}
    {Q : α → μ → Store γ → Prop} (hcut : F .cut → C s)
    (hfault : ∀ k, F (.fault k) → E .injected m s)
    (hok : ∀ a d, act s.disk = (.ok a, d) → Q a m (s.withDisk d))
    (herr : ∀ e d, act s.disk = (.error e, d) → E e m (s.withDisk d)) :
    wp F (diskCall act) Q E C m s := by
  refine wp_call hcut hfault ?_ ?_
  · intro a s' h
    obtain ⟨h₁, rfl⟩ := Prod.mk.inj h
    exact hok a _ (Prod.ext h₁ rfl)
  · intro e s' h
    obtain ⟨h₁, rfl⟩ := Prod.mk.inj h
    exact herr e _ (Prod.ext h₁ rfl)

theorem wp_createDirAll {Q : Unit → μ → Store γ → Prop} (hcut : F .cut → C s)
    (hfault : ∀ k, F (.fault k) → E .injected m s) (hok : Q () m s) :
    wp F createDirAll Q E C m s :=
  wp_diskCall hcut hfault (fun _ _ h => by cases h; exact hok) (fun _ _ h => by cases h)

theorem wp_listDir {Q : List FileName → μ → Store γ → Prop} (hcut : F .cut → C s)
    (hfault : ∀ k, F (.fault k) → E .injected m s) (hok : Q s.disk.names m s) :
    wp F listDir Q E C m s :=
  wp_diskCall hcut hfault (fun _ _ h => by cases h; exact hok) (fun _ _ h => by cases h)

theorem wp_syncDir {Q : Unit → μ → Store γ → Prop} (hcut : F .cut → C s)
    (hfault : ∀ k, F (.fault k) → E .injected m s)
    (hok : Q () m (s.withDisk s.disk.syncDir)) : wp F syncDir Q E C m s :=
  wp_diskCall hcut hfault (fun _ _ h => by cases h; exact hok) (fun _ _ h => by cases h)

theorem wp_ofFile {k : FileName} {g : FileData → α} {Q : α → μ → Store γ → Prop}
    (hcut : F .cut → C s) (hfault : ∀ k, F (.fault k) → E .injected m s)
    (hok : ∀ f, s.disk.get k = some f → Q (g f) m s)
    (herr : s.disk.get k = none → E .notFound m s) :
    wp F (diskCall (Disk.ofFile k g)) Q E C m s := by
  refine wp_diskCall hcut hfault ?_ ?_
  · intro a d h
    unfold Disk.ofFile at h
    split at h <;> cases h
    exact hok _ ‹_›
  · intro e d h
    unfold Disk.ofFile at h
    split at h <;> cases h
    exact herr ‹_›

theorem wp_onFile {k : FileName} {g : FileData → FileData} {Q : Unit → μ → Store γ → Prop}
    (hcut : F .cut → C s) (hfault : ∀ k, F (.fault k) → E .injected m s)
    (hok : ∀ f, s.disk.get k = some f → Q () m (s.withDisk (s.disk.put k (g f))))
    (herr : s.disk.get k = none → E .notFound m s) :
    wp F (diskCall (Disk.onFile k g)) Q E C m s := by
  refine wp_diskCall hcut hfault ?_ ?_
  · intro a d h
    unfold Disk.onFile at h
    split at h <;> cases h
    exact hok _ ‹_›
  · intro e d h
    unfold Disk.onFile at h
    split at h <;> cases h
    exact herr ‹_›

theorem wp_createNew {k : FileName} {Q : Unit → μ → Store γ → Prop} (hcut : F .cut → C s)
    (hfault : ∀ k, F (.fault k) → E .injected m s)
    (hok : s.disk.get k = none → Q () m (s.withDisk (s.disk.put k ⟨[], []⟩)))
    (herr : ∀ f, s.disk.get k = some f → E .alreadyExists m s) :
    wp F (createNew k) Q E C m s := by
  refine wp_diskCall hcut hfault ?_ ?_
  · intro a d h
    unfold Disk.createNew at h
    split at h <;> cases h
    exact hok ‹_›
  · intro e d h
    unfold Disk.createNew at h
    split at h <;> cases h
    exact herr _ ‹_›

theorem wp_remove {k : FileName} {Q : Unit → μ → Store γ → Prop} (hcut : F .cut → C s)
    (hfault : ∀ k, F (.fault k) → E .injected m s)
    (hok : ∀ f, s.disk.get k = some f → Q () m (s.withDisk (s.disk.del k)))
    (herr : s.disk.get k = none → E .notFound m s) :
    wp F (remove k) Q E C m s := by
  refine wp_diskCall hcut hfault ?_ ?_
  · intro a d h
    unfold Disk.remove at h
    split at h <;> cases h
    exact hok _ ‹_›
  · intro e d h
    unfold Disk.remove at h
    split at h <;> cases h
    exact herr ‹_›

theorem wp_writeAll {k : FileName} {buf : Bytes} {Q : Unit → μ → Store γ → Prop}
    (hcut : F .cut → C s)
    (hfault : ∀ n f, F (.fault n) → s.disk.get k = some f →
      E .injected m (s.withDisk (s.disk.put k (f.write (buf.take n)))))
    (hmissing : ∀ e, s.disk.get k = none → E e m s)
    (hok : ∀ f, s.disk.get k = some f → Q () m (s.withDisk (s.disk.put k (f.write buf)))) :
    wp F (writeAll k buf) Q E C m s := by
  have hon : ∀ g : FileData → FileData, (∃ f, s.disk.get k = some f ∧
      Disk.onFile k g s.disk = (.ok (), s.disk.put k (g f))) ∨
      (s.disk.get k = none ∧ Disk.onFile k g s.disk = (.error .notFound, s.disk)) := by
    intro g
    unfold Disk.onFile
    cases s.disk.get k with
    | none => exact Or.inr ⟨rfl, rfl⟩
    | some f => exact Or.inl ⟨f, rfl, rfl⟩
  refine wp_call hcut ?_ ?_ ?_
  · intro n hF
    rcases hon (·.write (buf.take n)) with ⟨f, hf, heq⟩ | ⟨hf, heq⟩
    · simp only [heq]
      exact hfault n f hF hf
    · simp only [heq]
      exact hmissing _ hf
  · intro a s' h
    rcases hon (·.write buf) with ⟨f, hf, heq⟩ | ⟨hf, heq⟩
    · simp only [heq] at h
      cases h
      exact hok f hf
    · simp only [heq] at h
      cases h
  · intro e s' h
    rcases hon (·.write buf) with ⟨f, hf, heq⟩ | ⟨hf, heq⟩
    · simp only [heq] at h
      cases h
    · simp only [heq] at h
      cases h
      exact hmissing _ hf

end Rules

end Ticktape.Journal
