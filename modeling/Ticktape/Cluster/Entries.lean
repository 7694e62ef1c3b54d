import Ticktape.Cluster.Winner

/-!
# Directory entries

An acceptor on a storage that keeps a new file only once its directory was synced. `persist` syncs the
state file and never the directory, so the file that holds the first promise can vanish as a whole. The
promises survive every loss that comes after someone else, such as the journal in the same directory,
has synced it (`promises_survive`).
-/

namespace Ticktape.Cluster

open Ticktape.Lib Ticktape.Core Ticktape.Journal Ticktape.Cluster.PersistentAcceptor

/-- An acceptor and the epochs it has granted so far. -/
structure Voter where
  site : Site
  granted : List UInt64

/-- The epoch a reply grants. -/
def VoteReply.granted : VoteReply → List UInt64
  | grant epoch _ => [epoch]
  | reject _ => []

/-- What a voter does. Power may be lost before any storage call, where `mayLose` allows it. -/
inductive VoterStep (mayLose : Voter → Prop) : Voter → Voter → Prop where
  | answered {w w' : World (Store Unit)} {a a' : Acceptor} {reply : VoteReply} {granted : List UInt64}
      (request : VoteRequest) : handle request a w = .ok reply a' w' →
      VoterStep mayLose ⟨⟨some a, w.st⟩, granted⟩ ⟨⟨some a', w'.st⟩, granted ++ reply.granted⟩
  /-- A storage call returned an error. -/
  | failed {w w' : World (Store Unit)} {a a' : Acceptor} {e : PersistError} {granted : List UInt64}
      (request : VoteRequest) : handle request a w = .err e a' w' →
      VoterStep mayLose ⟨⟨some a, w.st⟩, granted⟩ ⟨⟨some a', w'.st⟩, granted⟩
  /-- Power is lost while a request is handled. -/
  | cut {w w' : World (Store Unit)} {a : Acceptor} {d : Disk FileName} {granted : List UInt64}
      (request : VoteRequest) : handle request a w = .down w' →
      mayLose ⟨⟨some a, w.st⟩, granted⟩ → w'.st.disk.EntryLoss d →
      VoterStep mayLose ⟨⟨some a, w.st⟩, granted⟩ ⟨⟨none, w'.st.withDisk d⟩, granted⟩
  /-- Power is lost between requests, or while the acceptor is down or being opened. -/
  | killed {v : Voter} {d : Disk FileName} : mayLose v → v.site.store.disk.EntryLoss d →
      VoterStep mayLose v ⟨⟨none, v.site.store.withDisk d⟩, v.granted⟩
  /-- The process ends, and the machine goes on. -/
  | exited {v : Voter} : VoterStep mayLose v ⟨⟨none, v.site.store⟩, v.granted⟩
  | reopened {w w' : World (Store Unit)} {a : Acceptor} {granted : List UInt64} :
      openAt () w = .ok a () w' →
      VoterStep mayLose ⟨⟨none, w.st⟩, granted⟩ ⟨⟨some a, w'.st⟩, granted⟩
  /-- The state file does not parse, or could not be read. -/
  | refused {w w' : World (Store Unit)} {e : PersistError} {granted : List UInt64} :
      openAt () w = .err e () w' →
      VoterStep mayLose ⟨⟨none, w.st⟩, granted⟩ ⟨⟨none, w'.st⟩, granted⟩
  /-- Another part of the program syncs the directory. -/
  | dirSynced {v : Voter} : VoterStep mayLose v
      ⟨⟨v.site.acceptor, v.site.store.withDisk v.site.store.disk.syncDir⟩, v.granted⟩
  /-- The co-located replica journals frames, or its journal is cut by a fence. -/
  | observed {a : Acceptor} {s : Store Unit} {granted : List UInt64} (seq : ℕ) :
      VoterStep mayLose ⟨⟨some a, s⟩, granted⟩ ⟨⟨some (a.observeSeq seq), s⟩, granted⟩
  | reset {a : Acceptor} {s : Store Unit} {granted : List UInt64} (seq : ℕ) :
      VoterStep mayLose ⟨⟨some a, s⟩, granted⟩ ⟨⟨some (a.resetHighWater seq), s⟩, granted⟩

/-- The runs of a voter, from an empty directory. -/
inductive Voter.Reachable (mayLose : Voter → Prop) : Voter → Prop where
  | start : Reachable mayLose ⟨⟨none, ⟨.empty, ()⟩⟩, []⟩
  | step {v v' : Voter} : Reachable mayLose v → VoterStep mayLose v v' → Reachable mayLose v'

/-- **When a loss is harmless**: nothing was granted yet, or the directory was synced since the state
file was created. -/
def Voter.Anchored (v : Voter) : Prop := v.granted = [] ∨ stateFile ∈ v.site.store.disk.entries

/-! ## No call of an acceptor touches the entries -/

section Entries

variable {F : Fate → Prop} {μ α : Type} {entries : List FileName}

theorem keeps_entries_diskCall {act : Disk FileName → Except IoError α × Disk FileName}
    (h : ∀ d, (act d).2.entries = d.entries) :
    Keeps F (fun s : Store Unit => s.disk.entries = entries) (diskCall act : Io μ Unit α) :=
  keeps_call (fun _ _ hs => hs) fun s hs => (h s.disk).trans hs

theorem entries_onFile (k : FileName) (g : FileData → FileData) (d : Disk FileName) :
    (d.onFile k g).2.entries = d.entries := by
  unfold Disk.onFile
  split <;> rfl

theorem keeps_entries_openForRewrite : Keeps F (fun s : Store Unit => s.disk.entries = entries)
    (openForRewrite : Prog μ (Store Unit) PersistError Unit) := by
  refine keeps_bind (keeps_attempt (keeps_entries_diskCall fun d => ?_)) fun result => ?_
  · unfold Disk.createNew
    split <;> rfl
  · match result with
    | .ok _ => exact keeps_pure _
    | .error .alreadyExists =>
      refine keeps_bind (keeps_mapErr (keeps_entries_diskCall (entries_onFile _ _))) fun _ => ?_
      refine keeps_mapErr (keeps_entries_diskCall fun d => ?_)
      unfold Disk.ofFile
      split <;> rfl
    | .error .notFound => exact keeps_fail _
    | .error .injected => exact keeps_fail _

theorem keeps_entries_handle (request : VoteRequest) :
    Keeps F (fun s : Store Unit => s.disk.entries = entries)
      (handle request : Prog Acceptor (Store Unit) PersistError VoteReply) := by
  refine keeps_bind keeps_mem fun a => keeps_bind (keeps_update _) fun _ => ?_
  refine keeps_bind (keeps_when ?_) fun _ => keeps_pure _
  refine keeps_bind keeps_entries_openForRewrite fun _ => ?_
  refine keeps_bind (keeps_mapErr (keeps_call (fun _ _ hs => ?_) fun _ hs => ?_)) fun _ => ?_
  · exact (entries_onFile ..).trans hs
  · exact (entries_onFile ..).trans hs
  · exact keeps_mapErr (keeps_entries_diskCall (entries_onFile _ _))

end Entries

/-! ## Promises survive -/

/-- **The invariant of a voter**: it grants in increasing order, and forgets nothing. -/
structure Voter.Inv (v : Voter) : Prop where
  site : SiteInv v.granted v.site
  increasing : v.granted.Pairwise (· < ·)

variable {v v' : Voter}

/-- A harmless loss. -/
theorem remembers_entryLoss {granted : List UInt64} {s : Store Unit} {d : Disk FileName}
    (h : Remembers granted s) (hanchored : granted = [] ∨ stateFile ∈ s.disk.entries)
    (hloss : s.disk.EntryLoss d) : Remembers granted (s.withDisk d) := by
  rcases hanchored with rfl | hentry
  · exact remembers_nil
  · exact h.of_survives (hloss.durable hentry)

/-- **Step lemma.** -/
theorem VoterStep.inv (hstep : VoterStep Voter.Anchored v v') (h : v.Inv) : v'.Inv := by
  have hany : ∀ {w : World (Store Unit)}, ∀ f ∈ w.fates, (fun _ : Fate => True) f := fun _ _ => trivial
  obtain ⟨hsite, hincreasing⟩ := h
  cases hstep with
  | answered request hrun =>
    rcases hsite.answered hrun with ⟨highWater, rfl, hlt, hsite'⟩ | ⟨⟨promised, rfl⟩, hsite'⟩
    · refine ⟨hsite', List.pairwise_append.mpr ⟨hincreasing, List.pairwise_singleton .., ?_⟩⟩
      intro e he e' he'
      rw [List.mem_singleton.mp he']
      exact hlt e he
    · simp only [VoteReply.granted, List.append_nil]
      exact ⟨hsite', hincreasing⟩
  | failed request hrun => exact ⟨(SiteStep.failed request hrun).inv hsite, hincreasing⟩
  | @cut w w' a d granted request hrun hanchored hloss =>
    have hrem := wp_down (wp_handle request hsite.disk (hsite.process _ rfl)) hany hrun
    have hentries := wp_down (keeps_entries_handle request a w.st rfl) hany hrun
    refine ⟨.down (remembers_entryLoss hrem ?_ hloss), hincreasing⟩
    rw [hentries]
    exact hanchored
  | killed hanchored hloss => exact ⟨.down (remembers_entryLoss hsite.disk hanchored hloss), hincreasing⟩
  | exited => exact ⟨.down hsite.disk, hincreasing⟩
  | reopened hrun => exact ⟨(SiteStep.reopened hrun).inv hsite, hincreasing⟩
  | refused hrun => exact ⟨(SiteStep.refused hrun).inv hsite, hincreasing⟩
  | dirSynced => exact ⟨⟨hsite.disk, hsite.process⟩, hincreasing⟩
  | observed seq => exact ⟨(SiteStep.observed seq).inv hsite, hincreasing⟩
  | reset seq => exact ⟨(SiteStep.reset seq).inv hsite, hincreasing⟩

/-- **Run lemma.** -/
theorem Voter.Reachable.inv (h : v.Reachable Voter.Anchored) : v.Inv := by
  induction h with
  | start => exact ⟨.down remembers_nil, List.Pairwise.nil⟩
  | step _ hstep ih => exact hstep.inv ih

/-- **Promises survive the loss of directory entries**, as long as the directory is synced between the
first grant and the next power loss: no epoch is granted twice, and an acceptor that runs has promised
at least every epoch granted before. -/
theorem promises_survive (h : v.Reachable Voter.Anchored) :
    v.granted.Nodup ∧ ∀ a, v.site.acceptor = some a → ∀ e ∈ v.granted, e ≤ a.promised := by
  refine ⟨h.inv.increasing.imp ?_, h.inv.site.process⟩
  intro a b hlt heq
  rw [heq] at hlt
  exact UInt64.lt_irrefl b hlt

/-! ## Two runs -/

/-- An acceptor is opened on an empty directory and grants epoch 5. -/
theorem Voter.Reachable.grant {mayLose : Voter → Prop} {granted : List UInt64}
    (h : Voter.Reachable mayLose ⟨⟨none, ⟨.empty, ()⟩⟩, granted⟩) : ∃ s : Store Unit,
      Voter.Reachable mayLose ⟨⟨some ⟨5, 0⟩, s⟩, granted ++ [5]⟩ ∧
      s.disk.entries = [] ∧ s.disk.files.toList = [(stateFile, ⟨recordBytes 5, []⟩)] := by
  have hopen : openAt () (World.healthy (⟨Disk.empty, ()⟩ : Store Unit)) =
      .ok Acceptor.new () (World.healthy ⟨Disk.empty, ()⟩) := rfl
  have hrun : ((handle ⟨5⟩ Acceptor.new (World.healthy (⟨Disk.empty, ()⟩ : Store Unit))).returned.map
      fun r => (r.1, r.2.1.promised, r.2.1.highWater, r.2.2.st.disk.files.toList)) =
      some (.grant 5 0, 5, 0, [(stateFile, ⟨recordBytes 5, []⟩)]) := by decide +kernel
  obtain ⟨⟨reply, ⟨promised, highWater⟩, w'⟩, hrun, heq⟩ := Option.map_eq_some_iff.mp hrun
  simp only [Prod.mk.injEq] at heq
  obtain ⟨rfl, rfl, rfl, hfiles⟩ := heq
  rw [Outcome.returned_eq_some] at hrun
  have hdone := (h.step (.reopened hopen)).step (.answered ⟨5⟩ hrun)
  have hentries := wp_ok (F := fun _ => True)
    (keeps_entries_handle ⟨5⟩ Acceptor.new ⟨Disk.empty, ()⟩ rfl) (fun _ _ => trivial) hrun
  exact ⟨w'.st, hdone, hentries, hfiles⟩

/-- The directory is synced after the first grant; the acceptor loses power, and comes back with its
promise. -/
theorem promises_survive_of_run : ∃ v : Voter, v.site.acceptor = some ⟨5, 0⟩ ∧ v.granted = [5] ∧
    v.granted.Nodup ∧ ∀ a, v.site.acceptor = some a → ∀ e ∈ v.granted, e ≤ a.promised := by
  obtain ⟨s, h₁, -, hfiles⟩ := Voter.Reachable.grant (.start : Voter.Reachable Voter.Anchored _)
  have hget : ∀ k f, s.disk.get k = some f → k = stateFile ∧ f = ⟨recordBytes 5, []⟩ := by
    intro k f hf
    have hmem := Std.ExtTreeMap.mem_toList_iff_getElem?_eq_some.mpr hf
    rw [hfiles] at hmem
    simpa using hmem
  have hfile : s.disk.get stateFile = some ⟨recordBytes 5, []⟩ := by
    have hmem : (stateFile, (⟨recordBytes 5, []⟩ : FileData)) ∈ s.disk.files.toList := by simp [hfiles]
    exact Std.ExtTreeMap.mem_toList_iff_getElem?_eq_some.mp hmem
  have h₂ := h₁.step .dirSynced
  -- nothing is unsynced, so the loss changes nothing
  have hloss : s.disk.syncDir.EntryLoss s.disk.syncDir := by
    refine ⟨fun k => Or.inl ?_, rfl⟩
    rw [Disk.get_syncDir]
    cases hk : s.disk.get k with
    | none => exact .none
    | some f =>
      rw [(hget k f hk).2]
      exact .some ⟨[], Torn.refl _, rfl⟩
  have hanchored : stateFile ∈ s.disk.syncDir.entries := Disk.mem_names.mpr ⟨_, hfile⟩
  have h₃ := h₂.step (.killed (Or.inr hanchored) hloss)
  have hopen : openAt () (World.healthy (s.withDisk s.disk.syncDir)) =
      .ok ⟨5, 0⟩ () (World.healthy (s.withDisk s.disk.syncDir)) := by
    have hparse : parseRecord (recordBytes 5 ++ []) = .ok 5 := by
      rw [List.append_nil, parseRecord_bytes]
    simp only [openAt, bind, Prog.andThen, Prog.attempt, Journal.read, diskCall, Prog.call, Disk.ofFile,
      World.healthy, Store.withDisk, Disk.get_syncDir, hfile, FileData.combined, hparse]
    rfl
  have h₄ := h₃.step (.reopened hopen)
  exact ⟨_, rfl, rfl, promises_survive h₄⟩

/-- **A forgotten promise.** Nobody synced the directory: the state file is lost, the acceptor comes back
without a promise and grants the same epoch again. -/
theorem promise_forgotten : ∃ v : Voter, v.Reachable (fun _ => True) ∧ v.granted = [5, 5] ∧
    ¬v.granted.Nodup := by
  obtain ⟨s, h₁, hentries, -⟩ :=
    Voter.Reachable.grant (.start : Voter.Reachable (fun _ => True) _)
  have hloss : s.disk.EntryLoss Disk.empty := by
    refine ⟨fun k => Or.inr ⟨?_, Disk.get_empty k⟩, ?_⟩
    · rw [hentries]
      exact List.not_mem_nil
    · exact (Std.ExtTreeMap.keys_eq_nil_iff.mpr rfl).symm
  have h₂ := h₁.step (.killed trivial hloss)
  obtain ⟨s', h₃, -⟩ := h₂.grant
  refine ⟨_, h₃, rfl, ?_⟩
  show ¬([5, 5] : List UInt64).Nodup
  decide

end Ticktape.Cluster
