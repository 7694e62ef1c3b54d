import Ticktape.Journal.Run
import Ticktape.Runtime.Session

/-!
# Recovering a node

What `Node::open_with` does on any store a power loss can leave of a node. The journal comes back with a prefix
of the tape; recovery starts from the newest snapshot that the journal continues, which may lie above the end of
the journal, and replays the frames behind it. The tip it resumes at is the later of the two.

Two things can stand in the way. A snapshot whose length did not fit its header field may be read as something
else (`oversize`), and an application may decode what it did not encode. Neither matters when no snapshot lies
above the last frame of the journal (`Beneath`), and a snapshot that is read as something else does no harm to the
seq at which the node resumes as long as none is numbered above the tape.
-/

namespace Ticktape.Runtime

open Ticktape.Lib Ticktape.Core Ticktape.Journal

namespace Node

variable {svc : Service} {config : svc.Config} {Live : List Frame → svc.State → TimerWheel → Prop}

/-! ## Replay -/

theorem replayFrame_live (hT : Tracks config Live) {past : List Frame} {r : Replayed svc} {frame : Frame}
    (h : Live past r.service r.timers) (hdec : Decodes svc frame) :
    ∃ r', replayFrame r frame = .ok r' ∧ Live (past ++ [frame]) r'.service r'.timers := by
  unfold Decodes at hdec
  unfold replayFrame
  cases hkind : frame.kind with
  | input =>
    rw [hkind] at hdec
    obtain ⟨input, hinput⟩ := hdec
    simp only [hinput]
    exact ⟨_, rfl, hT.input h hkind fun _ => hinput⟩
  | timerFired =>
    rw [hkind] at hdec
    obtain ⟨id, hid⟩ := hdec
    simp only [hid]
    exact ⟨_, rfl, hT.timer h hkind hid⟩
  | _ => exact ⟨r, rfl, hT.control h (by simp [hkind]) (by simp [hkind])⟩

/-- **Replay** of frames that decode succeeds, and takes a state of the history before them to one of the
history with them. -/
theorem replay_live (hT : Tracks config Live) {past frames : List Frame} {r : Replayed svc}
    (h : Live past r.service r.timers) (hdec : ∀ f ∈ frames, Decodes svc f) :
    ∃ r', replay r frames = .ok r' ∧ Live (past ++ frames) r'.service r'.timers := by
  induction frames generalizing past r with
  | nil => exact ⟨r, rfl, by rwa [List.append_nil]⟩
  | cons frame rest ih =>
    obtain ⟨r', hframe, hlive⟩ := replayFrame_live hT h (hdec frame (List.mem_cons_self ..))
    obtain ⟨r'', hrest, hlive'⟩ := ih hlive fun f hf => hdec f (List.mem_cons_of_mem _ hf)
    refine ⟨r'', ?_, ?_⟩
    · rw [replay, hframe]
      exact hrest
    · rw [List.append_cons]
      exact hlive'

/-! ## Snapshots as anchors -/

/-- Every entry of the wheel takes at least a byte of the payload. -/
theorem timers_length_le (state : svc.State) (timers : TimerWheel) :
    timers.snapshot.length ≤ (snapshotPayload svc state timers).length := by
  have hitems : ∀ l : List (UInt64 × UInt64 × UInt64), l.length ≤ (l.flatMap encode).length := by
    intro l
    induction l with
    | nil => exact Nat.le_refl 0
    | cons p l ih =>
      have hone : 1 ≤ (encode p).length := by
        show 1 ≤ (leBytes 8 p.1.toNat ++ encode p.2).length
        simp
        omega
      rw [List.flatMap_cons, List.length_append, List.length_cons]
      omega
  have hlist : timers.snapshot.length ≤ (encode timers.snapshot).length := by
    show _ ≤ (leBytes 4 _ ++ timers.snapshot.flatMap encode).length
    rw [List.length_append]
    exact Nat.le_trans (hitems _) (Nat.le_add_left ..)
  show _ ≤ (encode (svc.snapshot state) ++ encode timers.snapshot).length
  rw [List.length_append]
  exact Nat.le_trans hlist (Nat.le_add_left ..)

/-- A snapshot whose length fits its header field decodes to what was encoded. -/
theorem decode_snapshotPayload (hcodecs : svc.Codecs) {state : svc.State} {timers : TimerWheel}
    (hshort : (snapshotPayload svc state timers).length < 2 ^ 32) :
    decodeAll (snapshotPayload svc state timers) = .ok (svc.snapshot state, timers.snapshot) := by
  have hcodec := hcodecs.snapshot
  have hstate := LawfulCodec.decode_encode (svc.snapshot state) (encode timers.snapshot ++ [])
  have htimers : decode (encode timers.snapshot ++ []) = .ok (timers.snapshot, []) :=
    decode_encode_list (Nat.lt_of_le_of_lt (timers_length_le state timers) hshort) []
  have hpair := decode_pair hstate htimers
  rw [List.append_nil] at hpair
  simp [decodeAll, snapshotPayload, show encode (svc.snapshot state, timers.snapshot) =
    encode (svc.snapshot state) ++ encode timers.snapshot from rfl, hpair]

/-- Where recovery starts, given the snapshots that could be loaded, newest first: the first one that the journal
continues and that decodes. -/
inductive Anchored (config : svc.Config) (journalFirst : ℕ) :
    List LoadedSnapshot → Option (ℕ × Replayed svc) → Prop where
  | none : Anchored config journalFirst [] none
  | chosen {snap rest state timers} : journalFirst ≤ snap.seq + 1 →
      decodeAll snap.payload = .ok (state, timers) →
      Anchored config journalFirst (snap :: rest) (some (snap.seq, ⟨svc.restore state config, .restore timers⟩))
  /-- The journal does not reach back to this one. -/
  | passed {snap rest anchor} : snap.seq + 1 < journalFirst → Anchored config journalFirst rest anchor →
      Anchored config journalFirst (snap :: rest) anchor
  /-- This one does not decode. -/
  | illegible {snap rest anchor e} :
      (decodeAll snap.payload : Except CodecError (svc.Snapshot × List (UInt64 × UInt64 × UInt64))) = .error e →
      Anchored config journalFirst rest anchor → Anchored config journalFirst (snap :: rest) anchor

theorem wp_chooseAnchor {μ : Type} {F : Fate → Prop} {E : NodeError → μ → JStore → Prop} {C : JStore → Prop}
    {m : μ} {s : JStore} {journalFirst : ℕ} {l : List LoadedSnapshot}
    (hC : ∀ snap ∈ l, ¬snap.seq + 1 < 2 ^ 64 → C s) :
    wp F (chooseAnchor config journalFirst l)
      (fun anchor m' s' => m' = m ∧ s' = s ∧ Anchored config journalFirst l anchor) E C m s := by
  induction l with
  | nil => exact wp_pure ⟨rfl, rfl, .none⟩
  | cons snap rest ih =>
    replace ih := ih fun snap hmem => hC snap (List.mem_cons_of_mem _ hmem)
    apply wp_bind
    refine wp_nextSeq (fun _ => ?_) (hC snap (List.mem_cons_self ..))
    split
    · rename_i hbelow
      exact wp_mono ih (fun _ _ _ h => ⟨h.1, h.2.1, .passed hbelow h.2.2⟩) (fun _ _ _ h => h) fun _ h => h
    · rename_i hreach
      generalize hdec : (decodeAll snap.payload :
        Except CodecError (svc.Snapshot × List (UInt64 × UInt64 × UInt64))) = decoded
      cases decoded with
      | error e =>
        exact wp_mono ih (fun _ _ _ h => ⟨h.1, h.2.1, .illegible hdec h.2.2⟩) (fun _ _ _ h => h) fun _ h => h
      | ok pair =>
        obtain ⟨state, timers⟩ := pair
        exact wp_pure ⟨rfl, rfl, .chosen (Nat.le_of_not_lt hreach) hdec⟩

/-- What is chosen is one of the snapshots, and the journal continues it. -/
theorem Anchored.chosen_mem {journalFirst fromSeq : ℕ} {l : List LoadedSnapshot} {r : Replayed svc}
    (h : Anchored config journalFirst l (some (fromSeq, r))) :
    ∃ snap ∈ l, snap.seq = fromSeq ∧ journalFirst ≤ fromSeq + 1 ∧ ∃ state timers,
      decodeAll snap.payload = .ok (state, timers) ∧ r = ⟨svc.restore state config, .restore timers⟩ := by
  generalize hanchor : some (fromSeq, r) = anchor at h
  induction h with
  | none => cases hanchor
  | @chosen snap rest state timers hreach hdec =>
    cases hanchor
    exact ⟨snap, List.mem_cons_self .., rfl, hreach, state, timers, hdec, rfl⟩
  | passed hbelow _ ih | illegible hdec _ ih =>
    obtain ⟨snap, hmem, hrest⟩ := ih hanchor
    exact ⟨snap, List.mem_cons_of_mem _ hmem, hrest⟩

/-- Nothing newer than what is chosen could have been. -/
theorem Anchored.newest {journalFirst : ℕ} {l : List LoadedSnapshot} {anchor : Option (ℕ × Replayed svc)}
    (h : Anchored config journalFirst l anchor) (hsorted : l.Pairwise (·.seq > ·.seq))
    (hlegible : ∀ snap ∈ l, ∃ x : svc.Snapshot × List (UInt64 × UInt64 × UInt64), decodeAll snap.payload = .ok x)
    {snap : LoadedSnapshot} (hmem : snap ∈ l) (hreach : journalFirst ≤ snap.seq + 1) :
    ∃ fromSeq r, anchor = some (fromSeq, r) ∧ snap.seq ≤ fromSeq := by
  induction h with
  | none => cases hmem
  | @chosen top rest state timers htop hdec =>
    refine ⟨top.seq, _, rfl, ?_⟩
    rcases List.mem_cons.mp hmem with rfl | hmem
    · exact Nat.le_refl _
    · exact Nat.le_of_lt (List.rel_of_pairwise_cons hsorted hmem)
  | @passed top rest anchor hbelow _ ih =>
    rcases List.mem_cons.mp hmem with rfl | hmem
    · omega
    · exact ih hsorted.of_cons (fun snap h => hlegible snap (List.mem_cons_of_mem _ h)) hmem
  | @illegible top rest anchor e hdec _ ih =>
    rcases List.mem_cons.mp hmem with rfl | hmem
    · obtain ⟨x, hx⟩ := hlegible snap (List.mem_cons_self ..)
      rw [hdec] at hx
      cases hx
    · exact ih hsorted.of_cons (fun snap h => hlegible snap (List.mem_cons_of_mem _ h)) hmem

/-! ## The store that is recovered -/

section Opening

variable {μ : Type} {F : Fate → Prop} {m : μ} {nodeConfig : NodeConfig} {clock : ℕ → UInt64} {s s' : JStore}
  {r : Recovered} {tip : ℕ}

/-- No snapshot file that parses is above `last`. -/
def Beneath (last : ℕ) (s : JStore) : Prop :=
  ∀ p ∈ snaps s, ∀ snap, parseSnapshot p.2.combined = some snap → snap.seq ≤ last

/-- **What a power loss leaves** of the store of a node. -/
structure NLoss (Live : List Frame → svc.State → TimerWheel → Prop) (s : JStore) : Prop where
  journal : JLoss s
  decodes : svc.Codecs → ∀ f ∈ s.ghost.tape, Decodes svc f
  shelf : ShelfAt (Good Live) s.ghost.tape.length s

theorem NCrash.loss (h : NCrash Live s) (hl : s.PowerLoss s') : NLoss Live s' :=
  ⟨h.journal s' hl, by rw [hl.2]; exact h.decodes, h.shelf.loss hl⟩

theorem NLoss.crash (h : NLoss Live s) : NCrash Live s := ⟨h.journal.crash, h.decodes, h.shelf.crash⟩

/-- The store of a node whose journal has been opened. -/
structure Found (Live : List Frame → svc.State → TimerWheel → Prop) (r : Recovered) (s : JStore) : Prop where
  journal : JInv (s.ghost.tape.take r.journal.lastSeq) r.journal s
  settled : Settled s
  bound : r.journal.lastSeq ≤ s.ghost.tape.length
  durable : s.ghost.durable ≤ r.journal.lastSeq
  frames : r.frames = span s.ghost.tape r.firstSeq (r.journal.lastSeq + 1)
  first : r.firstSeq = startOf (segs s) (r.journal.lastSeq + 1)
  first_pos : 1 ≤ r.firstSeq
  first_le : r.firstSeq ≤ r.journal.lastSeq + 1
  floor : r.firstSeq ≤ s.ghost.cutoff + 1
  decodes : svc.Codecs → ∀ f ∈ s.ghost.tape, Decodes svc f
  shelf : ShelfAt (Good Live) s.ghost.tape.length s

theorem Found.crash (h : Found Live r s) : NCrash Live s := ⟨h.journal.crash, h.decodes, h.shelf.crash⟩

/-- **Opening the journal**, for the node. -/
theorem wp_openJournal (hF : ∀ k, ¬F (.fault k)) (h : NLoss Live s) (config : JournalConfig) :
    wp F (Prog.mapErr NodeError.journal (Journal.openWith config))
      (fun r m' s' => m' = m ∧ Found Live r s' ∧ SameShelf s s' ∧ s'.ghost.tape = s.ghost.tape)
      (fun _ _ s' => s' = s ∧ ¬Intact s) (NCrash Live) m s := by
  have hspec := wp_openWith (m := m) (C := CrashWith s.ghost.tape) hF h.journal config
    (fun _ s' _ hcrash hghost => ⟨hcrash, by rw [hghost]⟩) fun _ => ⟨h.journal.crash, rfl⟩
  apply wp_mapErr
  refine wp_mono (wp_and hspec ((jstable_sameShelf s).openWith config m s (.refl s))) ?_ ?_ ?_
  · rintro r m' s' ⟨⟨rfl, hr⟩, hsame⟩
    have htape : s'.ghost.tape = s.ghost.tape := by rw [hr.ghost]
    have hcutoff : s'.ghost.cutoff = s.ghost.cutoff := by rw [hr.ghost]
    have hdurable : s'.ghost.durable = s.ghost.durable := by rw [hr.ghost]
    refine ⟨rfl, ⟨?_, hr.settled, ?_, ?_, ?_, hr.first, hr.first_pos, hr.first_le, ?_, ?_, ?_⟩, hsame, htape⟩
    · rw [htape]
      exact hr.inv
    · rw [htape]
      exact hr.bound
    · rw [hdurable]
      exact hr.durable
    · rw [htape]
      exact hr.frames
    · rw [hcutoff]
      exact hr.floor
    · rw [htape]
      exact h.decodes
    · rw [htape]
      exact h.shelf.of_eq hsame.1 htape hsame.2.1 hsame.2.2
  · rintro _ m' s' ⟨⟨rfl, rfl, hbroken⟩, -⟩
    exact ⟨rfl, hbroken⟩
  · rintro s' ⟨⟨hcrash, htape⟩, hsame⟩
    exact ⟨hcrash, by rw [htape]; exact h.decodes,
      (h.shelf.of_eq hsame.1 htape hsame.2.1 hsame.2.2).crash⟩

/-- The journal in a world where it opens. -/
theorem NLoss.found {w w' : World JStore} (h : NLoss Live w.st) (hw : w.Benign)
    (hopen : Journal.openWith nodeConfig.journal m w = .ok r m w') :
    Found Live r w'.st ∧ SameShelf w.st w'.st ∧ w'.st.ghost.tape = w.st.ghost.tape := by
  have hrun : Prog.mapErr NodeError.journal (Journal.openWith nodeConfig.journal) m w = .ok r m w' := by
    rw [Prog.mapErr, hopen]
  have hfound := wp_ok (wp_openJournal benign_no_fault h nodeConfig.journal) hw hrun
  exact hfound.2

/-- It has all the frames that were synced. -/
theorem NLoss.durable_le {w w' : World JStore} {m' : μ} (h : NLoss Live w.st) (hw : w.Benign)
    (hopen : Journal.openWith nodeConfig.journal m w = .ok r m' w') : w.st.ghost.durable ≤ r.journal.lastSeq := by
  have hspec := wp_ok (wp_openWith (m := m) (C := fun _ => True) benign_no_fault h.journal nodeConfig.journal
    (fun _ _ _ _ _ => trivial) fun _ => trivial) hw hopen
  exact hspec.2.durable

/-! ## Where it resumes -/

/-- Recovery resumes above the later of the journal and the anchor. -/
structure Resuming (Live : List Frame → svc.State → TimerWheel → Prop) (r : Recovered) (s : JStore) (fromSeq : ℕ) :
    Prop where
  bound : fromSeq ≤ s.ghost.tape.length
  reach : r.firstSeq ≤ fromSeq + 1
  /-- It starts from genesis or from a snapshot that parses. -/
  anchored : fromSeq = 0 ∨ ∃ p ∈ snaps s, ∃ snap, parseSnapshot p.2.combined = some snap ∧ snap.seq = fromSeq
  /-- An anchor above the journal is a whole snapshot. -/
  whole : r.journal.lastSeq < fromSeq → s.ghost.oversize = true ∨ s.ghost.oversize = false ∧
    ∃ f, s.disk.get (snapName fromSeq) = some f ∧ Valid (Good Live) s.ghost.tape fromSeq f
  /-- No whole snapshot is above the tip. -/
  newest : s.ghost.oversize = false → ∀ p f, s.disk.get (snapName p) = some f →
    Valid (Good Live) s.ghost.tape p f → p ≤ max r.journal.lastSeq fromSeq

/-- What recovery may rely on: snapshots are what they were, or do not matter. -/
def Reliable (svc : Service) (last : ℕ) (s : JStore) : Prop :=
  (s.ghost.oversize = false ∧ svc.Codecs) ∨ Beneath last s ∨
    s.ghost.oversize = true ∧ Topped s.ghost.tape.length s

variable {fromSeq : ℕ} {anchor : Option (ℕ × Replayed svc)}

/-- The shelf, unless a snapshot did not fit its length field. -/
theorem Found.shelved (h : Found Live r s) (hsize : s.ghost.oversize = false) :
    Shelved (Good Live) (fun n f => Unusable f ∧ n ≤ s.ghost.tape.length) s.ghost.tape s.ghost.cutoff (snaps s) := by
  rcases h.shelf with hover | hshelf
  · rw [hsize] at hover
    cases hover
  · exact hshelf

/-- Candidates decode. -/
theorem Found.legible (h : Found Live r s) (hcodecs : svc.Codecs) (hsize : s.ghost.oversize = false) {maxSeq : ℕ} :
    ∀ snap ∈ (snaps s).reverse.filterMap (loadable maxSeq),
      ∃ x : svc.Snapshot × List (UInt64 × UInt64 × UInt64), decodeAll snap.payload = .ok x := by
  intro snap hmem
  obtain ⟨⟨state, timers, -, hpayload⟩, hshort, -⟩ := ((h.shelved hsize).of_candidate hmem).1
  rw [hpayload] at hshort ⊢
  exact ⟨_, decode_snapshotPayload hcodecs hshort⟩

/-- A candidate is a snapshot file that parses. -/
theorem candidate_mem {maxSeq : ℕ} {l : List (ℕ × FileData)} {snap : LoadedSnapshot}
    (h : snap ∈ l.reverse.filterMap (loadable maxSeq)) :
    ∃ p ∈ l, parseSnapshot p.2.combined = some snap ∧ snap.seq ≤ maxSeq := by
  obtain ⟨p, hmem, hload⟩ := List.mem_filterMap.mp h
  obtain ⟨hparse, hle⟩ := Option.filter_eq_some_iff.mp hload
  exact ⟨p, List.mem_reverse.mp hmem, hparse, of_decide_eq_true hle⟩

/-- **The anchor** decides where recovery resumes. -/
theorem Found.resuming (h : Found Live r s) {high : ℕ} (hhigh : HighWater high s)
    (hanchor : Anchored config r.firstSeq
      ((snaps s).reverse.filterMap (loadable (max r.journal.lastSeq high))) anchor)
    (hsome : anchor = none → r.firstSeq ≤ 1) (hreliable : Reliable svc r.journal.lastSeq s) :
    Resuming Live r s ((anchor.map Prod.fst).getD 0) := by
  have hbound := h.bound
  rcases hreliable with ⟨hsize, hcodecs⟩ | hbeneath | ⟨hsize, htopped⟩
  · have hshelf := h.shelved hsize
    -- a whole snapshot that the journal continues is not newer than the anchor
    have hnewest : ∀ p f, s.disk.get (snapName p) = some f → Valid (Good Live) s.ghost.tape p f →
        p ≤ max r.journal.lastSeq ((anchor.map Prod.fst).getD 0) := by
      intro p f hget hvalid
      have hmem : (p, f) ∈ snaps s := mem_filesOf.mpr hget
      have hle := hhigh.above _ hmem
      by_cases hreach : r.firstSeq ≤ p + 1
      · obtain ⟨payload, -, hcandidate⟩ := hvalid.candidate hmem
          (show p ≤ max r.journal.lastSeq high from Nat.le_trans hle (Nat.le_max_right ..))
        obtain ⟨fromSeq, _, rfl, hfrom⟩ := hanchor.newest (hshelf.candidates_sorted filesOf_sorted)
          (h.legible hcodecs hsize) hcandidate hreach
        exact Nat.le_trans hfrom (Nat.le_max_right ..)
      · have := h.first_le
        omega
    cases anchor with
    | none =>
      refine ⟨Nat.zero_le _, ?_, Or.inl rfl, fun hlt => absurd hlt (Nat.not_lt_zero _), fun _ => hnewest⟩
      exact hsome rfl
    | some chosen =>
      obtain ⟨fromSeq, replayed⟩ := chosen
      obtain ⟨snap, hmem, rfl, hreach, -⟩ := hanchor.chosen_mem
      obtain ⟨-, f, hfile, hvalid⟩ := hshelf.of_candidate hmem
      obtain ⟨p, hp, hparse, -⟩ := candidate_mem hmem
      exact ⟨(hshelf.files _ _ hfile).1, hreach, Or.inr ⟨p, hp, snap, hparse, rfl⟩, fun _ => Or.inr ⟨hsize, f, mem_filesOf.mp hfile, hvalid⟩,
        fun _ => hnewest⟩
  · have hnewest : ∀ p f, s.disk.get (snapName p) = some f → Valid (Good Live) s.ghost.tape p f →
        p ≤ r.journal.lastSeq := by
      intro p f hget hvalid
      obtain ⟨payload, -, hparse⟩ := hvalid.parse
      exact hbeneath _ (mem_filesOf.mpr hget) _ hparse
    cases anchor with
    | none =>
      refine ⟨Nat.zero_le _, ?_, Or.inl rfl, fun hlt => absurd hlt (Nat.not_lt_zero _),
        fun _ p f hget hvalid => ?_⟩
      · exact hsome rfl
      · exact Nat.le_trans (hnewest p f hget hvalid) (Nat.le_max_left ..)
    | some chosen =>
      obtain ⟨fromSeq, replayed⟩ := chosen
      obtain ⟨snap, hmem, rfl, hreach, -⟩ := hanchor.chosen_mem
      obtain ⟨p, hfile, hparse, -⟩ := candidate_mem hmem
      have hle := hbeneath p hfile snap hparse
      exact ⟨Nat.le_trans hle hbound, hreach, Or.inr ⟨p, hfile, snap, hparse, rfl⟩, fun hlt => absurd hlt (Nat.not_lt_of_le hle),
        fun _ p f hget hvalid => Nat.le_trans (hnewest p f hget hvalid) (Nat.le_max_left ..)⟩
  · -- nothing is known of the snapshots but their names
    have hnewest : s.ghost.oversize = false → ∀ p f, s.disk.get (snapName p) = some f →
        Valid (Good Live) s.ghost.tape p f → p ≤ max r.journal.lastSeq ((anchor.map Prod.fst).getD 0) := by
      intro hshort
      rw [hsize] at hshort
      cases hshort
    cases anchor with
    | none =>
      refine ⟨Nat.zero_le _, ?_, Or.inl rfl, fun hlt => absurd hlt (Nat.not_lt_zero _), hnewest⟩
      exact hsome rfl
    | some chosen =>
      obtain ⟨fromSeq, replayed⟩ := chosen
      obtain ⟨snap, hmem, rfl, hreach, -⟩ := hanchor.chosen_mem
      obtain ⟨p, hfile, hparse, hle⟩ := candidate_mem hmem
      have hbelow := Nat.le_trans hle (Nat.max_le.mpr ⟨hbound, hhigh.least _ htopped⟩)
      exact ⟨hbelow, hreach, Or.inr ⟨p, hfile, snap, hparse, rfl⟩, fun _ => Or.inl hsize, hnewest⟩

/-! ## Purging and reseating -/

/-- The store after the snapshots above the tip were purged. -/
structure Purged (Live : List Frame → svc.State → TimerWheel → Prop) (r : Recovered) (tip : ℕ) (s s' : JStore) :
    Prop where
  journal : JInv (s.ghost.tape.take r.journal.lastSeq) r.journal s'
  ghost : s'.ghost = s.ghost
  shelf : ShelfAt (Good Live) s.ghost.tape.length s'
  below : ∀ p f, s'.disk.get (snapName p) = some f → p ≤ tip
  kept : ∀ p ≤ tip, s'.disk.get (snapName p) = s.disk.get (snapName p)
  segs : segs s' = segs s

/-- The shelf without some files above the tip. -/
theorem Resuming.shelfAt (h : Resuming Live r s fromSeq) (hshelf : ShelfAt (Good Live) s.ghost.tape.length s)
    {l : List ℕ} (hl : ∀ n ∈ l, max r.journal.lastSeq fromSeq < n) (hthin : Thinned l s s') :
    ShelfAt (Good Live) s.ghost.tape.length s' := by
  apply hshelf.thinned hthin
  cases hsize : s.ghost.oversize with
  | true => exact Or.inl rfl
  | false =>
    rcases hshelf with hover | hshelf
    · rw [hsize] at hover
      cases hover
    rcases hshelf.cover with hzero | ⟨p, f, hmem, hvalid, hcut⟩
    · exact Or.inr (Or.inl hzero)
    · have hget := mem_filesOf.mp hmem
      exact Or.inr (Or.inr ⟨p, f, fun hp => Nat.not_lt_of_le (h.newest hsize p f hget hvalid) (hl p hp), hget,
        hvalid, hcut⟩)

theorem wp_purge (hF : ∀ k, ¬F (.fault k)) (h : Found Live r s) (hresuming : Resuming Live r s fromSeq) :
    wp F (Prog.mapErr NodeError.journal (Snapshots.purgeAfter (max r.journal.lastSeq fromSeq)))
      (fun _ m' s' => m' = m ∧ Purged Live r (max r.journal.lastSeq fromSeq) s s') (fun _ _ _ => False)
      (NCrash Live) m s := by
  have hjournal : SStable fun s' => JInv (s.ghost.tape.take r.journal.lastSeq) r.journal s' ∧
      s'.ghost.tape = s.ghost.tape ∧ s'.ghost.cutoff = s.ghost.cutoff := JInv.sstable _ _ _ _
  have hsegs : SStable fun s' => segs s' = segs s :=
    ⟨blindTo_snap (G := fun l _ => l = segs s), fun _ _ h => h⟩
  have hspec : wp F (Snapshots.purgeAfter (max r.journal.lastSeq fromSeq))
      (fun _ m' s' => m' = m ∧ s'.ghost = s.ghost ∧ ShelfAt (Good Live) s.ghost.tape.length s' ∧
        (∀ p f, s'.disk.get (snapName p) = some f → p ≤ max r.journal.lastSeq fromSeq) ∧
        ∀ p ≤ max r.journal.lastSeq fromSeq, s'.disk.get (snapName p) = s.disk.get (snapName p))
      (fun _ _ _ => False) (fun s' => ShelfCrash (Good Live) s') m s := by
    apply wp_purgeAfter hF
    · exact fun l s' hl hthin => (hresuming.shelfAt h.shelf hl hthin).crash
    · exact fun l s' hl hthin hbelow => ⟨rfl, hthin.ghost, hresuming.shelfAt h.shelf hl hthin, hbelow,
        fun p hp => hthin.keep p fun hmem => Nat.not_lt_of_le hp (hl p hmem)⟩
  apply wp_mapErr
  refine wp_mono (wp_and (wp_and hspec (hjournal.purgeAfter _ m s ⟨h.journal, rfl, rfl⟩))
    (hsegs.purgeAfter _ m s rfl)) ?_ (fun _ _ _ h => h.1.1) ?_
  · rintro _ m' s' ⟨⟨⟨rfl, hghost, hshelf, hbelow, hkept⟩, hinv, -⟩, hsame⟩
    exact ⟨rfl, hinv, hghost, hshelf, hbelow, hkept, hsame⟩
  · rintro s' ⟨⟨hshelf, hinv, htape, -⟩, -⟩
    exact ⟨hinv.crash, by rw [htape]; exact h.decodes, hshelf⟩

/-- The store and the journal that replay works over. -/
structure Seated (Live : List Frame → svc.State → TimerWheel → Prop) (r : Recovered) (fromSeq : ℕ) (s : JStore)
    (journal : Journal) (s' : JStore) : Prop where
  journal : JInv (s.ghost.tape.take (max r.journal.lastSeq fromSeq)) journal s'
  tape : s'.ghost.tape = s.ghost.tape
  oversize : s'.ghost.oversize = s.ghost.oversize
  shelf : ShelfAt (Good Live) s.ghost.tape.length s'
  below : ∀ p f, s'.disk.get (snapName p) = some f → p ≤ max r.journal.lastSeq fromSeq
  kept : ∀ p ≤ max r.journal.lastSeq fromSeq, s'.disk.get (snapName p) = s.disk.get (snapName p)
  segs : fromSeq ≤ r.journal.lastSeq → segs s' = segs s

theorem Seated.crash {journal : Journal} (h : Seated Live r fromSeq s journal s') (hfound : Found Live r s) :
    NCrash Live s' := by
  refine ⟨h.journal.crash, by rw [h.tape]; exact hfound.decodes, ?_⟩
  have hshelf := h.shelf
  rw [← h.tape] at hshelf
  exact hshelf.crash

theorem wp_reseatIfNeeded (hF : ∀ k, ¬F (.fault k)) (h : Found Live r s) (hresuming : Resuming Live r s fromSeq)
    {s₁ : JStore} (hpurged : Purged Live r (max r.journal.lastSeq fromSeq) s s₁) :
    wp F (reseatIfNeeded r.journal fromSeq (max r.journal.lastSeq fromSeq))
      (fun journal m' s' => m' = m ∧ Seated Live r fromSeq s journal s') (fun _ _ _ => False)
      (NCrash Live) m s₁ := by
  have htape₁ : s₁.ghost.tape = s.ghost.tape := by rw [hpurged.ghost]
  have hcrash₁ : NCrash Live s₁ :=
    ⟨hpurged.journal.crash, by rw [htape₁]; exact h.decodes, hpurged.shelf.crash⟩
  unfold reseatIfNeeded
  split
  · rename_i hlt
    have htip : max r.journal.lastSeq fromSeq = fromSeq := Nat.max_eq_right (Nat.le_of_lt hlt)
    rw [htip] at hpurged ⊢
    apply wp_bind
    refine wp_nextSeq (fun hfits => ?_) fun _ => hcrash₁
    have hcovers : Covers (Good Live) fromSeq s₁ := by
      rcases hresuming.whole hlt with hover | ⟨hsize, f, hget, hvalid⟩
      · exact Or.inl (by rw [hpurged.ghost]; exact hover)
      -- the anchor is whole, and covers every cutoff: no snapshot is left above it
      rw [← hpurged.kept fromSeq (Nat.le_refl _)] at hget
      refine Or.inr ⟨fromSeq, f, hget, htape₁ ▸ hvalid, ?_, Nat.le_refl _⟩
      rcases hpurged.shelf with hover | hshelf
      · rw [hpurged.ghost, hsize] at hover
        cases hover
      rcases hshelf.cover with hzero | ⟨p, g, hmem, -, hcut⟩
      · rw [hzero]
        exact Nat.zero_le _
      · exact Nat.le_trans hcut (hpurged.below p g (mem_filesOf.mp hmem))
    have hlen : (s.ghost.tape.take r.journal.lastSeq).length = r.journal.lastSeq := by
      rw [List.length_take, Nat.min_eq_left h.bound]
    have hspec := wp_reseatTo (E := fun _ _ _ => False) hF hpurged.journal (n := fromSeq)
      (by rw [hlen]; exact hlt) (by rw [htape₁]; exact hresuming.bound) hfits
    apply wp_mapErr
    apply wp_owning
    refine wp_mono (wp_and hspec ((jstable_raisedShelf fromSeq s₁).reseatTo (fromSeq + 1) (fun _ h => h.raise) _ _
      (.refl fromSeq s₁))) ?_ (fun _ _ _ h => h.1) ?_
    · rintro - journal s' ⟨⟨hinv, hghost⟩, hraised⟩
      have htape' : s'.ghost.tape = s₁.ghost.tape := by rw [hghost]
      have hfiles : ∀ p, s'.disk.get (snapName p) = s₁.disk.get (snapName p) := fun p =>
        get_of_snaps_eq hraised.1 p
      refine ⟨rfl, ?_, htape'.trans htape₁, ?_, ?_, ?_, ?_, fun hle => absurd hle (Nat.not_le_of_lt hlt)⟩
      · rw [htip, ← htape₁]
        exact hinv
      · rw [hraised.2.1, hpurged.ghost]
      · exact hraised.shelfAt hpurged.shelf hcovers htape'
      · intro p g hp
        rw [hfiles] at hp
        rw [htip]
        exact hpurged.below p g hp
      · intro p hp
        rw [htip] at hp
        rw [hfiles, hpurged.kept p hp]
    · rintro s' ⟨⟨hcrash, htape'⟩, hraised⟩
      exact ⟨hcrash, by rw [htape', htape₁]; exact h.decodes,
        (hraised.shelfAt hpurged.shelf hcovers htape').crash⟩
  · rename_i hle
    have hle := Nat.le_of_not_lt hle
    have hinv := hpurged.journal
    rw [← Nat.max_eq_left hle] at hinv
    exact wp_pure ⟨rfl, hinv, htape₁, by rw [hpurged.ghost], hpurged.shelf, hpurged.below, hpurged.kept,
      fun _ => hpurged.segs⟩

/-! ## The whole opening -/

/-- What recovery does once the journal is open. -/
def recoverFrom (nodeConfig : NodeConfig) (config : svc.Config) (clock : ℕ → UInt64) (recovered : Recovered) :
    Prog μ JStore NodeError (Node svc) := do
  let journalLast := recovered.journal.lastSeq
  let highWater ← Prog.mapErr .journal Snapshots.highWaterSeq
  let candidates ← Prog.mapErr .journal (Snapshots.loadCandidates (max journalLast highWater))
  let anchor ← chooseAnchor config recovered.firstSeq candidates
  if anchor.isNone ∧ recovered.firstSeq > 1 then Prog.fail (.uncoveredHistory recovered.firstSeq)
  else do
    let fromSeq := (anchor.map Prod.fst).getD 0
    let tip := max journalLast fromSeq
    Prog.mapErr .journal (Snapshots.purgeAfter tip)
    let journal ← reseatIfNeeded recovered.journal fromSeq tip
    let r ← Prog.ofExcept (replay ((anchor.map Prod.snd).getD (genesis svc config))
      (recovered.frames.filter (·.seq > fromSeq)))
    pure (assemble nodeConfig config clock journal fromSeq tip recovered.frames r)

theorem openWith_eq : (openWith nodeConfig config clock : Prog μ JStore NodeError (Node svc)) =
    Prog.mapErr .journal (Journal.openWith nodeConfig.journal) >>= recoverFrom nodeConfig config clock := rfl

/-- **What opening returns**, given what the journal returned. -/
structure Opened (Live : List Frame → svc.State → TimerWheel → Prop) (nodeConfig : NodeConfig) (config : svc.Config)
    (clock : ℕ → UInt64) (r : Recovered) (fromSeq : ℕ) (s : JStore) (n : Node svc) (s' : JStore) : Prop where
  node : ∃ journal replayed, n = assemble nodeConfig config clock journal fromSeq
    (max r.journal.lastSeq fromSeq) r.frames replayed
  resuming : Resuming Live r s fromSeq
  seated : Seated Live r fromSeq s n.journal s'
  live : svc.Codecs → s.ghost.oversize = false → Live (s.ghost.tape.take n.seq) n.service n.timers

/-- No relation at all between states and histories. -/
theorem tracks_any : Tracks config fun _ _ _ => True :=
  ⟨trivial, fun _ _ _ => trivial, fun _ _ _ => trivial, fun _ _ _ => trivial, fun _ => trivial⟩

/-- The state recovery starts from belongs to the history up to the anchor. -/
theorem Found.anchor_live (h : Found Live r s) (hT : Tracks config Live) {maxSeq : ℕ}
    (hanchor : Anchored config r.firstSeq ((snaps s).reverse.filterMap (loadable maxSeq)) anchor)
    (hcodecs : svc.Codecs) (hsize : s.ghost.oversize = false) :
    Live (s.ghost.tape.take ((anchor.map Prod.fst).getD 0))
      ((anchor.map Prod.snd).getD (genesis svc config)).service
      ((anchor.map Prod.snd).getD (genesis svc config)).timers := by
  cases anchor with
  | none => exact hT.genesis
  | some chosen =>
    obtain ⟨fromSeq, replayed⟩ := chosen
    obtain ⟨snap, hmem, rfl, -, state, timers, hdec, rfl⟩ := hanchor.chosen_mem
    obtain ⟨⟨state', timers', hlive, hpayload⟩, hshort, -⟩ := ((h.shelved hsize).of_candidate hmem).1
    rw [hpayload] at hshort hdec
    obtain ⟨rfl, rfl⟩ := Prod.mk.inj (Except.ok.inj ((decode_snapshotPayload hcodecs hshort).symm.trans hdec))
    show Live _ (svc.restore (svc.snapshot state') config) (.restore timers'.snapshot)
    rw [TimerWheel.restore_snapshot]
    exact hT.restore hlive

/-- A snapshot covers what was compacted away. -/
theorem Found.covered (h : Found Live r s) {high : ℕ} (hhigh : HighWater high s)
    (hanchor : Anchored config r.firstSeq
      ((snaps s).reverse.filterMap (loadable (max r.journal.lastSeq high))) anchor)
    (hcodecs : svc.Codecs) (hsize : s.ghost.oversize = false) (hnone : anchor = none) : r.firstSeq ≤ 1 := by
  have hshelf := h.shelved hsize
  have hfloor := h.floor
  rcases hshelf.cover with hzero | ⟨p, f, hmem, hvalid, hcut⟩
  · omega
  · refine Nat.le_of_not_lt fun hlt => ?_
    obtain ⟨payload, -, hcandidate⟩ := hvalid.candidate hmem
      (show p ≤ max r.journal.lastSeq high from Nat.le_trans (hhigh.above _ hmem) (Nat.le_max_right ..))
    obtain ⟨fromSeq, replayed, hsome, -⟩ := hanchor.newest (hshelf.candidates_sorted filesOf_sorted)
      (h.legible hcodecs hsize) hcandidate (by show r.firstSeq ≤ p + 1; omega)
    rw [hnone] at hsome
    cases hsome

/-- The frames that replay is given. -/
theorem Found.tail (h : Found Live r s) (hreach : r.firstSeq ≤ fromSeq + 1) :
    r.frames.filter (·.seq > fromSeq) = (s.ghost.tape.take r.journal.lastSeq).drop fromSeq := by
  have hrun : SeqRun r.firstSeq r.frames := by
    rw [h.frames]
    exact span_run h.journal.run h.first_pos (by rw [Nat.add_sub_cancel]; exact h.bound)
  have hfilter := hrun.filter_ge (fromSeq + 1)
  have hpos := h.first_pos
  calc r.frames.filter (·.seq > fromSeq)
      = r.frames.filter (·.seq ≥ fromSeq + 1) := List.filter_congr fun f _ => rfl
    _ = r.frames.drop (fromSeq + 1 - r.firstSeq) := hfilter
    _ = (s.ghost.tape.take r.journal.lastSeq).drop fromSeq := by
      rw [h.frames, span, Nat.add_sub_cancel, List.drop_drop]
      congr 1
      omega

theorem take_append_tail (t : List Frame) (last fromSeq : ℕ) :
    t.take fromSeq ++ (t.take last).drop fromSeq = t.take (max last fromSeq) := by
  rcases Nat.le_total last fromSeq with hle | hle
  · rw [Nat.max_eq_right hle, List.drop_eq_nil_of_le (Nat.le_trans (List.length_take_le ..) hle), List.append_nil]
  · have hparts := List.take_append_drop fromSeq (t.take last)
    rw [List.take_take, Nat.min_eq_left hle] at hparts
    rw [Nat.max_eq_left hle, hparts]

/-- **Recovery** behind an open journal. -/
theorem wp_recoverFrom (hF : ∀ k, ¬F (.fault k)) (hT : Tracks config Live) (h : Found Live r s)
    (hreliable : Reliable svc r.journal.lastSeq s) :
    wp F (recoverFrom nodeConfig config clock r)
      (fun n m' s' => m' = m ∧ ∃ fromSeq, Opened Live nodeConfig config clock r fromSeq s n s')
      (fun _ _ s' => NCrash Live s' ∧ ¬(s.ghost.oversize = false ∧ svc.Codecs)) (NCrash Live) m s := by
  apply wp_bind
  apply wp_mapErr
  apply wp_highWaterSeq hF fun _ => h.crash
  intro high hhigh
  apply wp_bind
  apply wp_mapErr
  apply wp_loadCandidates hF _ fun _ => h.crash
  apply wp_seq (wp_chooseAnchor fun _ _ _ => h.crash)
  rintro anchor m' s' ⟨rfl, rfl, hanchor⟩
  split
  · rename_i huncovered
    refine wp_fail ⟨h.crash, fun hboth => ?_⟩
    exact absurd huncovered.2 (Nat.not_lt_of_le
      (h.covered hhigh hanchor hboth.2 hboth.1 (Option.isNone_iff_eq_none.mp huncovered.1)))
  · rename_i hcovered
    have hsome : anchor = none → r.firstSeq ≤ 1 := fun hnone =>
      Nat.le_of_not_lt fun hlt => hcovered ⟨Option.isNone_iff_eq_none.mpr hnone, hlt⟩
    have hresuming := h.resuming hhigh hanchor hsome hreliable
    apply wp_seq (wp_mono (wp_purge hF h hresuming) (fun _ _ _ h => h) (fun _ _ _ h => h.elim) fun _ h => h)
    rintro _ m'' s₁ ⟨rfl, hpurged⟩
    apply wp_seq (wp_mono (wp_reseatIfNeeded hF h hresuming hpurged) (fun _ _ _ h => h) (fun _ _ _ h => h.elim)
      fun _ h => h)
    rintro journal m₃ s₂ ⟨rfl, hseated⟩
    have hdec : svc.Codecs → ∀ f ∈ r.frames.filter (·.seq > (anchor.map Prod.fst).getD 0), Decodes svc f := by
      intro hcodecs f hf
      rw [h.tail hresuming.reach] at hf
      exact h.decodes hcodecs f (List.mem_of_mem_take (List.mem_of_mem_drop hf))
    apply wp_bind
    apply wp_ofExcept
    · intro replayed hreplay
      refine wp_pure ⟨rfl, _, ⟨journal, replayed, rfl⟩, hresuming, hseated, fun hcodecs hsize => ?_⟩
      -- replay takes the anchor's history to the whole of it
      obtain ⟨r', hok, hlive⟩ := replay_live hT (h.anchor_live hT hanchor hcodecs hsize) (hdec hcodecs)
      obtain rfl : replayed = r' := Except.ok.inj (hreplay.symm.trans hok)
      rw [h.tail hresuming.reach, take_append_tail] at hlive
      exact hlive
    · intro e he
      refine ⟨hseated.crash h, fun hboth => ?_⟩
      obtain ⟨r', hok, -⟩ := replay_live hT (h.anchor_live hT hanchor hboth.2 hboth.1) (hdec hboth.2)
      rw [hok] at he
      cases he

theorem Opened.seq {n : Node svc} (h : Opened Live nodeConfig config clock r fromSeq s n s') :
    n.seq = max r.journal.lastSeq fromSeq := by
  obtain ⟨journal, replayed, rfl⟩ := h.node
  rfl

/-- **A recovered node** satisfies the invariant once the history is cut to where it resumes. -/
theorem Opened.inv {n : Node svc} (h : Opened Live nodeConfig config clock r fromSeq s n s')
    (hfound : Found Live r s) : DInv Live n.seq n.journal n.seq (resume s' n.seq) := by
  have hseq := h.seq
  have hbound : n.seq ≤ s.ghost.tape.length := by
    rw [hseq]
    exact Nat.max_le.mpr ⟨hfound.bound, h.resuming.bound⟩
  have htape : (resume s' n.seq).ghost.tape = s.ghost.tape.take n.seq := by
    show s'.ghost.tape.take n.seq = _
    rw [h.seated.tape]
  have hlen : (resume s' n.seq).ghost.tape.length = n.seq := by rw [htape, List.length_take, Nat.min_eq_left hbound]
  have hinv := h.seated.journal
  rw [← hseq] at hinv
  have hbelow : Topped n.seq s' := by
    rw [hseq]
    exact h.seated.below
  refine ⟨?_, ?_, ?_, by rw [hlen]; exact hbelow, by rw [hlen], by rw [hlen]⟩
  · rw [htape]
    refine ⟨?_, ⟨n.seq, ?_⟩, hinv.last, hinv.holds⟩
    · rw [htape]
      exact hfound.journal.run.take _
    · rw [htape, List.take_take, Nat.min_self]
  · rw [htape]
    exact fun hcodecs f hf => hfound.decodes hcodecs f (List.mem_of_mem_take hf)
  · rcases h.seated.shelf with hover | hshelf
    · exact Or.inl hover
    · -- every file that is left is at or below the tip
      have hle : ∀ p f, (p, f) ∈ snaps s' → p ≤ n.seq := fun p f hmem => hbelow p f (mem_filesOf.mp hmem)
      refine Or.inr (hshelf.congr (fun p f hmem hok => ⟨hok.1, hle p f hmem⟩) (fun p f hmem => ?_)
        (Or.inl (Nat.le_refl _)))
      rw [hlen, htape, h.seated.tape, List.take_take, Nat.min_eq_left (hle p f hmem)]
      exact ⟨hle p f hmem, rfl⟩

/-- What an opening in the world `w` returned: what its journal returned, and how the node resumed. -/
def OpenedIn (Live : List Frame → svc.State → TimerWheel → Prop) (nodeConfig : NodeConfig) (config : svc.Config)
    (clock : ℕ → UInt64) (u : μ) (w : World JStore) (n : Node svc) (s' : JStore) : Prop :=
  ∃ r u' w₁ fromSeq, Journal.openWith nodeConfig.journal u w = .ok r u' w₁ ∧ Found Live r w₁.st ∧
    SameShelf w.st w₁.st ∧ w₁.st.ghost.tape = w.st.ghost.tape ∧
    Opened Live nodeConfig config clock r fromSeq w₁.st n s'

/-- **Opening a node** after a power loss, in a world where recovery may rely on the snapshots. -/
theorem openWith_sat {w : World JStore} {u : μ} (hT : Tracks config Live) (h : NLoss Live w.st) (hw : w.Benign)
    (hreliable : ∀ r u' w₁, Journal.openWith nodeConfig.journal u w = .ok r u' w₁ →
      Reliable svc r.journal.lastSeq w.st) :
    (openWith nodeConfig config clock u w).Sat Fate.benign
      (fun n _ s' => OpenedIn Live nodeConfig config clock u w n s')
      (fun _ _ s' => NCrash Live s' ∧ (w.st.ghost.oversize = false → svc.Codecs → ¬Intact w.st))
      (NCrash Live) := by
  have hjournal := wp_openJournal (m := u) benign_no_fault h nodeConfig.journal w rfl hw
  rw [openWith_eq]
  show (Prog.andThen (Prog.mapErr NodeError.journal (Journal.openWith nodeConfig.journal)) _ u w).Sat _ _ _ _
  unfold Prog.andThen
  unfold Prog.mapErr at hjournal ⊢
  cases hopen : Journal.openWith nodeConfig.journal u w with
  | ok r u' w₁ =>
    rw [hopen] at hjournal
    obtain ⟨hbenign, -, hfound, hsame, htape⟩ := hjournal
    have hrel : Reliable svc r.journal.lastSeq w₁.st := by
      have hrel := hreliable r u' w₁ hopen
      unfold Reliable Beneath at hrel ⊢
      rw [hsame.1, hsame.2.2, htape]
      exact hrel.imp_right (Or.imp_right fun h => ⟨h.1, h.2.of_snaps hsame.1⟩)
    have hrest : (recoverFrom nodeConfig config clock r u' w₁).Sat _ _ _ _ :=
      wp_recoverFrom benign_no_fault hT hfound hrel w₁ rfl hbenign
    revert hrest
    simp only
    cases recoverFrom nodeConfig config clock r u' w₁ with
    | ok n v w' => exact fun hs => ⟨hs.1, r, u', w₁, hs.2.2.choose, hopen, hfound, hsame, htape, hs.2.2.choose_spec⟩
    | err e v w' =>
      rintro ⟨hfates, hcrash, hnot⟩
      refine ⟨hfates, hcrash, fun hsize hcodecs => ?_⟩
      rw [← hsame.2.2] at hsize
      exact absurd ⟨hsize, hcodecs⟩ hnot
    | down w' => exact id
    | spin => exact id
  | err e u' w₁ =>
    rw [hopen] at hjournal
    obtain ⟨hfates, hstore, hbroken⟩ := hjournal
    exact ⟨hfates, by rw [hstore]; exact h.crash, fun _ _ => hbroken⟩
  | down w₁ =>
    rw [hopen] at hjournal
    exact hjournal
  | spin => trivial

end Opening

end Node

end Ticktape.Runtime
