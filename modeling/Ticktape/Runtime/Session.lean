import Ticktape.Journal.Shelf
import Ticktape.Runtime.Batch

/-!
# What the operations of an open node keep

`Live past state timers` is what a development wants to know of a service state and a timer wheel that
belong to the history `past`; `Tracks` says that the steps of a node respect it. Two relations are of
interest: that replaying `past` gives this state, and no relation at all.

`DInv` is the invariant of an open node and its store: the journal holds the tape, every frame of the
tape can be replayed if the codecs of the service are lawful, and the shelf holds snapshots of `Live` states. Every operation keeps it, however
it ends, and the process may go down at any of its storage calls (`NCrash`).
-/

namespace Ticktape.Runtime

open Ticktape.Lib Ticktape.Core Ticktape.Journal

/-! ## States that belong to a history -/

/-- The payload of a frame decodes as replay decodes it. -/
def Decodes (svc : Service) (frame : Frame) : Prop :=
  match frame.kind with
  | .input => ∃ input, (decodeAll frame.payload : Except CodecError svc.Input) = .ok input
  | .timerFired => ∃ id, (decodeAll frame.payload : Except CodecError UInt64) = .ok id
  | _ => True

section Live

variable {svc : Service}

/-- The steps of a node respect `Live`. -/
structure Tracks (config : svc.Config) (Live : List Frame → svc.State → TimerWheel → Prop) : Prop where
  genesis : Live [] (svc.genesis config) .new
  input : ∀ {past state timers frame input}, Live past state timers → frame.kind = .input →
    (svc.Codecs → (decodeAll frame.payload : Except CodecError svc.Input) = .ok input) →
    Live (past ++ [frame]) (svc.apply state frame.seq input ⟨frame.seq, frame.timestamp⟩).state
      (timers.applyAll (svc.apply state frame.seq input ⟨frame.seq, frame.timestamp⟩).timers
        (UInt64.ofNat frame.seq))
  timer : ∀ {past state timers frame id}, Live past state timers → frame.kind = .timerFired →
    (decodeAll frame.payload : Except CodecError UInt64) = .ok id →
    Live (past ++ [frame]) (svc.onTimer state id ⟨frame.seq, frame.timestamp⟩).state
      ((timers.cancel id).applyAll (svc.onTimer state id ⟨frame.seq, frame.timestamp⟩).timers
        (UInt64.ofNat frame.seq))
  control : ∀ {past state timers frame}, Live past state timers → frame.kind ≠ .input →
    frame.kind ≠ .timerFired → Live (past ++ [frame]) state timers
  restore : ∀ {past state timers}, Live past state timers →
    Live past (svc.restore (svc.snapshot state) config) timers

/-- A snapshot payload of a state that belongs to `past`. -/
def Good (Live : List Frame → svc.State → TimerWheel → Prop) (past : List Frame)
    (payload : Bytes) : Prop :=
  ∃ state timers, Live past state timers ∧ payload = Node.snapshotPayload svc state timers

/-- Control frames do not change what a state belongs to. -/
theorem Tracks.controls {config : svc.Config} {Live : List Frame → svc.State → TimerWheel → Prop}
    (hT : Tracks config Live) {past marks : List Frame} {state : svc.State} {timers : TimerWheel}
    (h : Live past state timers) (hmarks : ∀ f ∈ marks, f.kind = .snapshotMark) :
    Live (past ++ marks) state timers := by
  induction marks generalizing past with
  | nil => rwa [List.append_nil]
  | cons f fs ih =>
    have hkind := hmarks f (List.mem_cons_self ..)
    have hstep := hT.control h (by rw [hkind]; decide) (by rw [hkind]; decide)
    rw [List.append_cons]
    exact ih hstep fun g hg => hmarks g (List.mem_cons_of_mem _ hg)

end Live

namespace Node

variable {svc : Service} {config : svc.Config} {Live : List Frame → svc.State → TimerWheel → Prop}
  {F : Fate → Prop} {tip : ℕ} {n : Node svc} {s : JStore}

/-! ## The invariant -/

/-- **The invariant of an open node**, of which only the journal and the seq matter: `tip` is where
this session started. After an operation failed half-way the seq may run ahead of the tape. -/
structure DInv (Live : List Frame → svc.State → TimerWheel → Prop) (tip : ℕ) (j : Journal) (seq : ℕ)
    (s : JStore) : Prop where
  journal : JInv s.ghost.tape j s
  decodes : svc.Codecs → ∀ f ∈ s.ghost.tape, Decodes svc f
  shelf : ShelfAt (Good Live) tip s
  topped : Topped s.ghost.tape.length s
  tip_le : tip ≤ s.ghost.tape.length
  behind : s.ghost.tape.length ≤ seq

/-- The process may go down here. -/
structure NCrash (Live : List Frame → svc.State → TimerWheel → Prop) (s : JStore) : Prop where
  journal : JCrash s
  decodes : svc.Codecs → ∀ f ∈ s.ghost.tape, Decodes svc f
  shelf : ShelfCrash (Good Live) s

theorem DInv.crash {j : Journal} {seq : ℕ} (h : DInv Live tip j seq s) : NCrash Live s :=
  ⟨h.journal.crash, h.decodes, h.shelf.crash⟩

/-! ## Journal operations -/

/-- What a journal operation leaves alone. -/
def SameShelf (s s' : JStore) : Prop :=
  snaps s' = snaps s ∧ s'.ghost.cutoff = s.ghost.cutoff ∧ s'.ghost.oversize = s.ghost.oversize

theorem jstable_sameShelf (s : JStore) : JStable (SameShelf s) where
  disk := by
    intro s' d h hd
    have hsnaps : snaps (s'.withDisk d) = snaps s' :=
      filesOf_congr fun n => hd (snapName n) fun m heq => by cases heq
    exact ⟨hsnaps.trans h.1, h.2⟩
  durable := fun _ _ h => h
  window := fun _ _ h => h

theorem SameShelf.refl (s : JStore) : SameShelf s s := ⟨rfl, rfl, rfl⟩

/-- The shelf when only the tape has grown. -/
theorem SameShelf.shelfAt {Good : List Frame → Bytes → Prop} {s' : JStore} (frames : List Frame)
    (h : SameShelf s s') (hshelf : ShelfAt Good tip s)
    (htape : s'.ghost.tape = s.ghost.tape ++ frames) : ShelfAt Good tip s' := by
  unfold ShelfAt at hshelf ⊢
  rw [h.1, h.2.1, h.2.2, htape]
  exact hshelf.imp_right fun hs => hs.extend frames

theorem wp_onJournal {α : Type} {p : JProg α} {Q : α → Node svc → JStore → Prop}
    {E : NodeError → Node svc → JStore → Prop} {C : JStore → Prop}
    (h : wp F p (fun a j s' => Q a { n with journal := j } s')
      (fun e j s' => E (.journal e) { n with journal := j } s') C n.journal s) :
    wp F (onJournal p) Q E C n s := wp_zoom (wp_mapErr h)

/-- A journal operation that writes `frames`, or nothing. -/
theorem DInv.written {j : Journal} {seq seq' : ℕ} {frames : List Frame}
    {p : JProg Unit} (h : DInv Live tip j seq s) (hdec : svc.Codecs → ∀ f ∈ frames, Decodes svc f)
    (hseq : seq ≤ seq') (hlast : SeqRun (s.ghost.tape.length + 1) frames →
      s.ghost.tape.length + frames.length ≤ seq')
    (hspec : wp F p (fun _ j' s' => JInv s'.ghost.tape j' s' ∧
        s'.ghost.tape = s.ghost.tape ++ frames)
      (fun _ j' s' => JInv s.ghost.tape j' s' ∧ s'.ghost.tape = s.ghost.tape)
      (CrashAppending s.ghost.tape frames) j s)
    (hkeeps : Keeps F (SameShelf s) p) :
    wp F p (fun _ j' s' => DInv Live tip j' seq' s' ∧ s'.ghost.tape = s.ghost.tape ++ frames ∧
        SeqRun (s.ghost.tape.length + 1) frames ∧ SameShelf s s')
      (fun _ j' s' => DInv Live tip j' seq' s' ∧ s'.ghost.tape = s.ghost.tape) (NCrash Live) j s := by
  have hmore : svc.Codecs → ∀ f ∈ s.ghost.tape ++ frames, Decodes svc f := fun hcodecs f hf =>
    (List.mem_append.mp hf).elim (h.decodes hcodecs f) (hdec hcodecs f)
  refine wp_mono (wp_and hspec (hkeeps j s (.refl s))) ?_ ?_ ?_
  · rintro - j' s' ⟨⟨hinv, htape⟩, hsame⟩
    have hrun : SeqRun (s.ghost.tape.length + 1) frames := by
      have hall := hinv.run
      rw [htape, SeqRun.append] at hall
      rw [Nat.add_comm]
      exact hall.2
    refine ⟨⟨hinv, by rw [htape]; exact hmore, hsame.shelfAt frames h.shelf htape, ?_, ?_, ?_⟩, htape, hrun,
      hsame⟩
    · rw [htape, List.length_append]
      exact (h.topped.of_snaps hsame.1).mono (Nat.le_add_right ..)
    · rw [htape, List.length_append]
      exact Nat.le_trans h.tip_le (Nat.le_add_right ..)
    · rw [htape, List.length_append]
      exact hlast hrun
  · rintro - j' s' ⟨⟨hinv, htape⟩, hsame⟩
    rw [← htape] at hinv
    refine ⟨⟨hinv, by rw [htape]; exact h.decodes,
      hsame.shelfAt [] h.shelf (by rw [htape, List.append_nil]), ?_, ?_, ?_⟩, htape⟩
    · rw [htape]
      exact h.topped.of_snaps hsame.1
    · rw [htape]
      exact h.tip_le
    · rw [htape]
      exact Nat.le_trans h.behind hseq
  · rintro s' ⟨⟨hcrash, htape⟩, hsame⟩
    rcases htape with htape | htape
    · exact ⟨hcrash, by rw [htape]; exact h.decodes,
        (hsame.shelfAt [] h.shelf (by rw [htape, List.append_nil])).crash⟩
    · exact ⟨hcrash, by rw [htape]; exact hmore, (hsame.shelfAt frames h.shelf htape).crash⟩

theorem DInv.append (hF : ∀ k, ¬F (.fault k)) {j : Journal} {seq : ℕ} {frame : Frame}
    (h : DInv Live tip j seq s) (hdec : svc.Codecs → Decodes svc frame)
    (hseq : frame.seq = seq + 1) :
    wp F (Journal.append frame) (fun _ j' s' => DInv Live tip j' frame.seq s' ∧
        s'.ghost.tape = s.ghost.tape ++ [frame] ∧ SeqRun (s.ghost.tape.length + 1) [frame] ∧
        SameShelf s s')
      (fun _ j' s' => DInv Live tip j' frame.seq s' ∧ s'.ghost.tape.length < frame.seq) (NCrash Live) j s := by
  have hspec : wp F (Journal.append frame) (fun _ j' s' => JInv s'.ghost.tape j' s' ∧
      s'.ghost.tape = s.ghost.tape ++ [frame])
      (fun _ j' s' => JInv s.ghost.tape j' s' ∧ s'.ghost.tape = s.ghost.tape)
      (CrashAppending s.ghost.tape [frame]) j s :=
    wp_mono (wp_append hF h.journal frame (fun _ _ hcrash => hcrash) fun _ => ⟨h.journal.crash, Or.inl rfl⟩)
      (fun _ _ _ h => ⟨h.1, h.2.1⟩) (fun _ _ _ h => ⟨h.1, h.2.1⟩) (fun _ h => h)
  refine wp_mono (h.written (fun hcodecs f hf => List.mem_singleton.mp hf ▸ hdec hcodecs) (show seq ≤ frame.seq by omega)
    (fun hrun => ?_) hspec ((jstable_sameShelf s).appending.append fun _ h => h)) (fun _ _ _ h => h) ?_
    (fun _ h => h)
  · rw [hrun.1]
    exact Nat.le_refl _
  · rintro - j' s' ⟨h', htape⟩
    have := h.behind
    exact ⟨h', by rw [htape]; omega⟩

theorem DInv.sync (hF : ∀ k, ¬F (.fault k)) {j : Journal} {seq : ℕ} (h : DInv Live tip j seq s) :
    wp F Journal.sync (fun _ j' s' => DInv Live tip j' seq s' ∧ s'.ghost.tape = s.ghost.tape)
      (fun _ j' s' => DInv Live tip j' seq s' ∧ s'.ghost.tape = s.ghost.tape) (NCrash Live) j s := by
  have hsync : wp F Journal.sync (fun _ j' s' => JInv s'.ghost.tape j' s' ∧
      s'.ghost.tape = s.ghost.tape ++ [])
      (fun _ j' s' => JInv s.ghost.tape j' s' ∧ s'.ghost.tape = s.ghost.tape)
      (CrashAppending s.ghost.tape []) j s := by
    refine wp_mono (wp_sync (fun _ => ⟨h.journal.crash, Or.inl rfl⟩) (fun k hk => absurd hk (hF k))
      h.journal) ?_ (fun _ _ _ h => h) (fun _ h => h)
    rintro - j' s' ⟨hinv, -, hghost, -⟩
    rw [hghost]
    exact ⟨hinv, by simp⟩
  refine wp_mono (h.written (fun _ f hf => by cases hf) (Nat.le_refl seq) (fun _ => by simpa using h.behind) hsync
    (jstable_sameShelf s).appending.sync) ?_ (fun _ _ _ h => h) (fun _ h => h)
  rintro - j' s' ⟨hinv, htape, -, -⟩
  exact ⟨hinv, by rw [htape, List.append_nil]⟩

/-! ## Sequencing -/

/-- A frame could not be journaled: the seq has run ahead of the tape, and stays ahead. -/
structure Stuck (Live : List Frame → svc.State → TimerWheel → Prop) (tip : ℕ) (n : Node svc) (s : JStore) :
    Prop where
  inv : DInv Live tip n.journal n.seq s
  ahead : s.ghost.tape.length < n.seq

/-- `n'` and `s'` are `n` and `s` after a frame was sequenced. -/
structure Grown (Live : List Frame → svc.State → TimerWheel → Prop) (tip : ℕ) (n : Node svc)
    (s : JStore) (kind : FrameKind) (payload : Bytes) (time : UInt64) (clock : ℕ → UInt64)
    (frame : Frame) (n' : Node svc) (s' : JStore) : Prop where
  level : n.seq = s.ghost.tape.length
  kind : frame.kind = kind
  payload : frame.payload = payload
  seq : frame.seq = s.ghost.tape.length + 1
  timestamp : frame.timestamp = max time n.lastTimestamp
  node : ∃ journal, n' = { n with
    clock := clock, journal := journal, seq := frame.seq, lastTimestamp := frame.timestamp }
  inv : DInv Live tip n'.journal n'.seq s'
  tape : s'.ghost.tape = s.ghost.tape ++ [frame]
  shelf : SameShelf s s'

theorem wp_stageFrame {kind : FrameKind} {payload : Bytes} {time : UInt64}
    {Q : Frame → Node svc → JStore → Prop} {E : NodeError → Node svc → JStore → Prop}
    {C : JStore → Prop} (hC : C s)
    (hQ : ∀ frame : Frame, frame.seq = n.seq + 1 → frame.kind = kind → frame.payload = payload →
      frame.timestamp = max time n.lastTimestamp →
      Q frame { n with seq := frame.seq, lastTimestamp := frame.timestamp } s) :
    wp F (stageFrame kind payload time) Q E C n s := by
  refine wp_bind (wp_mem ?_)
  split
  · exact wp_bind (wp_update (wp_pure (hQ _ rfl rfl rfl rfl)))
  · exact wp_panic hC

/-- **Sequencing a frame** that can be replayed. -/
theorem wp_sequenceAt (hF : ∀ k, ¬F (.fault k)) {kind : FrameKind} {payload : Bytes} {time : UInt64}
    (h : DInv Live tip n.journal n.seq s)
    (hdec : svc.Codecs → ∀ frame : Frame, frame.kind = kind → frame.payload = payload → Decodes svc frame) :
    wp F (sequenceAt kind payload time) (Grown Live tip n s kind payload time n.clock)
      (fun _ => Stuck Live tip) (NCrash Live) n s := by
  refine wp_bind (wp_stageFrame h.crash fun frame hseq hkind hpayload htime => ?_)
  refine wp_bind (wp_onJournal (wp_mono (h.append hF (fun hcodecs => hdec hcodecs frame hkind hpayload) hseq) ?_
    (fun _ _ _ h => ⟨h.1, h.2⟩) (fun _ h => h)))
  rintro - j s' ⟨hinv, htape, hrun, hsame⟩
  have hlevel : frame.seq = s.ghost.tape.length + 1 := hrun.1
  exact wp_pure ⟨by omega, hkind, hpayload, hlevel, htime, ⟨j, rfl⟩, hinv, htape, hsame⟩

theorem wp_sequence (hF : ∀ k, ¬F (.fault k)) {kind : FrameKind} {payload : Bytes}
    (h : DInv Live tip n.journal n.seq s)
    (hdec : svc.Codecs → ∀ frame : Frame, frame.kind = kind → frame.payload = payload → Decodes svc frame) :
    wp F (sequence kind payload) (Grown Live tip n s kind payload (n.clock 0) fun i => n.clock (i + 1))
      (fun _ => Stuck Live tip) (NCrash Live) n s := by
  refine wp_bind (wp_bind (wp_mem (wp_bind (wp_update (wp_pure ?_)))))
  refine wp_mono (wp_sequenceAt hF (n := { n with clock := fun i => n.clock (i + 1) }) h hdec) ?_
    (fun _ _ _ h => h) (fun _ h => h)
  rintro frame n' s' ⟨hlevel, hkind, hpayload, hseq, htime, hnode, hinv, htape, hsame⟩
  exact ⟨hlevel, hkind, hpayload, hseq, htime, hnode, hinv, htape, hsame⟩

/-! ## Snapshots -/

/-- `n'` and `s'` are `n` and `s` after a step that sequences one snapshot mark if `marked` is set, and
nothing else. -/
structure Marked (Live : List Frame → svc.State → TimerWheel → Prop) (tip : ℕ) (marked : Bool)
    (n : Node svc) (s : JStore) (n' : Node svc) (s' : JStore) : Prop where
  inv : DInv Live tip n'.journal n'.seq s'
  level : n.seq = s.ghost.tape.length → n'.seq = s'.ghost.tape.length
  service : n'.service = n.service
  timers : n'.timers = n.timers
  snapshotEvery : n'.snapshotEvery = n.snapshotEvery
  clock : n'.clock = if marked then fun i => n.clock (i + 1) else n.clock
  lastTimestamp : n'.lastTimestamp = if marked then max (n.clock 0) n.lastTimestamp else n.lastTimestamp
  marks : ∃ marks, s'.ghost.tape = s.ghost.tape ++ marks ∧ ∀ f ∈ marks, f.kind = .snapshotMark

theorem Marked.refl (h : DInv Live tip n.journal n.seq s) : Marked Live tip false n s n s :=
  ⟨h, id, rfl, rfl, rfl, rfl, rfl, [], (List.append_nil _).symm, fun f hf => by cases hf⟩

theorem Marked.length_le {marked : Bool} {n' : Node svc} {s' : JStore}
    (h : Marked Live tip marked n s n' s') : s.ghost.tape.length ≤ s'.ghost.tape.length := by
  obtain ⟨marks, htape, -⟩ := h.marks
  rw [htape, List.length_append]
  exact Nat.le_add_right ..

/-- A snapshot operation sees the journal only through its frame condition. -/
theorem DInv.reshelved {j : Journal} {seq : ℕ} {s' : JStore} (h : DInv Live tip j seq s)
    (hshelf : ShelfAt (Good Live) tip s') (htopped : Topped s.ghost.tape.length s')
    (hjournal : JInv s.ghost.tape j s' ∧ s'.ghost.tape = s.ghost.tape ∧
      s'.ghost.cutoff = s.ghost.cutoff) : DInv Live tip j seq s' := by
  obtain ⟨hinv, htape, -⟩ := hjournal
  rw [← htape] at hinv htopped
  refine ⟨hinv, by rw [htape]; exact h.decodes, hshelf, htopped, ?_, ?_⟩
  · rw [htape]
    exact h.tip_le
  · rw [htape]
    exact h.behind

theorem DInv.reshelving {j : Journal} {seq : ℕ} {s' : JStore} (h : DInv Live tip j seq s)
    (hshelf : ShelfCrash (Good Live) s')
    (hjournal : JInv s.ghost.tape j s' ∧ s'.ghost.tape = s.ghost.tape ∧
      s'.ghost.cutoff = s.ghost.cutoff) : NCrash Live s' :=
  ⟨hjournal.1.crash, by rw [hjournal.2.1]; exact h.decodes, hshelf⟩

/-- **Writing a snapshot file** of a state that belongs to the first `seq` frames. -/
theorem wp_writeSnapshot (hF : ∀ k, ¬F (.fault k)) {seq : ℕ} {state : svc.State} {timers : TimerWheel}
    (h : DInv Live tip n.journal n.seq s) (hlive : Live (s.ghost.tape.take seq) state timers)
    (hle : seq ≤ s.ghost.tape.length) (hlt : seq < 2 ^ 64) :
    wp F (onSnapshots (Snapshots.write seq 0 (snapshotPayload svc state timers)))
      (fun _ n' s' => n' = n ∧ DInv Live tip n.journal n.seq s' ∧ Reaches (Good Live) seq s' ∧
        s'.ghost.tape = s.ghost.tape)
      (fun _ n' s' => n' = n ∧ DInv Live tip n.journal n.seq s' ∧ s'.ghost.tape = s.ghost.tape ∧
        ∃ f, s.disk.get (snapName seq) = some f)
      (NCrash Live) n s := by
  have hframe : wp F (Snapshots.write seq 0 (snapshotPayload svc state timers)) _ _ _ n s :=
    (JInv.sstable s.ghost.tape s.ghost.tape n.journal s.ghost.cutoff).write seq 0 _ n s
      ⟨h.journal, rfl, rfl⟩
  refine wp_mapErr (wp_mono (wp_and (wp_write hF h.shelf ⟨state, timers, hlive, rfl⟩ hle hlt) hframe)
    ?_ ?_ ?_)
  · rintro - n' s' ⟨⟨rfl, hshelf, hreach, hother⟩, hjournal⟩
    refine ⟨rfl, h.reshelved hshelf (fun p f hget => ?_) hjournal, hreach, hjournal.2.1⟩
    by_cases heq : p = seq
    · exact heq ▸ hle
    · exact h.topped p f (hother p heq ▸ hget)
  · rintro _ n' s' ⟨⟨rfl, hshelf, hdisk, htaken⟩, hjournal⟩
    exact ⟨rfl, h.reshelved hshelf (fun p f hget => h.topped p f (hdisk ▸ hget)) hjournal, hjournal.2.1, htaken⟩
  · rintro s' ⟨hshelf, hjournal⟩
    exact h.reshelving hshelf hjournal

/-- **Pruning**: what it returns may be compacted. -/
theorem wp_prune (hF : ∀ k, ¬F (.fault k)) {seq : ℕ} (keep : ℕ) (h : DInv Live tip n.journal n.seq s)
    (hreach : Reaches (Good Live) seq s) (htip : tip < seq) :
    wp F (onSnapshots (Snapshots.pruneKeepNewest keep))
      (fun o n' s' => n' = n ∧ DInv Live tip n.journal n.seq s' ∧ s'.ghost.tape = s.ghost.tape ∧
        ∀ oldest, o = some oldest → Covers (Good Live) oldest s')
      (fun _ _ _ => False) (NCrash Live) n s := by
  have hframe : wp F (Snapshots.pruneKeepNewest keep) _ _ _ n s :=
    (JInv.sstable s.ghost.tape s.ghost.tape n.journal s.ghost.cutoff).pruneKeepNewest keep n s
      ⟨h.journal, rfl, rfl⟩
  have hspec : wp F (Snapshots.pruneKeepNewest keep) _ (fun _ _ _ => False) _ n s :=
    wp_pruneKeepNewest hF keep h.shelf hreach htip
  refine wp_mapErr (wp_mono (wp_and hspec hframe) ?_ ?_ ?_)
  · rintro o n' s' ⟨⟨rfl, -, hshelf, hcovers, hsub⟩, hjournal⟩
    exact ⟨rfl, h.reshelved hshelf (fun p f hget => h.topped p f (hsub p f hget)) hjournal, hjournal.2.1, hcovers⟩
  · rintro _ n' s' ⟨hfalse, -⟩
    exact hfalse
  · rintro s' ⟨hshelf, hjournal⟩
    exact h.reshelving hshelf hjournal

/-- A snapshot stays on the shelf while the tape grows. -/
theorem SameShelf.reaches {Good : List Frame → Bytes → Prop} {s' : JStore} {seq : ℕ}
    {frames : List Frame} (h : SameShelf s s') (hreach : Reaches Good seq s)
    (hle : seq ≤ s.ghost.tape.length) (htape : s'.ghost.tape = s.ghost.tape ++ frames) :
    Reaches Good seq s' := by
  unfold Reaches at hreach ⊢
  rw [h.2.2, htape]
  refine hreach.imp_right fun ⟨f, hget, hvalid⟩ => ⟨f, ?_, ?_⟩
  · rw [← mem_filesOf] at hget ⊢
    rw [show filesOf .snap s'.disk = snaps s from h.1]
    exact hget
  · exact hvalid.congr (List.take_append_of_le_length hle)

/-- The shelf of `s`, where compaction may have been asked for up to `cutoff`. -/
def RaisedShelf (cutoff : ℕ) (s s' : JStore) : Prop :=
  snaps s' = snaps s ∧ s'.ghost.oversize = s.ghost.oversize ∧ s'.ghost.cutoff ≤ max s.ghost.cutoff cutoff

theorem jstable_raisedShelf (cutoff : ℕ) (s : JStore) : JStable (RaisedShelf cutoff s) where
  disk := by
    intro s' d h hd
    have hsnaps : snaps (s'.withDisk d) = snaps s' :=
      filesOf_congr fun n => hd (snapName n) fun m heq => by cases heq
    exact ⟨hsnaps.trans h.1, h.2⟩
  durable := fun _ _ h => h
  window := fun _ _ h => h

theorem RaisedShelf.refl (cutoff : ℕ) (s : JStore) : RaisedShelf cutoff s s := ⟨rfl, rfl, Nat.le_max_left ..⟩

theorem RaisedShelf.raise {cutoff : ℕ} {s s' : JStore} (h : RaisedShelf cutoff s s') : RaisedShelf cutoff s
    { s' with ghost := { s'.ghost with cutoff := max s'.ghost.cutoff cutoff } } :=
  ⟨h.1, h.2.1, Nat.max_le.mpr ⟨h.2.2, Nat.le_max_right ..⟩⟩

/-- A snapshot that covers the old and the new cutoff keeps the shelf. -/
theorem RaisedShelf.shelfAt {Good : List Frame → Bytes → Prop} {cutoff : ℕ} {s' : JStore}
    (h : RaisedShelf cutoff s s') (hshelf : ShelfAt Good tip s) (hcover : Covers Good cutoff s)
    (htape : s'.ghost.tape = s.ghost.tape) : ShelfAt Good tip s' := by
  obtain ⟨hsnaps, hover, hcut⟩ := h
  unfold ShelfAt
  rw [hsnaps, htape, hover]
  rcases hshelf with hlost | hs
  · exact Or.inl hlost
  rcases hcover with hlost | ⟨p, f, hget, hvalid, hle, hle'⟩
  · exact Or.inl hlost
  · exact Or.inr (hs.congr (fun _ _ _ hok => hok) (fun n f hmem => ⟨(hs.files n f hmem).1, rfl⟩)
      (Or.inr ⟨p, f, mem_filesOf.mpr hget, hvalid, by omega⟩))

/-- Compaction below a cutoff that a snapshot covers. -/
theorem DInv.compactBelow (hF : ∀ k, ¬F (.fault k)) {j : Journal} {seq cutoff : ℕ}
    (h : DInv Live tip j seq s) (hcover : Covers (Good Live) cutoff s) :
    wp F (Journal.compactBelow cutoff)
      (fun _ j' s' => DInv Live tip j' seq s' ∧ s'.ghost.tape = s.ghost.tape)
      (fun _ _ _ => False) (NCrash Live) j s := by
  have hspec : wp F (Journal.compactBelow cutoff) (fun _ j' s' => JInv s.ghost.tape j' s' ∧
      s'.ghost = { s.ghost with cutoff := max s.ghost.cutoff cutoff }) (fun _ _ _ => False)
      (CrashWith s.ghost.tape) j s :=
    wp_mono (wp_compactBelow hF h.journal cutoff (fun _ _ hcrash => hcrash)
      (fun _ _ => ⟨(h.journal.raiseCutoff cutoff).crash, rfl⟩)) (fun _ _ _ h => ⟨h.1, h.2.1⟩)
      (fun _ _ _ h => h) (fun _ h => h)
  refine wp_mono (wp_and hspec ((jstable_raisedShelf cutoff s).compactBelow cutoff (fun _ h => h.raise) j s
    (.refl cutoff s))) ?_ ?_ ?_
  · rintro _ j' s' ⟨⟨hinv, hghost⟩, hraised⟩
    have htape : s'.ghost.tape = s.ghost.tape := by rw [hghost]
    refine ⟨⟨htape ▸ hinv, by rw [htape]; exact h.decodes, hraised.shelfAt h.shelf hcover htape, ?_, ?_, ?_⟩,
      htape⟩
    · rw [htape]
      exact h.topped.of_snaps hraised.1
    · rw [htape]
      exact h.tip_le
    · rw [htape]
      exact h.behind
  · rintro e j' s' ⟨hfalse, -⟩
    exact hfalse
  · rintro s' ⟨⟨hcrash, htape⟩, hraised⟩
    exact ⟨hcrash, by rw [htape]; exact h.decodes, (hraised.shelfAt h.shelf hcover htape).crash⟩

/-- The snapshot at `seq` failed: the seq has run ahead of the tape, or there was one already, and nothing happened to
the service, the wheel and the tape. -/
structure Missed (Live : List Frame → svc.State → TimerWheel → Prop) (tip seq : ℕ) (n : Node svc) (s : JStore)
    (n' : Node svc) (s' : JStore) : Prop where
  inv : DInv Live tip n'.journal n'.seq s'
  idle : n'.seq = s'.ghost.tape.length →
    n'.service = n.service ∧ n'.timers = n.timers ∧ s'.ghost.tape = s.ghost.tape
  taken : n'.seq = s'.ghost.tape.length → ∃ f, s.disk.get (snapName seq) = some f

theorem Stuck.missed {seq : ℕ} {n' : Node svc} {s' : JStore} (h : Stuck Live tip n' s') :
    Missed Live tip seq n s n' s' :=
  ⟨h.inv, fun heq => absurd heq (Nat.ne_of_gt h.ahead), fun heq => absurd heq (Nat.ne_of_gt h.ahead)⟩

/-- **Taking a snapshot** of a state that belongs to the first `seq` frames. -/
theorem wp_takeSnapshot (hF : ∀ k, ¬F (.fault k)) {seq : ℕ} (h : DInv Live tip n.journal n.seq s)
    (hlive : Live (s.ghost.tape.take seq) n.service n.timers) (htip : tip < seq)
    (hle : seq ≤ s.ghost.tape.length) (hlt : seq < 2 ^ 64) :
    wp F (takeSnapshot seq) (fun _ => Marked Live tip true n s) (fun _ => Missed Live tip seq n s)
      (NCrash Live) n s := by
  refine wp_bind (wp_mem (wp_seq (wp_mono (wp_writeSnapshot hF h hlive hle hlt) (fun _ _ _ h => h) ?_
    fun _ h => h) ?_))
  · rintro _ n' s' ⟨rfl, h', htape, htaken⟩
    exact ⟨h', fun _ => ⟨rfl, rfl, htape⟩, fun _ => htaken⟩
  rintro - n₁ s₁ ⟨rfl, h₁, hreach₁, htape₁⟩
  -- the mark goes to the end of the tape, which may be beyond `seq`
  refine wp_seq (wp_mono (wp_sequence hF h₁ fun _ frame hkind _ => by simp only [Decodes, hkind])
    (fun _ _ _ h => h) (fun _ _ _ h => h.missed) fun _ h => h) ?_
  rintro mark n₂ s₂ ⟨-, hkind, -, hseq₂, htime, ⟨j₂, rfl⟩, h₂, htape₂, hsame⟩
  have hreach₂ := hsame.reaches hreach₁ (by rw [htape₁]; exact hle) htape₂
  refine wp_bind (wp_update ?_)
  refine wp_seq (wp_mono (wp_prune hF _ h₂ hreach₂ htip) (fun _ _ _ h => h) (fun _ _ _ h => h.elim)
    fun _ h => h) ?_
  rintro o n₃ s₃ ⟨rfl, h₃, htape₃, hcovers⟩
  have hmarks : s₃.ghost.tape = s.ghost.tape ++ [mark] := by rw [htape₃, htape₂, htape₁]
  have hlevel : mark.seq = s₃.ghost.tape.length := by
    rw [hseq₂, hmarks, htape₁, List.length_append, List.length_singleton]
  have hkinds : ∀ f ∈ [mark], f.kind = .snapshotMark := fun f hf => List.mem_singleton.mp hf ▸ hkind
  cases o with
  | none => exact wp_pure ⟨h₃, fun _ => hlevel, rfl, rfl, rfl, rfl, htime, [mark], hmarks, hkinds⟩
  | some oldest =>
    have hcover := (hcovers oldest rfl).of_le (Nat.sub_le oldest 1)
    refine wp_bind (wp_onJournal (wp_mono (h₃.compactBelow hF hcover) ?_ (fun _ _ _ h => h.elim)
      (fun _ h => h)))
    rintro _ j₄ s₄ ⟨h₄, htape₄⟩
    exact wp_pure ⟨h₄, fun _ => by rw [htape₄]; exact hlevel, rfl, rfl, rfl, rfl, htime, [mark],
      by rw [htape₄, hmarks], hkinds⟩

theorem wp_maybeSnapshot (hF : ∀ k, ¬F (.fault k)) {seq : ℕ} (h : DInv Live tip n.journal n.seq s)
    (hlive : Live (s.ghost.tape.take seq) n.service n.timers) (htip : tip < seq)
    (hle : seq ≤ s.ghost.tape.length) (hlt : seq < 2 ^ 64) :
    wp F (maybeSnapshot seq) (fun _ => Marked Live tip (onCadence n.snapshotEvery seq) n s)
      (fun _ => Missed Live tip seq n s) (NCrash Live) n s := by
  refine wp_bind (wp_mem ?_)
  cases n.snapshotEvery with
  | none => exact wp_pure (Marked.refl h)
  | some every =>
    refine wp_when (fun hdue => ?_) fun hdue => ?_
    · rw [show onCadence (some every) seq = true from decide_eq_true hdue]
      exact wp_takeSnapshot hF h hlive htip hle hlt
    · rw [show onCadence (some every) seq = false from decide_eq_false hdue]
      exact Marked.refl h

end Node

end Ticktape.Runtime
