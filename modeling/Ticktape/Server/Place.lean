import Ticktape.Journal.Writable
import Ticktape.Server.Grants
import Ticktape.Transport.Delivery

/-!
# A follower's place in the stream

`Server::pump` (`ticktape-server/src/lib.rs`) with its journal on a store that can fail. A frame moves four
cursors: the receiver's, the journal's, the replica's and `applied`. The receiver's moves first, and the popped
frame is held nowhere else: when journaling it fails, the receiver never delivers it again, and every later frame
is skipped. As long as no call of the journal fails the cursors stay together, whatever packets arrive and
whatever the receiver fails with.
-/

namespace Ticktape.Server

open Ticktape.Lib Ticktape.Core Ticktape.Journal Ticktape.Transport Ticktape.Cluster

/-! ## Pumping -/

/-- A follower and its journal. -/
structure Replicating (svc : Service) where
  follower : Follower svc
  journal : Journal

/-- Why a pump failed. -/
inductive PumpError where
  | transport (e : TransportError)
  | journal (e : JournalError)

namespace Replicating

variable {svc : Service}

/-- Run a journal operation. -/
def onJournal {α : Type} (p : JProg α) : Prog (Replicating svc) JStore PumpError α :=
  Prog.zoom (·.journal) (fun j m => { m with journal := j }) (Prog.mapErr .journal p)

/-- One frame out of the receiver. Returns how many frames were applied. -/
def onFrame (frame : Frame) : Prog (Replicating svc) JStore PumpError ℕ := do
  let m ← Prog.mem
  let next ← nextSeq m.follower.applied
  if frame.seq = next then do
    onJournal (append frame)
    Prog.update fun m => { m with follower := m.follower.onFrame frame }
    pure 1
  else pure 0

/-- Poll until the rounds are over, for at most `fuel` polls. -/
def pump : ℕ → List Round → Prog (Replicating svc) JStore PumpError ℕ
  | 0, _ => pure 0
  | fuel + 1, rounds => do
    let m ← Prog.mem
    let polled := Receiver.poll m.follower.reassembler rounds
    Prog.update fun m => { m with follower := { m.follower with reassembler := polled.2.1 } }
    match polled.1 with
    | .error e => Prog.fail (.transport e)
    | .ok (some frame) => do
      let applied ← onFrame frame
      let more ← pump fuel polled.2.2
      pure (applied + more)
    | .ok none => if polled.2.2.isEmpty then pure 0 else pump fuel polled.2.2

end Replicating

/-! ## A journal whose segments are large -/

section Roomy

variable {F : Fate → Prop} {j : Journal} {s : JStore}

/-- The same files are there. -/
def SameFiles (s s' : JStore) : Prop := ∀ k, Present k s' ↔ Present k s

theorem present_put {k k' : FileName} {f : FileData} :
    Present k (s.withDisk (s.disk.put k' f)) ↔ k = k' ∨ Present k s := by
  constructor
  · rintro ⟨g, hg⟩
    by_cases heq : k' = k
    · exact Or.inl heq.symm
    · rw [Store.withDisk_disk, Disk.get_put_of_ne _ _ heq] at hg
      exact Or.inr ⟨g, hg⟩
  · rintro (rfl | h)
    · exact ⟨f, Disk.get_put_self _ _ _⟩
    · exact h.put k' f

/-- Writing to a file that is there creates none. -/
theorem sameFiles_put {k : FileName} (h : Present k s) (f : FileData) :
    SameFiles s (s.withDisk (s.disk.put k f)) := by
  intro k'
  rw [present_put]
  constructor
  · rintro (rfl | hk)
    · exact h
    · exact hk
  · exact Or.inr

/-- Syncing fails only if the storage does. -/
theorem wp_sync_present (hF : ∀ k, ¬F (.fault k)) (h : ∀ c, j.current = some c → Present (segName c.file) s) :
    wp F sync (fun _ j' s' => SamePlace j j' ∧ SameFiles s s') (fun _ _ _ => False) (fun _ => True) j s := by
  have hflush : wp F flush (fun _ j' s' => SamePlace j j' ∧ SameFiles s s') (fun _ _ _ => False)
      (fun _ => True) j s := by
    apply wp_bind
    apply wp_mem
    cases hcur : j.current with
    | none => exact wp_pure ⟨⟨rfl, rfl, rfl⟩, fun _ => Iff.rfl⟩
    | some c =>
      apply wp_when
      · intro _
        obtain ⟨f, hf⟩ := h c hcur
        apply wp_bind
        apply wp_io
        apply wp_onFile (fun _ => trivial) (fun k hk => absurd hk (hF k))
        · intro g hg
          exact wp_update ⟨⟨rfl, rfl, rfl⟩, sameFiles_put ⟨g, hg⟩ _⟩
        · intro hnone
          simp [hf] at hnone
      · exact fun _ => ⟨⟨rfl, rfl, rfl⟩, fun _ => Iff.rfl⟩
  apply wp_seq hflush
  rintro _ j' s' ⟨hplace, hfiles⟩
  apply wp_bind
  apply wp_instant
  intro now
  apply wp_bind
  apply wp_update
  apply wp_bind
  apply wp_mem
  apply wp_record
  exact ⟨⟨hplace.current, hplace.lastSeq, hplace.config⟩, hfiles⟩

theorem wp_maybeSync_present (hF : ∀ k, ¬F (.fault k))
    (h : ∀ c, j.current = some c → Present (segName c.file) s) :
    wp F maybeSync (fun _ j' s' => SamePlace j j' ∧ SameFiles s s') (fun _ _ _ => False) (fun _ => True) j s := by
  apply wp_bind
  apply wp_mem
  cases j.config.fsync with
  | everyFrame => exact wp_sync_present hF h
  | micros window =>
    apply wp_bind
    apply wp_instant
    intro now
    apply wp_when
    · exact fun _ => wp_sync_present hF h
    · exact fun _ => ⟨⟨rfl, rfl, rfl⟩, fun _ => Iff.rfl⟩
  | never => exact wp_pure ⟨⟨rfl, rfl, rfl⟩, fun _ => Iff.rfl⟩

/-- Starting a segment whose file is not there. -/
theorem wp_startSegment_present (hF : ∀ k, ¬F (.fault k)) {a : ℕ} (during after : Window)
    (hfree : ¬Present (segName a) s) :
    wp F (startSegment a during after)
      (fun _ j' s' => j' = { j with current := some ⟨a, SEGMENT_HEADER_LEN, 0⟩ } ∧
        ∀ k, Present k s' ↔ k = segName a ∨ Present k s) (fun _ _ _ => False) (fun _ => True) j s := by
  have hnew : ∀ (s₁ : JStore), (∀ k, Present k s₁ ↔ k = segName a ∨ Present k s) →
      ∀ f, ∀ k, Present k (s₁.withDisk (s₁.disk.put (segName a) f)) ↔ k = segName a ∨ Present k s := by
    intro s₁ h₁ f k
    rw [sameFiles_put ((h₁ _).mpr (Or.inl rfl)) f k, h₁ k]
  apply wp_bind
  apply wp_mem
  apply wp_bind
  apply wp_io
  apply wp_createNew (fun _ => trivial) (fun k hk => absurd hk (hF k)) ?_ (fun f hf => hfree ⟨f, hf⟩)
  intro _
  have h₁ : ∀ k, Present k (s.withDisk (s.disk.put (segName a) ⟨[], []⟩)) ↔ k = segName a ∨ Present k s :=
    fun _ => present_put
  apply wp_bind
  apply wp_record
  apply wp_bind
  apply wp_io
  apply wp_writeAll (fun _ => trivial) (fun k _ hk => absurd hk (hF k))
  · intro _ hnone
    simp at hnone
  intro f hf
  have h₂ := hnew _ h₁ (f.write (segmentHeaderBytes a j.epoch))
  apply wp_bind
  apply wp_io
  apply wp_onFile (fun _ => trivial) (fun k hk => absurd hk (hF k)) ?_ (fun hnone => by simp at hnone)
  intro g hg
  have h₃ := hnew _ h₂ g.sync
  apply wp_bind
  apply wp_record
  apply wp_bind
  apply wp_io
  apply wp_syncDir (fun _ => trivial) (fun k hk => absurd hk (hF k))
  apply wp_update
  exact ⟨rfl, h₃⟩

/-- **The journal of a follower**: any frame fits into a segment that has none, the open segment has its file, and a
segment above the last frame can only be the open one, without a frame. -/
structure Roomy (j : Journal) (s : JStore) : Prop where
  fits : SEGMENT_HEADER_LEN + (FRAME_HEADER_LEN + MAX_PAYLOAD_LEN + 4) ≤ j.config.segmentBytes
  present : ∀ c, j.current = some c → Present (segName c.file) s
  above : ∀ n, j.lastSeq < n → Present (segName n) s →
    n = j.lastSeq + 1 ∧ ∃ c, j.current = some c ∧ c.file = n ∧ c.size = SEGMENT_HEADER_LEN

/-- A segment without a frame takes the next one. -/
theorem Roomy.free {frame : Frame} (h : Roomy j s) (hroll : j.needsRoll frame.encodedLen = true) :
    ¬Present (segName (j.lastSeq + 1)) s := by
  intro hpresent
  obtain ⟨-, c, hcur, -, hsize⟩ := h.above _ (Nat.lt_succ_self _) hpresent
  have hpayload := frame.payload_le
  have hfits := h.fits
  simp only [needsRoll, hcur, hsize, Frame.encodedLen, Bool.and_eq_true, decide_eq_true_eq] at hroll
  omega

/-- **Appending the next frame** fails only if the storage does. -/
theorem wp_append_roomy (hF : ∀ k, ¬F (.fault k)) {frame : Frame} (h : Roomy j s)
    (hseq : frame.seq = j.lastSeq + 1) :
    wp F (append frame) (fun _ j' s' => Roomy j' s' ∧ j'.lastSeq = frame.seq) (fun _ _ _ => False)
      (fun _ => True) j s := by
  apply wp_bind
  apply wp_mem
  apply wp_bind
  apply wp_nextSeq ?_ (fun _ => trivial)
  intro _
  rw [if_neg (not_not_intro hseq), hseq]
  apply wp_bind
  apply wp_mem
  -- a segment is open, and no file is above the one that may have been started
  have hopen : wp F (Prog.when (j.needsRoll frame.encodedLen = true) (rollSegment (j.lastSeq + 1)))
      (fun _ j' s' => (∃ c, j'.current = some c ∧ Present (segName c.file) s') ∧ j'.config = j.config ∧
        ∀ n, j.lastSeq < n → Present (segName n) s' → n = j.lastSeq + 1) (fun _ _ _ => False) (fun _ => True) j s := by
    apply wp_when
    · intro hroll
      have hfree := h.free hroll
      apply wp_seq (wp_sync_present hF h.present)
      rintro _ j₁ s₁ ⟨hplace, hfiles⟩
      have hfree₁ : ¬Present (segName (j.lastSeq + 1)) s₁ := by rwa [hfiles]
      refine wp_mono (wp_startSegment_present hF _ _ hfree₁) ?_ (fun _ _ _ h => h) fun _ h => h
      rintro _ j₂ s₂ ⟨hj₂, hfiles₂⟩
      refine ⟨⟨⟨j.lastSeq + 1, SEGMENT_HEADER_LEN, 0⟩, by rw [hj₂], (hfiles₂ _).mpr (Or.inl rfl)⟩, ?_, ?_⟩
      · rw [hj₂]
        exact hplace.config
      · intro n hlow hn
        rcases (hfiles₂ _).mp hn with heq | hold
        · simpa [segName] using heq
        · rw [hfiles] at hold
          exact (h.above n hlow hold).1
    · intro hroom
      refine ⟨?_, rfl, fun n hlow hn => (h.above n hlow hn).1⟩
      cases hcur : j.current with
      | none => simp [needsRoll, hcur] at hroom
      | some c => exact ⟨c, rfl, h.present c hcur⟩
  apply wp_seq hopen
  rintro _ j₁ s₁ ⟨⟨c, hcur, hc⟩, hconfig, habove⟩
  apply wp_bind
  apply wp_mem
  rw [hcur]
  apply wp_bind
  apply wp_io
  apply wp_writeAll (fun _ => trivial) (fun k _ hk => absurd hk (hF k))
  · intro _ hnone
    obtain ⟨f, hf⟩ := hc
    simp [hf] at hnone
  intro f _
  have hfiles := sameFiles_put hc (f.write (encodeAll [frame]))
  apply wp_bind
  apply wp_record
  apply wp_bind
  apply wp_update
  refine wp_mono (wp_maybeSync_present hF ?_) ?_ (fun _ _ _ h => h) fun _ h => h
  · intro c' hc'
    cases hc'
    exact (hfiles _).mpr hc
  · rintro _ j₂ s₂ ⟨hplace, hfiles₂⟩
    have hpresent : ∀ k, Present k s₂ ↔ Present k s₁ := fun k => (hfiles₂ k).trans (hfiles k)
    refine ⟨⟨?_, ?_, ?_⟩, hplace.lastSeq⟩
    · rw [hplace.config]
      exact hconfig ▸ h.fits
    · intro c' hc'
      rw [hplace.current] at hc'
      cases hc'
      exact (hpresent _).mpr hc
    · intro n hlow hn
      have hlast : j₂.lastSeq = j.lastSeq + 1 := hplace.lastSeq
      have := habove n (by omega) ((hpresent _).mp hn)
      omega

end Roomy

/-! ## Opening -/

section Opening

/-- A journal directory whose history starts at the first frame; its newest segment may end in damaged bytes. -/
def Uncompacted (s : JStore) : Prop :=
  segs s = [] ∨ ∃ t pre a f q, SeqRun 1 t ∧ ReadsAs s t pre a f q ∧
    (q = [] ∨ ∃ e, Frame.readFrom q = .error e) ∧ startOf pre a = 1

/-- **What a follower is opened on.** -/
theorem roomy_of_opened {w w' : World JStore} {r : Recovered} (hdir : Uncompacted w.st) (hw : w.Benign)
    (hopen : openWith followerConfig () w = .ok r () w') :
    Roomy r.journal w'.st ∧ SeqRun 1 r.frames ∧ r.journal.lastSeq = r.frames.length := by
  have hfits : SEGMENT_HEADER_LEN + (FRAME_HEADER_LEN + MAX_PAYLOAD_LEN + 4) ≤ followerConfig.segmentBytes := by
    decide
  rcases hdir with hnil | ⟨t, pre, a, f, q, hrun, hreads, hq, hone⟩
  · obtain ⟨-, ⟨now, rfl⟩, hst⟩ := wp_ok (wp_openWith_empty (E := fun _ _ _ => True) (C := fun _ => True)
      benign_no_fault (fun _ => trivial) hnil followerConfig) hw hopen
    refine ⟨⟨hfits, by simp, ?_⟩, trivial, rfl⟩
    rintro n - ⟨g, hg⟩
    rw [hst] at hg
    have hmem : (n, g) ∈ segs w.st := mem_filesOf.mpr hg
    simp [hnil] at hmem
  · obtain ⟨-, hr⟩ := wp_ok (wp_openWith_reads (E := fun _ _ _ => True) (C := fun _ => True) benign_no_fault hreads
      (fun _ => trivial) (fun _ _ => trivial) hrun (fun _ => trivial) hq followerConfig) hw hopen
    have hsize := wp_ok (wp_openWith_size followerConfig) (fun _ _ => trivial) hopen
    obtain ⟨size, frames, hcur⟩ := hr.current
    obtain ⟨f', epoch, hsegs, hbytes⟩ := hr.newest hreads
    have hle := hreads.le
    have hsorted : (segs w'.st).Pairwise (·.1 < ·.1) := filesOf_sorted
    refine ⟨⟨by rw [hr.config]; exact hfits, ?_, ?_⟩, ?_, ?_⟩
    · intro c hc
      obtain ⟨g, hg, -⟩ := hsize c hc
      exact ⟨g, hg⟩
    · rintro n hlow ⟨g, hg⟩
      have hmem : (n, g) ∈ segs w'.st := mem_filesOf.mpr hg
      rw [hr.last] at hlow ⊢
      rw [hsegs] at hmem hsorted
      have hna : n ≤ a := by
        rcases List.mem_append.mp hmem with hmem | hmem
        · exact Nat.le_of_lt ((List.pairwise_append.mp hsorted).2.2 _ hmem (a, f') (by simp))
        · simp only [List.mem_singleton, Prod.mk.injEq] at hmem
          exact hmem.1.le
      have hn : n = t.length + 1 := by omega
      have ha : a = t.length + 1 := by omega
      refine ⟨hn, _, hcur, by rw [hn, ha], ?_⟩
      -- there is no frame in it
      obtain ⟨g', hg', hlen⟩ := hsize _ hcur
      have hget : w'.st.disk.get (segName a) = some f' :=
        mem_filesOf.mp (by rw [show filesOf .seg w'.st.disk = _ from hsegs]; simp)
      rw [hget] at hg'
      cases hg'
      rw [hlen, hbytes, segmentBytes, ha, span_self, encodeAll_nil, List.append_nil, segmentHeaderBytes_length]
    · rw [hr.frames, hr.first, hone]
      simpa using hrun
    · rw [hr.frames, hr.first, hone, hr.last]
      simp

end Opening

/-! ## Cursors -/

namespace Replicating

variable {svc : Service} {m m' : Replicating svc} {s : JStore}

/-- Every frame that waits is filed under its seq. -/
def Filed (r : Reassembler) : Prop := ∀ (seq : ℕ) (f : Frame), r.pending[seq]? = some f → f.seq = seq

/-- **The four cursors are together.** -/
structure Placed (m : Replicating svc) : Prop where
  journal : m.journal.lastSeq = m.follower.applied
  replica : m.follower.replica.seq = m.follower.applied
  receiver : m.follower.reassembler.nextExpected = m.follower.applied + 1
  filed : Filed m.follower.reassembler

/-- The receiver is one frame ahead: that frame is lost. -/
def Lost (m : Replicating svc) : Prop := m.follower.reassembler.nextExpected = m.follower.applied + 2

/-- With reassembler `r` the cursors are together. -/
def PlacedWith (m : Replicating svc) (r : Reassembler) : Prop :=
  r.nextExpected = m.follower.applied + 1 ∧ Filed r

theorem placedWith_ingest {r r' : Reassembler} {packet : Packet} (h : m.PlacedWith r)
    (hrun : r.ingest packet = .ok r') : m.PlacedWith r' := by
  refine ⟨?_, fun seq f hf => ?_⟩
  · exact (Reassembler.ingest_spec hrun).1.trans h.1
  · rcases Reassembler.pending_ingest hrun hf with hold | ⟨-, hseq, -⟩
    · exact h.2 seq f hold
    · exact hseq.symm

/-- A frame that the receiver delivers is the next one, and moves the receiver's cursor. -/
theorem delivered {r r' : Reassembler} {frame : Frame} (h : m.PlacedWith r)
    (hnext : r.nextFrame = some (frame, r')) :
    frame.seq = m.follower.applied + 1 ∧ r'.nextExpected = m.follower.applied + 2 ∧
      Filed r' := by
  obtain ⟨hexpected, hfiled⟩ := h
  obtain ⟨hget, hkeep⟩ := Reassembler.nextFrame_cases hnext
  refine ⟨(hfiled _ _ hget).trans hexpected, ?_, fun seq f hf => hfiled seq f (hkeep hf)⟩
  unfold Reassembler.nextFrame at hnext
  split at hnext
  · cases hnext
  · cases hnext
    simp only [Reassembler.nextExpected] at hexpected ⊢
    omega

/-- What the failure of a pump leaves, if `Fails` says whether journaling can fail. -/
def Failed (Fails : Prop) (J : Journal → JStore → Prop) (e : PumpError) (m : Replicating svc) (s : JStore) : Prop :=
  match e with
  | .transport _ => m.Placed ∧ J m.journal s
  | .journal _ => Fails ∧ m.Lost

section Pump

variable {F : Fate → Prop} {Fails : Prop} {J : Journal → JStore → Prop}

/-- Appending the next frame keeps `J`, and moves the journal's cursor. -/
def Appends (F : Fate → Prop) (Fails : Prop) (J : Journal → JStore → Prop) : Prop :=
  ∀ {j : Journal} {s : JStore} {frame : Frame}, J j s → frame.seq = j.lastSeq + 1 →
    wp F (append frame) (fun _ j' s' => J j' s' ∧ j'.lastSeq = frame.seq) (fun _ _ _ => Fails) (fun _ => True) j s

/-- **One frame**: the other three cursors follow, or journaling failed. -/
theorem wp_onFrame (happend : Appends F Fails J) {frame : Frame} (hjournal : m.journal.lastSeq = m.follower.applied)
    (hreplica : m.follower.replica.seq = m.follower.applied) (hseq : frame.seq = m.follower.applied + 1)
    (hreceiver : m.follower.reassembler.nextExpected = m.follower.applied + 2)
    (hfiled : Filed m.follower.reassembler) (hJ : J m.journal s) :
    wp F (onFrame frame) (fun _ m' s' => m'.Placed ∧ J m'.journal s') (Failed Fails J) (fun _ => True) m s := by
  apply wp_bind
  apply wp_mem
  apply wp_bind
  apply wp_nextSeq ?_ (fun _ => trivial)
  intro _
  rw [if_pos hseq]
  apply wp_bind
  apply wp_zoom
  apply wp_mapErr
  refine wp_mono (happend hJ (hjournal ▸ hseq)) ?_ ?_ fun _ h => h
  · rintro _ j' s' ⟨hJ', hlast⟩
    apply wp_bind
    apply wp_update
    refine wp_pure ⟨?_, hJ'⟩
    have happly := Replica.apply_next (hreplica ▸ hseq : frame.seq = m.follower.replica.seq + 1)
    refine ⟨?_, ?_, ?_, ?_⟩
    · simpa [Follower.onFrame, hseq] using hlast
    · simp only [Follower.onFrame, if_pos hseq, happly, Option.map_some, Option.getD_some]
      exact Replica.step_seq _ _
    · simp only [Follower.onFrame, if_pos hseq]
      rw [hreceiver, hseq]
    · simpa [Follower.onFrame, hseq] using hfiled
  · exact fun _ _ _ hfails => ⟨hfails, hreceiver⟩

/-- **The loop of a pump** keeps the cursors together, unless journaling fails. -/
theorem wp_pump (happend : Appends F Fails J) (fuel : ℕ) (rounds : List Round) (h : m.Placed)
    (hJ : J m.journal s) :
    wp F (pump fuel rounds) (fun _ m' s' => m'.Placed ∧ J m'.journal s') (Failed Fails J) (fun _ => True) m s := by
  induction fuel generalizing m s rounds with
  | zero => exact wp_pure ⟨h, hJ⟩
  | succ fuel ih =>
    have hany : ∀ round ∈ rounds, ∀ p ∈ round.packets, (fun _ : Packet => True) p := fun _ _ _ _ => trivial
    have hpoll := (Follower.poll_induct (P := m.PlacedWith) (fun hr _ hrun => placedWith_ingest hr hrun) hany
      ⟨h.receiver, h.filed⟩).1
    apply wp_bind
    apply wp_mem
    simp only
    generalize Receiver.poll m.follower.reassembler rounds = polled at hpoll
    obtain ⟨result, r, rest⟩ := polled
    apply wp_bind
    apply wp_update
    match result with
    | .error e => exact wp_fail ⟨⟨h.journal, h.replica, hpoll.1, hpoll.2⟩, hJ⟩
    | .ok (some frame) =>
      obtain ⟨r₀, h₀, hnext⟩ := hpoll
      obtain ⟨hseq, hreceiver, hfiled⟩ := delivered h₀ hnext
      have hframe := wp_onFrame (m := { m with follower := { m.follower with reassembler := r } }) happend
        h.journal h.replica hseq hreceiver hfiled hJ
      refine wp_seq hframe ?_
      rintro applied m' s' ⟨h', hJ'⟩
      apply wp_seq (ih rest h' hJ')
      intro more m'' s'' h''
      exact wp_pure h''
    | .ok none =>
      have hplaced : Placed { m with follower := { m.follower with reassembler := r } } :=
        ⟨h.journal, h.replica, hpoll.1, hpoll.2⟩
      simp only
      split
      · exact wp_pure ⟨hplaced, hJ⟩
      · exact ih rest hplaced hJ

end Pump

/-! ## Runs -/

/-- The states of a follower between pumps, on its store. `G` is what the environment of every pump has to
meet. -/
inductive Pumping (config : svc.Config) (G : World JStore → Prop) : Replicating svc → JStore → Prop where
  | opened {w w' : World JStore} {recovered : Recovered} (acceptor : Acceptor) :
      Uncompacted w.st → w.Benign → openWith followerConfig () w = .ok recovered () w' →
      Pumping config G ⟨buildFollower config acceptor recovered, recovered.journal⟩ w'.st
  | pumped {m m' : Replicating svc} {w w' : World JStore} {applied : ℕ} (fuel : ℕ) (rounds : List Round) :
      Pumping config G m w.st → G w → pump fuel rounds m w = .ok applied m' w' → Pumping config G m' w'.st
  | failed {m m' : Replicating svc} {w w' : World JStore} {e : PumpError} (fuel : ℕ) (rounds : List Round) :
      Pumping config G m w.st → G w → pump fuel rounds m w = .err e m' w' → Pumping config G m' w'.st

section Runs

variable {config : svc.Config} {G : World JStore → Prop}

theorem rebuild_seq {r : Replica svc} {frames : List Frame} (h : SeqRun (r.seq + 1) frames) :
    (Follower.rebuild r frames).seq = r.seq + frames.length := by
  induction frames generalizing r with
  | nil => rfl
  | cons frame frames ih =>
    obtain ⟨hseq, hrun⟩ := h
    simp only [Follower.rebuild, List.foldl_cons, Replica.apply_next hseq, Option.map_some, Option.getD_some]
    have hstep : (Replica.step { r with seq := frame.seq } frame).2.seq = r.seq + 1 :=
      (Replica.step_seq _ _).trans hseq
    have hrest := ih (r := (Replica.step { r with seq := frame.seq } frame).2) (by rwa [hstep])
    rw [Follower.rebuild] at hrest
    rw [hrest, hstep, List.length_cons]
    omega

theorem placed_of_opened {recovered : Recovered} (acceptor : Acceptor) (hrun : SeqRun 1 recovered.frames)
    (hlast : recovered.journal.lastSeq = recovered.frames.length) :
    Placed ⟨buildFollower config acceptor recovered, recovered.journal⟩ := by
  refine ⟨rfl, ?_, ?_, ?_⟩
  · have hseq := rebuild_seq (r := Replica.new config) hrun
    simp only [buildFollower, hlast]
    rw [hseq]
    simp [Replica.new]
  · simp [buildFollower, Reassembler.new, Reassembler.nextExpected]
  · intro seq f hf
    simp [buildFollower, Reassembler.new] at hf

/-- Without faults, appending to the journal of a follower cannot fail. -/
theorem appends_roomy : Appends Fate.benign False Roomy := fun h hseq =>
  wp_append_roomy benign_no_fault h hseq

/-- Whatever the storage does, a frame that was appended is the last one. -/
theorem appends_any : Appends (fun _ => True) True fun _ _ => True := fun _ _ =>
  wp_mono (mwp_append_lastSeq _ _ _) (fun _ _ _ h => ⟨trivial, h⟩) (fun _ _ _ h => h) fun _ h => h

/-- **Run lemma.** -/
theorem Pumping.placed (h : Pumping config World.Benign m s) : m.Placed ∧ Roomy m.journal s := by
  induction h with
  | opened acceptor hdir hw hopen =>
    obtain ⟨hroomy, hrun, hlast⟩ := roomy_of_opened hdir hw hopen
    exact ⟨placed_of_opened acceptor hrun hlast, hroomy⟩
  | pumped fuel rounds _ hw hrun ih => exact wp_ok (wp_pump appends_roomy fuel rounds ih.1 ih.2) hw hrun
  | @failed m m' w w' e fuel rounds _ hw hrun ih =>
    have hfailed := wp_err (wp_pump appends_roomy fuel rounds ih.1 ih.2) hw hrun
    cases e with
    | transport e => exact hfailed
    | journal e => exact hfailed.1.elim

/-- **A follower keeps its place** in every run of pumps in which no call of the journal fails, whatever packets
arrive and whatever the receiver fails with; and a pump whose journal fails loses it. -/
theorem follower_keeps_place (h : Pumping config World.Benign m s) :
    m.Placed ∧ ∀ (w w' : World JStore) (fuel : ℕ) (rounds : List Round) (e : JournalError) (m' : Replicating svc),
      pump fuel rounds m w = .err (.journal e) m' w' → ¬m'.Placed := by
  obtain ⟨hplaced, -⟩ := h.placed
  refine ⟨hplaced, fun w w' fuel rounds e m' hrun hkept => ?_⟩
  have hlost : m'.Lost := (wp_err (wp_pump appends_any fuel rounds hplaced trivial) (fun _ _ => trivial) hrun).2
  have hreceiver := hkept.receiver
  rw [hlost] at hreceiver
  omega

end Runs

/-! ## Two runs -/

/-- A follower on an empty directory that receives the fence of epoch 1, its storage behaving as `fates` say. -/
def firstPump (fates : List Fate) : Outcome (Replicating doubler) JStore PumpError ℕ :=
  pump 2 [Deployment.datagram [Deployment.fenceFrame 1 1]]
    ⟨buildFollower () .new ⟨emptyJournal, [], 1, false⟩, emptyJournal⟩ ⟨emptyWorld.st, fates, fun _ => 0⟩

theorem pumping_empty (G : World JStore → Prop) : Pumping () G
    (⟨buildFollower () .new ⟨emptyJournal, [], 1, false⟩, emptyJournal⟩ : Replicating doubler) emptyWorld.st := by
  have hrecover : Journal.openWith followerConfig () emptyWorld = .ok ⟨emptyJournal, [], 1, false⟩ () emptyWorld :=
    rfl
  refine .opened .new (Or.inl ?_) (fun f hf => by cases hf) hrecover
  exact filesOf_eq .nil (by simp [emptyWorld, World.healthy])

theorem follower_keeps_place_of_fence : ∃ m : Replicating doubler, m.follower.applied = 1 ∧ m.Placed := by
  have hrun : (firstPump []).returned.any (fun p => decide (p.2.1.follower.applied = 1)) = true := by decide +kernel
  obtain ⟨⟨applied, m, w⟩, hrun, hone⟩ := (Option.any_eq_true _ _).mp hrun
  rw [Outcome.returned_eq_some] at hrun
  have hpump := Pumping.pumped (w := emptyWorld) 2 _ (pumping_empty World.Benign) (fun f hf => by cases hf) hrun
  exact ⟨m, of_decide_eq_true hone, (follower_keeps_place hpump).1⟩

/-- **A follower loses its place**: the segment of the first frame cannot be created, and the receiver goes on to
the second one. -/
theorem follower_loses_place : ∃ (m : Replicating doubler) (s : JStore), Pumping () (fun _ => True) m s ∧
    m.journal.lastSeq = 0 ∧ m.follower.applied = 0 ∧ m.follower.reassembler.nextExpected = 2 ∧ ¬m.Placed := by
  have hrun : (firstPump [.fault 0]).failed.any (fun p => decide (p.2.1.journal.lastSeq = 0 ∧
      p.2.1.follower.applied = 0 ∧ p.2.1.follower.reassembler.nextExpected = 2)) = true := by decide +kernel
  obtain ⟨⟨e, m, w⟩, hrun, hvals⟩ := (Option.any_eq_true _ _).mp hrun
  obtain ⟨hjournal, happlied, hnext⟩ := of_decide_eq_true hvals
  rw [Outcome.failed_eq_some] at hrun
  have hpump := Pumping.failed (w := ⟨emptyWorld.st, [.fault 0], fun _ => 0⟩) 2 _ (pumping_empty fun _ => True)
    trivial hrun
  refine ⟨m, w.st, hpump, hjournal, happlied, hnext, fun hplaced => ?_⟩
  have hreceiver := hplaced.receiver
  rw [hnext, happlied] at hreceiver
  cases hreceiver

end Replicating

end Ticktape.Server
