import Ticktape.Journal.Live
import Ticktape.Journal.Run

/-!
# Reading history from a live journal

The rewinder (`ticktape-transport/src/net.rs`) answers every question about history by opening the journal
anew, next to the writer that is appending to it. Opening repairs: if the newest segment ends in bytes that
are no whole frame, they are truncated, and they may be the first bytes of a frame that is being
written. `rewinder_harmless_iff` says when that happens.
-/

namespace Ticktape.Transport

open Ticktape.Lib Ticktape.Core Ticktape.Journal

/-! ## The rewinder -/

namespace JournalRewinder

variable {μ : Type}

/-- Open the journal; a failure is no answer. The handle is dropped again, clean as it is. -/
def recovered (config : JournalConfig) : Prog μ JStore JournalError (Option Recovered) := do
  match ← Prog.attempt (Journal.openWith config) with
  | .ok r => pure (some r)
  | .error _ => pure none

/-- At most `count` frames from seq `first` on. -/
def range (config : JournalConfig) (first count : ℕ) : Prog μ JStore JournalError (List Frame) := do
  match ← recovered config with
  | none => pure []
  | some r => pure ((r.frames.filter (·.seq ≥ first)).take count)

/-- The highest seq that can be served. -/
def highWater (config : JournalConfig) : Prog μ JStore JournalError ℕ := do
  let r ← recovered config
  pure ((r.map (·.journal.lastSeq)).getD 0)

/-- The lowest seq that can be served. -/
def lowWater (config : JournalConfig) : Prog μ JStore JournalError ℕ := do
  let r ← recovered config
  pure ((r.map (·.firstSeq)).getD 1)

end JournalRewinder

/-- What can be asked of the rewinder. -/
inductive Question where
  | range (first count : ℕ)
  | highWater
  | lowWater

/-- Ask, whatever the answer. -/
def Question.ask (config : JournalConfig) : Question → Prog Unit JStore JournalError Unit
  | range first count => do
    let _ ← JournalRewinder.range config first count
    pure ()
  | highWater => do
    let _ ← JournalRewinder.highWater config
    pure ()
  | lowWater => do
    let _ ← JournalRewinder.lowWater config
    pure ()

section Ask

variable {F : Fate → Prop} {P C : JStore → Prop} {s : JStore}

theorem wp_recovered {config : JournalConfig} {E : JournalError → Unit → JStore → Prop}
    (h : wp F (Journal.openWith config) (fun _ _ s' => P s') (fun _ _ s' => P s') C () s) :
    wp F (JournalRewinder.recovered config) (fun _ _ s' => P s') E C () s := by
  refine wp_bind (wp_attempt (wp_mono h ?_ ?_ (fun _ h => h)))
  · exact fun _ _ _ h => wp_pure h
  · exact fun _ _ _ h => wp_pure h

/-- A question does to the directory what opening the journal does. -/
theorem wp_ask {config : JournalConfig} {E : JournalError → Unit → JStore → Prop} (question : Question)
    (h : wp F (Journal.openWith config) (fun _ _ s' => P s') (fun _ _ s' => P s') C () s) :
    wp F (question.ask config) (fun _ _ s' => P s') E C () s := by
  cases question with
  | range first count =>
    refine wp_seq (wp_seq (wp_recovered h) fun r _ s' h' => ?_) fun _ _ _ h' => wp_pure h'
    cases r with
    | none => exact wp_pure h'
    | some r => exact wp_pure h'
  | highWater =>
    exact wp_seq (wp_seq (wp_recovered h) fun _ _ _ h' => wp_pure h') fun _ _ _ h' => wp_pure h'
  | lowWater =>
    exact wp_seq (wp_seq (wp_recovered h) fun _ _ _ h' => wp_pure h') fun _ _ _ h' => wp_pure h'

theorem ends_highWater (config : JournalConfig) : Ends (Question.highWater.ask config) := by
  refine ends_bind (ends_bind (ends_bind (ends_attempt (ends_openWith _)) fun r => ?_) fun _ =>
    ends_pure _) fun _ => ends_pure _
  cases r with
  | ok r => exact ends_pure _
  | error e => exact ends_pure _

end Ask

/-! ## What a writer exposes -/

/-- `s'` is a directory that others can find while `p` runs from `j` and `s`: at its end, before one of its
storage calls, or in the middle of a write. -/
def Exposes (p : JProg Unit) (j : Journal) (s s' : JStore) : Prop :=
  ∃ w w' : World JStore, w.st = s ∧ w'.st = s' ∧
    ((∃ j', p j w = .ok () j' w') ∨ (∃ e j', p j w = .err e j' w') ∨ p j w = .down w')

/-- What is in the files. -/
def contents (s : JStore) (k : FileName) : Option Bytes := (s.disk.get k).map FileData.combined

/-- No call of the rewinder changes the contents of a file of `s`. -/
def Harmless (s : JStore) : Prop :=
  ∀ config (question : Question), wp Fate.calm (question.ask config)
    (fun _ _ s' => contents s' = contents s) (fun _ _ s' => contents s' = contents s)
    (fun s' => contents s' = contents s) () s

/-- **The newest segment ends at a frame boundary**, or inside its header. -/
def AtBoundary (s : JStore) : Prop :=
  ∀ pre a f, segs s = pre ++ [(a, f)] → f.combined.length < SEGMENT_HEADER_LEN ∨
    ∃ header frames, header.length = SEGMENT_HEADER_LEN ∧ f.combined = header ++ encodeAll frames

/-- **The directory of a journal that is being appended to.** -/
inductive Exposed (s : JStore) : Prop where
  | empty : segs s = [] → Exposed s
  /-- Frames, and behind them perhaps a part of the next one. -/
  | frames {t : List Frame} {pre : List (ℕ × FileData)} {a : ℕ} {f : FileData} {q : Bytes} :
      SeqRun 1 t → ReadsAs s t pre a f q →
      (q = [] ∨ t.length + 1 < 2 ^ 64 ∧ ∃ e, Frame.readFrom q = .error e) → Exposed s
  /-- A new segment with a part of its header. -/
  | header {t : List Frame} {pre : List (ℕ × FileData)} {a : ℕ} {f : FileData} :
      SeqRun 1 t → segs s = pre ++ [(a, f)] → Sealed t pre (t.length + 1) → t.length + 1 < 2 ^ 64 →
      f.combined.length < SEGMENT_HEADER_LEN → Exposed s

/-! ## When reading does harm -/

section Reading

variable {s : JStore}

/-- Behind encoded frames there is nothing that is no frame. -/
theorem eq_nil_of_encodeAll {fs gs : List Frame} {q : Bytes}
    (hq : q = [] ∨ ∃ e, Frame.readFrom q = .error e) (h : encodeAll fs ++ q = encodeAll gs) : q = [] := by
  induction fs generalizing gs with
  | nil =>
    rw [encodeAll_nil, List.nil_append] at h
    cases gs with
    | nil => exact h
    | cons g gs =>
      refine hq.resolve_right ?_
      rintro ⟨e, he⟩
      rw [h, encodeAll_cons, Frame.readFrom_toBytes] at he
      cases he
  | cons f fs ih =>
    rw [encodeAll_cons, List.append_assoc] at h
    cases gs with
    | nil => exact absurd (List.append_eq_nil_iff.mp h).1 f.toBytes_ne_nil
    | cons g gs =>
      have hread := congrArg Frame.readFrom h
      rw [encodeAll_cons, Frame.readFrom_toBytes, Frame.readFrom_toBytes] at hread
      exact ih (Prod.mk.inj (Except.ok.inj hread)).2

theorem contents_of_disk {s' : JStore} (h : s'.disk = s.disk) : contents s' = contents s := by
  unfold contents
  rw [h]

/-- A boundary is where nothing but frames stands behind the header. -/
theorem atBoundary_iff {t : List Frame} {pre : List (ℕ × FileData)} {a : ℕ} {f : FileData} {q : Bytes}
    (h : ReadsAs s t pre a f q) (hq : q = [] ∨ ∃ e, Frame.readFrom q = .error e) :
    AtBoundary s ↔ q = [] := by
  obtain ⟨epoch, hbytes⟩ := h.bytes
  have hheader := segmentHeaderBytes_length a epoch
  constructor
  · intro hboundary
    rcases hboundary pre a f h.listing with hshort | ⟨header, frames, hlen, heq⟩
    · rw [hbytes, List.length_append, hheader] at hshort
      omega
    · rw [hbytes] at heq
      exact eq_nil_of_encodeAll hq (List.append_inj heq (hheader.trans hlen.symm)).2
  · rintro rfl pre' a' f' hsegs
    obtain ⟨-, hlast⟩ := List.append_inj' (h.listing.symm.trans hsegs) rfl
    obtain ⟨rfl, rfl⟩ := Prod.mk.inj (List.cons.inj hlast).1
    rw [List.append_nil] at hbytes
    exact Or.inr ⟨_, _, hheader, hbytes⟩

/-- Nothing changes when opening the journal changes nothing. -/
theorem harmless_of_openWith (h : ∀ config, wp Fate.calm (Journal.openWith config)
    (fun _ _ s' => contents s' = contents s) (fun _ _ s' => contents s' = contents s)
    (fun s' => contents s' = contents s) () s) : Harmless s :=
  fun config question => wp_ask question (h config)

/-- A tail that is no whole frame is cut off. -/
theorem not_harmless {t : List Frame} {pre : List (ℕ × FileData)} {a : ℕ} {f : FileData} {q : Bytes}
    (h : ReadsAs s t pre a f q) (hrun : SeqRun 1 t) (hlen : t.length + 1 < 2 ^ 64) (hne : q ≠ [])
    (hq : ∃ e, Frame.readFrom q = .error e) : ¬Harmless s := by
  intro hharmless
  have hget : s.disk.get (segName a) = some f :=
    mem_filesOf.mp (by rw [show filesOf .seg s.disk = _ from h.listing]; simp)
  have hcut : ∀ config, wp Fate.calm (Journal.openWith config) (fun _ _ s' => contents s' ≠ contents s)
      (fun _ _ s' => contents s' ≠ contents s) (fun _ => False) () s := by
    intro config
    refine wp_mono (wp_openWith_reads (E := fun _ _ _ => False) (C := fun _ => False) calm_no_fault h
      (fun hc => calm_no_cut hc) (fun hc => absurd hc calm_no_cut) hrun (fun hover => ?_) (Or.inr hq)
      config) ?_ (fun _ _ _ h => h.elim) (fun _ h => h)
    · omega
    · rintro r - s' ⟨-, hopened⟩ hsame
      -- the file is shorter than before
      have hfile := congrFun hsame (segName a)
      simp only [contents, hopened.truncated hne, Disk.get_put_self, hget, Option.map_some,
        Option.some.injEq] at hfile
      have hlength := congrArg List.length hfile
      obtain ⟨epoch, hbytes⟩ := h.bytes
      have hpos := List.length_pos_of_ne_nil hne
      simp only [FileData.truncate, FileData.combined, List.append_nil, List.length_take] at hlength
      rw [show f.synced ++ f.unsynced = f.combined from rfl, hbytes] at hlength
      simp only [List.length_append] at hlength
      omega
  let config : JournalConfig := ⟨0, .never⟩
  have hboth := wp_and (hharmless config .highWater) (wp_ask (E := fun _ _ _ => False) .highWater (hcut config))
  obtain ⟨_, _, w', -, -, hsame, hdiff⟩ := wp_total (w := World.healthy s)
    (wp_mono hboth (fun _ _ _ h => h) (fun _ _ _ h => h.2) (fun _ h => h.2)) (fun f hf => by cases hf)
    (ends_highWater config)
  exact hdiff hsame

/-- **When reading does harm**: exactly where the newest segment ends inside a frame. -/
theorem Exposed.harmless_iff (h : Exposed s) : Harmless s ↔ AtBoundary s := by
  cases h with
  | empty hnil =>
    have hsame : Harmless s := harmless_of_openWith fun config =>
      wp_mono (wp_openWith_empty (E := fun _ _ _ => False) (C := fun _ => False) calm_no_fault
        (fun hc => calm_no_cut hc) hnil config) (fun _ _ _ h => contents_of_disk (by rw [h.2.2]))
        (fun _ _ _ h => h.elim) (fun _ h => h.elim)
    refine iff_of_true hsame fun pre a f hsegs => ?_
    rw [hnil] at hsegs
    simp at hsegs
  | @header t pre a f hrun hsegs hsealed hlen hshort =>
    have hbad : ∃ e, parseSegmentHeader (segName a) f.combined = .error e := ⟨_, if_pos hshort⟩
    have hsame : Harmless s := harmless_of_openWith fun config =>
      wp_mono (wp_openWith_headless (C := fun _ => False) calm_no_fault (fun hc => calm_no_cut hc) hrun
        hsegs hsealed (Nat.le_refl _) hlen hbad config) (fun _ _ _ h => h.elim) (fun _ _ _ h => by rw [h.2]) (fun _ h => h.elim)
    refine iff_of_true hsame fun pre' a' f' hsegs' => ?_
    obtain ⟨-, hlast⟩ := List.append_inj' (hsegs.symm.trans hsegs') rfl
    obtain ⟨rfl, rfl⟩ := Prod.mk.inj (List.cons.inj hlast).1
    exact Or.inl hshort
  | @frames t pre a f q hrun hreads hq =>
    have hq' : q = [] ∨ ∃ e, Frame.readFrom q = .error e := hq.imp_right And.right
    rw [atBoundary_iff hreads hq']
    constructor
    · intro hharmless
      by_contra hne
      obtain ⟨hlen, herr⟩ := hq.resolve_left hne
      exact not_harmless hreads hrun hlen hne herr hharmless
    · intro hnil
      refine harmless_of_openWith fun config => ?_
      exact wp_mono (wp_openWith_reads (E := fun _ _ _ => False)
        (C := fun s' => contents s' = contents s) calm_no_fault hreads (fun _ => rfl)
        (fun hc => absurd hc calm_no_cut) hrun (fun _ => rfl) hq' config) (fun _ _ _ h => contents_of_disk (h.2.same hnil))
        (fun _ _ _ h => h.elim) (fun _ h => h)

end Reading

/-! ## Every directory a writer exposes -/

section Writing

variable {t frames : List Frame} {j : Journal} {s : JStore}

theorem exposed_of_inv (h : JInv t j s) (hrun : SeqRun 1 t) : Exposed s := by
  cases hcur : j.current with
  | none =>
    have hholds := h.holds
    unfold Holds at hholds
    rw [hcur] at hholds
    exact .empty hholds.1
  | some c =>
    obtain ⟨pre, f, hreads, -⟩ := h.readsAs hcur
    exact .frames hrun hreads (Or.inl rfl)

/-- Of the frames being written the first ones are there, and perhaps a part of the next. -/
theorem exposed_of_written {pre : List (ℕ × FileData)} {a n : ℕ} {f : FileData} {s' : JStore}
    (h : ReadsAs s t pre a f []) (hrun : SeqRun 1 t) (hmore : SeqRun (t.length + 1) frames)
    (hsegs : segs s' = pre ++ [(a, f.write ((encodeAll frames).take n))]) : Exposed s' := by
  obtain ⟨i, q, hi, hbytes, hq⟩ := encodeAll_torn frames (Torn.take (encodeAll frames) n)
  have hle := h.le
  have hall : SeqRun 1 (t ++ frames.take i) :=
    SeqRun.append.mpr ⟨hrun, by rw [Nat.add_comm]; exact hmore.take i⟩
  have hreads : ReadsAs s' (t ++ frames.take i) pre a (f.write ((encodeAll frames).take n)) q := by
    obtain ⟨epoch, hfile⟩ := h.bytes
    refine ⟨hsegs, h.sealed.congr ?_, h.pos, ?_, h.lt, epoch, ?_⟩
    · rw [List.take_append_of_le_length (by omega)]
    · rw [List.length_append]
      omega
    · have hspan : ∀ l : List Frame, span l a (l.length + 1) = l.drop (a - 1) := by
        intro l
        rw [span, Nat.add_sub_cancel, List.take_length]
      rw [hspan, List.append_nil] at hfile
      rw [hspan, List.drop_append_of_le_length (by omega), encodeAll_append]
      show f.synced ++ (f.unsynced ++ _) = _
      rw [← List.append_assoc, show f.synced ++ f.unsynced = f.combined from rfl, hfile, hbytes]
      simp only [List.append_assoc]
  apply Exposed.frames hall hreads
  refine (Classical.em (q = [])).imp_right fun hne => ⟨?_, hq.resolve_left hne⟩
  -- a part of a frame is a part of one that is being written
  have hlt : i < frames.length := by
    refine Nat.lt_of_le_of_ne hi fun heq => hne ?_
    rw [heq, List.take_length] at hbytes
    have hlength := congrArg List.length hbytes
    rw [List.length_take, List.length_append] at hlength
    exact List.eq_nil_of_length_eq_zero (by omega)
  have hbound := hmore.bound (List.ne_nil_of_length_pos (by omega))
  rw [List.length_append, List.length_take]
  omega

/-- **Starting a segment**, whatever happens: others find the old segments, and perhaps a part of the new
header. -/
theorem wp_startSegment_exposed (hrun : SeqRun 1 t) (hsealed : Sealed t (segs s) (t.length + 1))
    (hnames : ∀ p ∈ segs s, p.1 ≤ t.length + 1) (hlen : t.length + 1 < 2 ^ 64) (hs : Exposed s) :
    wp (fun _ => True) (startSegment (t.length + 1) .header .none)
      (fun _ j' s' => j' = { j with current := some ⟨t.length + 1, SEGMENT_HEADER_LEN, 0⟩ } ∧
        (∃ epoch, segs s' = segs s ++ [(t.length + 1, ⟨segmentHeaderBytes (t.length + 1) epoch, []⟩)]) ∧
        s'.ghost.tape = s.ghost.tape ∧ s'.ghost.durable = s.ghost.durable ∧
        s'.ghost.cutoff = s.ghost.cutoff)
      (fun _ _ s' => Exposed s') Exposed j s := by
  have hnew : ∀ {s' : JStore} {f : FileData}, segs s' = segs s ++ [(t.length + 1, f)] →
      (f.combined.length < SEGMENT_HEADER_LEN ∨
        ∃ epoch, f.combined = segmentHeaderBytes (t.length + 1) epoch) → Exposed s' := by
    rintro s' f hsegs (hshort | ⟨epoch, hwhole⟩)
    · exact .header hrun hsegs hsealed hlen hshort
    · refine .frames hrun ⟨hsegs, hsealed, by omega, Nat.le_refl _, hlen, epoch, ?_⟩ (Or.inl rfl)
      rw [hwhole, span_self, encodeAll_nil, List.append_nil, List.append_nil]
  refine wp_startSegment_rule hnames (fun _ => hs) (fun _ _ => hs) (fun _ _ => hs) ?_ ?_
  · intro n s' hsegs _
    have hfound : Exposed s' := by
      refine hnew hsegs ?_
      show ([] ++ (segmentHeaderBytes (t.length + 1) j.epoch).take n).length < _ ∨ ∃ epoch, [] ++ _ = _
      rw [List.nil_append, List.length_take, segmentHeaderBytes_length]
      by_cases hn : n < SEGMENT_HEADER_LEN
      · exact Or.inl (by omega)
      · exact Or.inr ⟨j.epoch, List.take_of_length_le (by rw [segmentHeaderBytes_length]; omega)⟩
    exact ⟨fun _ => hfound, fun _ _ => hfound⟩
  · intro s' hsegs hghost
    have hfound : Exposed s' := hnew hsegs (Or.inr ⟨j.epoch, List.append_nil _⟩)
    refine ⟨fun _ => hfound, fun _ _ => hfound, rfl, ⟨j.epoch, hsegs⟩, ?_⟩
    rw [hghost]
    exact ⟨rfl, rfl, rfl⟩

/-- **Appending**, whatever happens. -/
theorem wp_writeFrames_exposed (h : JInv s.ghost.tape j s) {lastSeq len : ℕ}
    (hlen : s.ghost.tape.length + 1 < 2 ^ 64) (hmore : SeqRun (s.ghost.tape.length + 1) frames)
    (hlast : lastSeq = s.ghost.tape.length + frames.length) :
    wp (fun _ => True) (writeFrames frames (s.ghost.tape.length + 1) lastSeq len)
      (fun _ _ s' => Exposed s') (fun _ _ s' => Exposed s') Exposed j s := by
  refine wp_bind (wp_mem (wp_seq (Q := fun _ j₁ s₁ => JInv s.ghost.tape j₁ s₁ ∧
    s₁.ghost.tape = s.ghost.tape ∧ j₁.current ≠ none) (wp_when (fun _ => ?_) (fun hroll => ?_)) ?_))
  · -- roll: sync, then start the next segment
    have hs : Exposed s := exposed_of_inv h h.run
    refine wp_seq (wp_sync (fun _ => hs) (fun _ _ _ => hs) h) ?_
    rintro - j₁ s₁ ⟨h₁, hclean, hghost, -⟩
    obtain ⟨hsealed, -, -, hnames⟩ := h₁.sealedAll hclean
    refine wp_mono (wp_startSegment_exposed h.run hsealed hnames hlen (exposed_of_inv h₁ h.run)) ?_
      (fun _ _ _ h => h) (fun _ h => h)
    rintro - j₂ s₂ ⟨rfl, ⟨epoch, hsegs⟩, htape, hdurable, hcutoff⟩
    refine ⟨h₁.rolled hclean hlen hsegs htape hdurable hcutoff, ?_, by simp⟩
    rw [htape, hghost]
  · refine ⟨h, rfl, fun hnone => ?_⟩
    simp [needsRoll, hnone] at hroll
  · rintro - j₁ s₁ ⟨h₁, htape, hopen⟩
    refine wp_bind (wp_mem ?_)
    cases hcur : j₁.current with
    | none => exact absurd hcur hopen
    | some c =>
      obtain ⟨pre, f, hreads, -⟩ := h₁.readsAs hcur
      have hget : s₁.disk.get (segName c.file) = some f :=
        mem_filesOf.mp (by rw [show filesOf .seg s₁.disk = _ from hreads.listing]; simp)
      refine wp_bind (wp_io (wp_writeAll ?_ ?_ ?_ ?_))
      · exact fun _ => exposed_of_inv h₁ h.run
      · intro n f' _ hf'
        obtain rfl : f = f' := Option.some.inj (hget.symm.trans hf')
        exact exposed_of_written hreads h.run hmore (filesOf_put hreads.listing _)
      · intro e hnone
        rw [hget] at hnone
        cases hnone
      · intro f' hf'
        obtain rfl : f = f' := Option.some.inj (hget.symm.trans hf')
        refine wp_bind (wp_record (wp_bind (wp_update ?_)))
        rw [← htape] at h₁ hmore hlast
        have hinv := h₁.written hcur { c with
          size := c.size + (encodeAll frames).length, frames := c.frames + frames.length }
          rfl hget hmore hlast
        have hs : Exposed _ := exposed_of_inv hinv hinv.run
        refine wp_mono (wp_maybeSync (fun _ => hs) (fun _ _ _ => hs) hinv) ?_ (fun _ _ _ h => h)
          (fun _ h => h)
        rintro - j₂ s₂ ⟨h₂, -⟩
        exact exposed_of_inv h₂ hinv.run

/-- An append by a live writer. -/
inductive Appending where
  | one (frame : Frame)
  | batch (frames : List Frame)

def Appending.run : Appending → JProg Unit
  | one frame => Journal.append frame
  | batch frames => Journal.appendBatch frames

theorem wp_appending_exposed (h : JInv s.ghost.tape j s) (appending : Appending) :
    wp (fun _ => True) appending.run (fun _ _ s' => Exposed s') (fun _ _ s' => Exposed s') Exposed j s := by
  have hs : Exposed s := exposed_of_inv h h.run
  cases appending with
  | one frame =>
    refine wp_bind (wp_mem (wp_bind (wp_nextSeq (fun hlt => ?_) (fun _ => hs))))
    rw [h.last] at hlt ⊢
    by_cases hseq : frame.seq = s.ghost.tape.length + 1
    · rw [if_neg (not_not_intro hseq), hseq]
      exact wp_writeFrames_exposed h hlt ⟨hseq, trivial⟩ rfl
    · rw [if_pos hseq]
      exact wp_fail hs
  | batch frames =>
    cases frames with
    | nil => exact wp_pure hs
    | cons frame rest =>
      refine wp_bind (wp_mem (wp_bind (wp_nextSeq (fun hlt => ?_) (fun _ => hs))))
      rw [h.last] at hlt ⊢
      refine wp_bind (wp_checkBatch (fun hmore => ?_) (fun _ _ _ => hs) (fun _ => hs))
      have hlast := hmore.getLast_seq (List.cons_ne_nil frame rest)
      rw [show frame.seq = s.ghost.tape.length + 1 from hmore.1]
      exact wp_writeFrames_exposed h hlt hmore (by omega)

/-- **Run lemma**: whatever a writer has been through, what it exposes while it appends has one of
the three forms. -/
theorem exposed_of_run {s' : JStore} {appending : Appending} (hrun : Run (some j) s)
    (hexposes : Exposes appending.run j s s') : Exposed s' := by
  obtain ⟨w, w', rfl, rfl, hend⟩ := hexposes
  have hspec := wp_appending_exposed (run_inv hrun) appending
  rcases hend with ⟨j', hok⟩ | ⟨e, j', herr⟩ | hdown
  · have hend := wp_ok hspec (fun _ _ => trivial) hok
    exact hend
  · have hend := wp_err hspec (fun _ _ => trivial) herr
    exact hend
  · exact wp_down hspec (fun _ _ => trivial) hdown

end Writing

/-- **Reading history from a live journal.** In whatever state a writer is met, before, inside or after an
append, the calls of the rewinder leave the contents of every file as they are if and only if
the newest segment ends at a frame boundary, or inside its header. -/
theorem rewinder_harmless_iff {j : Journal} {s s' : JStore} {appending : Appending}
    (hrun : Run (some j) s) (hexposes : Exposes appending.run j s s') : Harmless s' ↔ AtBoundary s' :=
  (exposed_of_run hrun hexposes).harmless_iff

/-- A writer that has just started meets a reader after three bytes of its first frame. -/
def interrupted : Option (Journal × World JStore × World JStore) := do
  let opening : Prog Unit JStore JournalError Recovered := Journal.openWith ⟨1024, .everyFrame⟩
  let (r, _, w) ← (opening () (.healthy ⟨Disk.empty, History.fresh⟩)).returned
  let w₁ : World JStore := ⟨resume w.st r.journal.lastSeq, [.ok, .ok, .ok, .ok, .fault 3], fun _ => 0⟩
  let (_, _, w₂) ← ((Appending.one ⟨1, 0, 1, .tick, [], one_lt_seqs, nil_payload_le⟩).run r.journal w₁).failed
  pure (r.journal, w₁, w₂)

theorem interrupted_exposes : ∃ (j : Journal) (s s' : JStore) (appending : Appending),
    Run (some j) s ∧ Exposes appending.run j s s' ∧ ¬AtBoundary s' := by
  have hrun : interrupted.map (fun p => (segs p.2.2.st).map fun q => (q.1, q.2.combined.length)) =
      some [(1, 31)] := by decide +kernel
  obtain ⟨⟨j, w₁, w₂⟩, hrun, hsegs⟩ := Option.map_eq_some_iff.mp hrun
  simp only [interrupted, bind, Option.bind_eq_some_iff] at hrun
  obtain ⟨⟨r, _, w⟩, hopen, ⟨e, j', w'⟩, happend, heq⟩ := hrun
  cases heq
  rw [Outcome.returned_eq_some] at hopen
  rw [Outcome.failed_eq_some] at happend
  refine ⟨_, _, _, _, .opened _ .start (fun f hf => by cases hf) hopen,
    ⟨_, w', rfl, rfl, Or.inr (Or.inl ⟨e, j', happend⟩)⟩, fun hboundary => ?_⟩
  obtain ⟨⟨a, f⟩, hlist, hpair⟩ := List.map_eq_singleton_iff.mp hsegs
  have hlength : f.combined.length = 31 := (Prod.mk.inj hpair).2
  rcases hboundary [] a f hlist with hshort | ⟨header, frames, hheader, hbytes⟩
  · simp only [SEGMENT_HEADER_LEN] at hshort
    omega
  · -- no frames take three bytes
    have hthree := congrArg List.length hbytes
    rw [List.length_append, hheader, hlength] at hthree
    cases frames with
    | nil => simp [SEGMENT_HEADER_LEN] at hthree
    | cons frame frames =>
      simp only [SEGMENT_HEADER_LEN, encodeAll_cons, List.length_append, Frame.toBytes_length,
        Frame.encodedLen, FRAME_HEADER_LEN] at hthree
      omega

theorem rewinder_harmless_iff_of_interrupted : ∃ s' : JStore, ¬AtBoundary s' ∧
    (Harmless s' ↔ AtBoundary s') := by
  obtain ⟨j, s, s', appending, hrun, hexposes, hboundary⟩ := interrupted_exposes
  exact ⟨s', hboundary, rewinder_harmless_iff hrun hexposes⟩

/-- **A reader that cuts off a frame**: asking for the high-water while the first frame is being written
truncates what is there of it. -/
theorem rewinder_truncates : ∃ (j : Journal) (s s' : JStore) (appending : Appending),
    Run (some j) s ∧ Exposes appending.run j s s' ∧ ¬Harmless s' := by
  obtain ⟨j, s, s', appending, hrun, hexposes, hboundary⟩ := interrupted_exposes
  exact ⟨j, s, s', appending, hrun, hexposes, fun hharmless =>
    hboundary ((exposed_of_run hrun hexposes).harmless_iff.mp hharmless)⟩

end Ticktape.Transport
