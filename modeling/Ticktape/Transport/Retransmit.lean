import Ticktape.Transport.GapFill
import Ticktape.Transport.Feed
import Ticktape.Transport.Rewinder
import Ticktape.Journal.Kill

/-!
# Filling a gap from a store

A follower asks the retransmitter for what it misses and counts the frames it is sent (`Receiver::fill_gap` and
`Retransmitter::serve_one` in `ticktape-transport/src/net.rs`). The rewinder answers with the first frames it has
from a seq on, and these need not start at that seq: frames behind the gap are then counted as if they filled it.
`fill_gap_iff` says when that happens.
-/

namespace Ticktape.Transport

open Std Ticktape.Lib Ticktape.Core Ticktape.Journal

variable {α μ : Type}

/-! ## Stores of frames -/

/-- At most `count` frames from seq `first` on; none if `first` has aged out of the window. -/
def MemStore.range (store : MemStore) (first count : ℕ) : List Frame :=
  match store.frames.head? with
  | none => []
  | some front => if first < front.seq then [] else (store.frames.drop (first - front.seq)).take count

/-- What a retransmitter is built on. -/
inductive FrameStore where
  /-- The repeater. -/
  | mem (store : MemStore)
  | rewinder (config : JournalConfig)
  /-- The first one if it covers the start of a range, the second one if not. -/
  | chain (primary secondary : FrameStore)

def FrameStore.range : FrameStore → ℕ → ℕ → Prog μ JStore JournalError (List Frame)
  | mem store, first, count => pure (store.range first count)
  | rewinder config, first, count => JournalRewinder.range config first count
  | chain primary secondary, first, count => do
    let frames ← primary.range first count
    if frames.head?.map (·.seq) = some first then pure frames else secondary.range first count

/-! ## The retransmitter -/

/-- A list in pieces of `n`; `fuel` bounds their number. -/
def chunksOf (n : ℕ) : ℕ → List α → List (List α)
  | 0, _ => []
  | _ + 1, [] => []
  | fuel + 1, a :: rest => (a :: rest).take n :: chunksOf n fuel ((a :: rest).drop n)

structure Retransmitter where
  session : UInt64
  store : FrameStore

/-- The packets a request is answered with. One for another session is not answered. -/
def Retransmitter.serveOne (t : Retransmitter) (session : UInt64) (first count : ℕ) :
    Prog μ JStore JournalError (List Packet) :=
  if session ≠ t.session then pure []
  else do
    let frames ← t.store.range first count
    pure ((chunksOf 8 frames.length frames).map (.data t.session))

/-! ## The receiver -/

structure Receiver where
  reassembler : Reassembler
  /-- Who answers at the configured address. -/
  retransmitter : Option Retransmitter
  /-- The seqs that the pending cap has dropped since the fill began. -/
  evicted : List ℕ

/-- Steps of the receiver, on the machine of the retransmitter's journal. -/
abbrev RProg (α : Type) := Prog Receiver JStore TransportError α

/-- The seqs that a packet pushes out of the buffer, or that it brings in vain. -/
def Reassembler.evicts (r : Reassembler) (packet : Packet) : List ℕ :=
  let full := packet.frames.foldl Reassembler.accept r
  full.pending.keys.filter fun seq => seq ∉ full.bound.pending

namespace Receiver

def ingest (packet : Packet) : RProg Unit := do
  let c ← Prog.mem
  let r ← Prog.ofExcept (c.reassembler.ingest packet)
  Prog.update fun c => { c with reassembler := r, evicted := c.evicted ++ c.reassembler.evicts packet }

/-- Take in a reply. Returns the number of frames in it. -/
def ingestAll : List Packet → ℕ → RProg ℕ
  | [], served => pure served
  | packet :: rest, served => do
    ingest packet
    ingestAll rest (served + packet.frames.length)

/-- Ask for what is still wanted until nothing is. -/
def fillFrom (t : Retransmitter) (session : UInt64) : ℕ → ℕ → ℕ → RProg Unit
  | 0, _, _ => Prog.spin
  | fuel + 1, wanted, remaining =>
    if remaining = 0 then pure ()
    else do
      let chunk := min remaining (2 ^ 32 - 1)
      let reply ← Prog.mapErr (fun _ => .io) (t.serveOne session wanted chunk)
      if reply.isEmpty then Prog.fail (.gapUnrecoverable wanted remaining)
      else do
        let served ← ingestAll reply 0
        if served = 0 then Prog.fail (.gapUnrecoverable wanted remaining)
        else fillFrom t session fuel (wanted + served) (remaining - served)

def fillGap (fuel first count : ℕ) : RProg Unit := do
  Prog.update fun c => { c with evicted := [] }
  let c ← Prog.mem
  match c.retransmitter with
  | none => Prog.fail (.gapUnrecoverable first count)
  | some t => fillFrom t (c.reassembler.session.getD 0) fuel first count

end Receiver

/-! ## What a fill promises -/

/-- Every seq of the range was delivered, is pending, or was dropped by the pending cap. -/
def Filled (first count : ℕ) (c : Receiver) : Prop :=
  ∀ seq, first ≤ seq → seq < first + count →
    seq < c.reassembler.next ∨ seq ∈ c.reassembler.pending ∨ seq ∈ c.evicted

/-- **An honest fill**: it ends, with the gap filled or reported as unrecoverable. The process of the
retransmitter may go down. -/
def Honest (first count : ℕ) (c : Receiver) (s : JStore) : Prop :=
  ∃ fuel, Ends (Receiver.fillGap fuel first count) ∧
    wp Fate.calm (Receiver.fillGap fuel first count) (fun _ c' _ => Filled first count c')
      (fun e _ _ => ∃ first' count', e = .gapUnrecoverable first' count') (fun _ => True) c s

/-! ## What a store answers -/

/-- One of the frames has this seq. -/
def Has (frames : List Frame) (seq : ℕ) : Prop := ∃ f ∈ frames, f.seq = seq

theorem has_iff {frames : List Frame} {first seq : ℕ} (h : SeqRun first frames) :
    Has frames seq ↔ first ≤ seq ∧ seq < first + frames.length := by
  constructor
  · rintro ⟨f, hf, rfl⟩
    exact h.bounds hf
  · rintro ⟨hge, hlt⟩
    have hi : seq - first < frames.length := by omega
    have hseq := h.getElem hi
    exact ⟨frames.get ⟨seq - first, hi⟩, List.get_mem _ _, by omega⟩

/-- What is served of a window of frames that starts at `base` and an archive that starts at `floor`. -/
def answer (base : ℕ) (window : List Frame) (floor : ℕ) (held : List Frame) (first count : ℕ) : List Frame :=
  if base ≤ first ∧ first < base + window.length then (window.drop (first - base)).take count
  else (held.drop (first - floor)).take count

section Answers

variable {base floor first count : ℕ} {window held : List Frame}

theorem mem_answer {f : Frame} (h : f ∈ answer base window floor held first count) : f ∈ window ∨ f ∈ held := by
  unfold answer at h
  split at h
  · exact Or.inl (List.mem_of_mem_drop (List.mem_of_mem_take h))
  · exact Or.inr (List.mem_of_mem_drop (List.mem_of_mem_take h))

theorem answer_length_le : (answer base window floor held first count).length ≤ count := by
  unfold answer
  split
  · exact List.length_take_le ..
  · exact List.length_take_le ..

/-- Something is served, if there is anything from that seq on. -/
theorem answer_ne_nil (hcount : 0 < count)
    (h : (base ≤ first ∧ first < base + window.length) ∨ 0 < held.length ∧ first < floor + held.length) :
    answer base window floor held first count ≠ [] := by
  rw [← List.length_pos_iff]
  unfold answer
  split
  · rw [List.length_take, List.length_drop]
    omega
  · rw [List.length_take, List.length_drop]
    omega

/-- **What is served starts where it should**, unless the archive starts later. -/
theorem answer_run (hwindow : SeqRun base window) (hheld : SeqRun floor held)
    (h : (base ≤ first ∧ first < base + window.length) ∨ held = [] ∨ floor ≤ first) :
    SeqRun first (answer base window floor held first count) := by
  unfold answer
  split
  · next hin => exact hwindow.tail_run hin.1 count
  · next hout =>
    rcases h.resolve_left hout with rfl | hge
    · rw [List.drop_nil, List.take_nil]
      trivial
    · exact hheld.tail_run hge count

/-- A seq that is missing is not passed over. -/
theorem answer_stops {seq : ℕ} (hwindow : ¬(base ≤ seq ∧ seq < base + window.length))
    (hheld : floor + held.length ≤ seq) (hle : first ≤ seq) :
    first + (answer base window floor held first count).length ≤ seq := by
  unfold answer
  split
  · rw [List.length_take, List.length_drop]
    omega
  · rw [List.length_take, List.length_drop]
    omega

end Answers

/-! ## Stores at rest -/

/-- What is read from a directory whenever it is read: the frames of its segments, or nothing. -/
inductive Archive (s : JStore) : List Frame → Prop where
  /-- There are no segments yet. -/
  | empty : segs s = [] → Archive s []
  /-- Opening it is refused. -/
  | refused : (∀ config (c : Receiver), wp Fate.calm (Journal.openWith config) (fun _ _ _ => False)
      (fun _ c' s' => c' = c ∧ s' = s) (fun _ => True) c s) → Archive s []
  | frames {t : List Frame} {pre : List (ℕ × FileData)} {a : ℕ} {f : FileData} {q : Bytes} :
      SeqRun 1 t → ReadsAs s t pre a f q → t.length + 1 < 2 ^ 64 → (q = [] ∨ ∃ e, Frame.readFrom q = .error e) →
      Archive s (t.drop (startOf pre a - 1))

/-- The store was fed a consecutive stream. -/
def MemStore.Fed (store : MemStore) : Prop :=
  ∃ capacity stream, (MemStore.withCapacity capacity).recordAll stream = some store

/-- What a store has in its window, and what is in the archive behind it. -/
inductive Serves (s : JStore) : FrameStore → List Frame → List Frame → Prop where
  | mem {store : MemStore} : store.Fed → Serves s (.mem store) store.frames []
  | rewinder {held : List Frame} (config : JournalConfig) : Archive s held → Serves s (.rewinder config) [] held
  | chain {store : MemStore} {held : List Frame} (config : JournalConfig) : store.Fed → Archive s held →
      Serves s (.chain (.mem store) (.rewinder config)) store.frames held

section Stores

variable {s : JStore} {window held : List Frame} {store : FrameStore} {base floor first count : ℕ} {c : Receiver}

theorem MemStore.record_run {store store' : MemStore} {frame : Frame} (h : ∃ base, SeqRun base store.frames)
    (hrecord : store.record frame = some store') : ∃ base, SeqRun base store'.frames := by
  obtain ⟨base, hrun⟩ := h
  unfold MemStore.record at hrecord
  obtain ⟨hlast, heq⟩ := Option.ite_none_right_eq_some.mp hrecord
  obtain rfl := Option.some.inj heq
  have hall : ∃ base, SeqRun base (store.frames ++ [frame]) := by
    rcases List.eq_nil_or_concat store.frames with hnil | ⟨rest, last, hrest⟩
    · rw [hnil]
      exact ⟨frame.seq, rfl, trivial⟩
    · refine ⟨base, SeqRun.append.mpr ⟨hrun, ?_, trivial⟩⟩
      rw [hrest, List.concat_eq_append] at hlast hrun ⊢
      rw [List.getLast?_concat, Option.all_some, decide_eq_true_eq] at hlast
      obtain ⟨-, hseq, -⟩ := SeqRun.append.mp hrun
      rw [hlast, hseq, List.length_append, List.length_singleton]
      omega
  obtain ⟨base, hall⟩ := hall
  exact ⟨_, hall.drop (Nat.sub_le _ _)⟩

theorem MemStore.recordAll_run {store store' : MemStore} {stream : List Frame} (h : ∃ base, SeqRun base store.frames)
    (hrecord : store.recordAll stream = some store') : ∃ base, SeqRun base store'.frames := by
  induction stream generalizing store with
  | nil =>
    obtain rfl := Option.some.inj hrecord
    exact h
  | cons frame rest ih =>
    obtain ⟨store₁, hfirst, hrest⟩ := Option.bind_eq_some_iff.mp hrecord
    exact ih (record_run h hfirst) hrest

theorem MemStore.Fed.run {store : MemStore} (h : store.Fed) : ∃ base, SeqRun base store.frames := by
  obtain ⟨capacity, stream, hrecord⟩ := h
  have hempty : ∃ base, SeqRun base (MemStore.withCapacity capacity).frames := ⟨0, trivial⟩
  exact MemStore.recordAll_run hempty hrecord

theorem Archive.run (h : Archive s held) : ∃ floor, SeqRun floor held := by
  cases h with
  | empty => exact ⟨0, trivial⟩
  | refused => exact ⟨0, trivial⟩
  | @frames t pre a f q hrun hreads =>
    refine ⟨_, hrun.drop ?_⟩
    have hstart := hreads.sealed.startOf_le
    have hle := hreads.le
    omega

theorem Serves.run (h : Serves s store window held) :
    (∃ base, SeqRun base window) ∧ ∃ floor, SeqRun floor held := by
  cases h with
  | mem hfed => exact ⟨hfed.run, 0, trivial⟩
  | rewinder config harchive => exact ⟨⟨0, trivial⟩, harchive.run⟩
  | chain config hfed harchive => exact ⟨hfed.run, harchive.run⟩

/-- **Reading an archive** gives its frames, and leaves it as it is to a reader. -/
theorem wp_rewind (h : Archive s held) (config : JournalConfig) (first count : ℕ) :
    wp Fate.calm (JournalRewinder.range config first count)
      (fun frames c' s' => frames = (held.filter (·.seq ≥ first)).take count ∧ c' = c ∧ Archive s' held)
      (fun _ _ _ => False) (fun _ => held = []) c s := by
  apply wp_bind
  apply wp_bind
  apply wp_attempt
  cases h with
  | empty hnil =>
    apply wp_mono (wp_openWith_empty (E := fun _ _ _ => False) (C := fun _ => True) calm_no_fault
      (fun _ => trivial) hnil config)
    · rintro _ _ _ ⟨rfl, ⟨now, rfl⟩, rfl⟩
      exact wp_pure (wp_pure ⟨rfl, rfl, .empty hnil⟩)
    · exact fun _ _ _ h => h.elim
    · exact fun _ _ => rfl
  | refused hrefused =>
    apply wp_mono (hrefused config c)
    · exact fun _ _ _ h => h.elim
    · rintro _ _ _ ⟨rfl, rfl⟩
      exact wp_pure (wp_pure ⟨by simp, rfl, .refused hrefused⟩)
    · exact fun _ _ => rfl
  | frames hrun hreads hlt hq =>
    apply wp_mono (wp_openWith_reads (E := fun _ _ _ => False) (C := fun _ => False) calm_no_fault hreads
      (fun hcut => calm_no_cut hcut) (fun hcut => absurd hcut calm_no_cut) hrun (fun hover => by omega) hq config)
    · rintro r _ s' ⟨rfl, hopened⟩
      obtain ⟨f', hreads'⟩ := hopened.reads hreads
      refine wp_pure (wp_pure ⟨?_, rfl, .frames hrun hreads' hlt (Or.inl rfl)⟩)
      rw [hopened.frames, hopened.first]
    · exact fun _ _ _ h => h.elim
    · exact fun _ h => h.elim

/-- A window answers what starts in it. -/
theorem MemStore.range_in {store : MemStore} (h : SeqRun base store.frames) (hcount : 0 < count)
    (hin : base ≤ first ∧ first < base + store.frames.length) :
    store.range first count = (store.frames.drop (first - base)).take count ∧
      (store.range first count).head?.map (·.seq) = some first := by
  have hlen : first - base < store.frames.length := by omega
  have hrange : store.range first count = (store.frames.drop (first - base)).take count := by
    unfold MemStore.range
    cases hframes : store.frames with
    | nil => simp
    | cons front rest =>
      rw [hframes] at h
      simp only [List.head?_cons, h.1]
      rw [if_neg (by omega)]
  have hrun := h.tail_run hin.1 count
  refine ⟨hrange, ?_⟩
  rw [hrange]
  obtain ⟨n, rfl⟩ := Nat.exists_eq_succ_of_ne_zero (Nat.pos_iff_ne_zero.mp hcount)
  rw [List.drop_eq_getElem_cons hlen, List.take_succ_cons] at hrun ⊢
  rw [List.head?_cons, Option.map_some, hrun.1]

/-- And nothing else. -/
theorem MemStore.range_out {store : MemStore} (h : SeqRun base store.frames)
    (hout : ¬(base ≤ first ∧ first < base + store.frames.length)) : store.range first count = [] := by
  unfold MemStore.range
  cases hframes : store.frames with
  | nil => rfl
  | cons front rest =>
    rw [hframes] at h hout
    simp only [List.head?_cons, h.1]
    split
    · rfl
    · rw [List.drop_eq_nil_of_le (by omega), List.take_nil]

/-- **What a store answers.** -/
theorem wp_range (h : Serves s store window held) (hwindow : SeqRun base window) (hheld : SeqRun floor held)
    (hcount : 0 < count) :
    wp Fate.calm (store.range first count)
      (fun frames c' s' => frames = answer base window floor held first count ∧ c' = c ∧ Serves s' store window held)
      (fun _ _ _ => False) (fun _ => held = []) c s := by
  unfold answer
  cases h with
  | @mem store hfed =>
    refine wp_pure ⟨?_, rfl, .mem hfed⟩
    by_cases hin : base ≤ first ∧ first < base + store.frames.length
    · rw [if_pos hin, (MemStore.range_in hwindow hcount hin).1]
    · rw [if_neg hin, MemStore.range_out hwindow hin]
      simp
  | rewinder config harchive =>
    apply wp_mono (wp_rewind harchive config first count)
    · rintro frames c' s' ⟨rfl, rfl, harchive'⟩
      refine ⟨?_, rfl, .rewinder config harchive'⟩
      rw [hheld.filter_ge, if_neg (by simp)]
    · exact fun _ _ _ h => h
    · exact fun _ h => h
  | @chain store held config hfed harchive =>
    apply wp_bind
    apply wp_pure
    by_cases hin : base ≤ first ∧ first < base + store.frames.length
    · obtain ⟨hrange, hhead⟩ := MemStore.range_in hwindow hcount hin
      rw [if_pos hhead, hrange, if_pos hin]
      exact wp_pure ⟨rfl, rfl, .chain config hfed harchive⟩
    · rw [MemStore.range_out hwindow hin, if_neg hin, if_neg (by simp)]
      apply wp_mono (wp_rewind harchive config first count)
      · rintro frames c' s' ⟨rfl, rfl, harchive'⟩
        exact ⟨by rw [hheld.filter_ge], rfl, .chain config hfed harchive'⟩
      · exact fun _ _ _ h => h
      · exact fun _ h => h

end Stores

/-! ## Taking in a reply -/

theorem chunksOf_flatten {n fuel : ℕ} {l : List α} (hn : 0 < n) (hfuel : l.length ≤ fuel) :
    (chunksOf n fuel l).flatten = l := by
  induction fuel generalizing l with
  | zero => rw [List.eq_nil_of_length_eq_zero (Nat.le_zero.mp hfuel), chunksOf, List.flatten_nil]
  | succ fuel ih =>
    cases l with
    | nil => rfl
    | cons a rest =>
      have hshort : ((a :: rest).drop n).length ≤ fuel := by
        rw [List.length_drop, List.length_cons] at *
        omega
      rw [chunksOf, List.flatten_cons, ih hshort, List.take_append_drop]

/-- The seq is pending or was dropped by the cap. -/
def Receiver.Kept (c : Receiver) (seq : ℕ) : Prop := seq ∈ c.reassembler.pending ∨ seq ∈ c.evicted

/-- **What frames that were taken in change.** -/
structure Took (session : UInt64) (frames : List Frame) (c c' : Receiver) : Prop where
  session : c'.reassembler.session.getD session = session
  next : c'.reassembler.next = c.reassembler.next
  kept : ∀ seq, c'.Kept seq ↔ c.Kept seq ∨ Has frames seq ∧ c.reassembler.next ≤ seq

section Taking

variable {session : UInt64} {frames more : List Frame} {c c' c'' : Receiver} {r : Reassembler} {s : JStore}
  {F : Fate → Prop} {Err : TransportError → Receiver → JStore → Prop} {D : JStore → Prop}

theorem Took.nil (hsession : c.reassembler.session.getD session = session) : Took session [] c c :=
  ⟨hsession, rfl, by simp [Has]⟩

theorem Took.trans (h : Took session frames c c') (h' : Took session more c' c'') :
    Took session (frames ++ more) c c'' := by
  refine ⟨h'.session, h'.next.trans h.next, fun seq => ?_⟩
  have hboth : Has (frames ++ more) seq ↔ Has frames seq ∨ Has more seq := by
    simp only [Has, List.mem_append]
    constructor
    · rintro ⟨f, hf | hf, hseq⟩
      · exact Or.inl ⟨f, hf, hseq⟩
      · exact Or.inr ⟨f, hf, hseq⟩
    · rintro (⟨f, hf, hseq⟩ | ⟨f, hf, hseq⟩)
      · exact ⟨f, Or.inl hf, hseq⟩
      · exact ⟨f, Or.inr hf, hseq⟩
  rw [h'.kept, h.kept, h.next, hboth]
  tauto

theorem mem_pending_accept {f : Frame} {seq : ℕ} :
    seq ∈ (r.accept f).pending ↔ seq ∈ r.pending ∨ f.seq = seq ∧ r.next ≤ seq := by
  simp only [Reassembler.accept]
  split
  · next hseen =>
    refine ⟨Or.inl, ?_⟩
    rintro (hmem | ⟨rfl, hge⟩)
    · exact hmem
    · exact hseen.resolve_left (by omega)
  · next hnew =>
    rw [ExtTreeMap.mem_insert, LawfulEqCmp.compare_eq_iff_eq]
    constructor
    · rintro (rfl | hmem)
      · exact Or.inr ⟨rfl, by omega⟩
      · exact Or.inl hmem
    · rintro (hmem | ⟨rfl, -⟩)
      · exact Or.inr hmem
      · exact Or.inl rfl

theorem mem_pending_acceptAll {seq : ℕ} :
    seq ∈ (frames.foldl Reassembler.accept r).pending ↔ seq ∈ r.pending ∨ Has frames seq ∧ r.next ≤ seq := by
  induction frames generalizing r with
  | nil => simp [Has]
  | cons f rest ih =>
    rw [List.foldl_cons, ih, mem_pending_accept, show (r.accept f).next = r.next from rfl]
    simp only [Has, List.mem_cons, exists_eq_or_imp]
    tauto

theorem acceptAll_locked (x : Option UInt64) (n : ℕ) :
    frames.foldl Reassembler.accept { r with session := x, packetsSeen := n } =
      { frames.foldl Reassembler.accept r with session := x, packetsSeen := n } := by
  induction frames generalizing r with
  | nil => rfl
  | cons f rest ih => exact ih (r := r.accept f)

theorem pending_ingest_data {r' : Reassembler} (h : r.ingest (.data session frames) = .ok r') :
    r'.pending = (frames.foldl Reassembler.accept r).bound.pending := by
  unfold Reassembler.ingest at h
  simp only at h
  split at h
  · cases h
  · cases h
    rw [acceptAll_locked]
    unfold Reassembler.bound
    split
    · next hnone => simp only [hnone]
    · next hcut => simp only [hcut]

theorem wp_ingest (hsession : c.reassembler.session.getD session = session) :
    wp F (Receiver.ingest (.data session frames)) (fun _ c' s' => Took session frames c c' ∧ s' = s) Err D c s := by
  have hlock : c.reassembler.session = none ∨ c.reassembler.session = some session := by
    cases hs : c.reassembler.session with
    | none => exact Or.inl rfl
    | some session' =>
      rw [hs] at hsession
      exact Or.inr (congrArg some hsession)
  have hsame : (Packet.data session frames).session = session := rfl
  obtain ⟨r', hrun⟩ := Reassembler.ingest_ok hlock hsame
  apply wp_bind
  apply wp_mem
  apply wp_bind
  rw [hrun]
  apply wp_pure
  apply wp_update
  obtain ⟨hnext, hlocked, -, -⟩ := Reassembler.ingest_spec hrun
  refine ⟨⟨by rw [hlocked]; rfl, hnext, fun seq => ?_⟩, rfl⟩
  have hpending := pending_ingest_data hrun
  have hsub : seq ∈ r'.pending → seq ∈ (frames.foldl Reassembler.accept c.reassembler).pending := by
    intro hmem
    rw [hpending, ExtTreeMap.mem_iff_isSome_getElem?, Option.isSome_iff_exists] at hmem
    obtain ⟨f, hf⟩ := hmem
    rw [ExtTreeMap.mem_iff_isSome_getElem?, Reassembler.pending_bound hf]
    rfl
  have hevicts : seq ∈ c.reassembler.evicts (.data session frames) ↔
      seq ∈ (frames.foldl Reassembler.accept c.reassembler).pending ∧ seq ∉ r'.pending := by
    rw [hpending, Reassembler.evicts, List.mem_filter, ExtTreeMap.mem_keys, decide_eq_true_iff]
    exact Iff.rfl
  have hfull : seq ∈ (frames.foldl Reassembler.accept c.reassembler).pending ↔ _ := mem_pending_acceptAll
  simp only [Receiver.Kept, List.mem_append, hevicts]
  tauto

theorem wp_ingestAll {packets : List Packet} (served : ℕ) (hdata : ∀ p ∈ packets, ∃ fs, p = .data session fs)
    (hsession : c.reassembler.session.getD session = session) :
    wp F (Receiver.ingestAll packets served)
      (fun n c' s' => n = served + (packets.flatMap Packet.frames).length ∧
        Took session (packets.flatMap Packet.frames) c c' ∧ s' = s) Err D c s := by
  induction packets generalizing c served with
  | nil => exact wp_pure ⟨rfl, .nil hsession, rfl⟩
  | cons packet rest ih =>
    obtain ⟨fs, rfl⟩ := hdata packet (List.mem_cons_self ..)
    apply wp_seq (wp_ingest hsession)
    rintro _ c₁ s₁ ⟨htook, rfl⟩
    apply wp_mono (ih _ (fun p hp => hdata p (List.mem_cons_of_mem _ hp)) htook.session)
    · rintro n c₂ s₂ ⟨rfl, hrest, rfl⟩
      rw [List.flatMap_cons, List.length_append]
      exact ⟨Nat.add_assoc .., htook.trans hrest, rfl⟩
    · exact fun _ _ _ h => h
    · exact fun _ h => h

end Taking

/-! ## The loop -/

section Loop

variable {t : Retransmitter} {window held : List Frame} {base floor past : ℕ} {s : JStore} {c : Receiver}

/-- **A request of its session is answered** with the frames of the store. -/
theorem wp_serveOne (h : Serves s t.store window held) (hwindow : SeqRun base window) (hheld : SeqRun floor held)
    {first count : ℕ} (hcount : 0 < count) :
    wp Fate.calm (t.serveOne t.session first count)
      (fun reply c' s' => reply.flatMap Packet.frames = answer base window floor held first count ∧
        (∀ p ∈ reply, ∃ fs, p = .data t.session fs) ∧ c' = c ∧ Serves s' t.store window held)
      (fun _ _ _ => False) (fun _ => held = []) c s := by
  unfold Retransmitter.serveOne
  rw [if_neg (by simp)]
  apply wp_seq (wp_range h hwindow hheld hcount)
  rintro frames c' s' ⟨rfl, rfl, hserves⟩
  refine wp_pure ⟨?_, ?_, rfl, hserves⟩
  · rw [List.flatMap_map]
    exact (List.flatMap_id ..).trans (chunksOf_flatten (by decide) (Nat.le_refl _))
  · intro p hp
    obtain ⟨fs, -, rfl⟩ := List.mem_map.mp hp
    exact ⟨fs, rfl⟩

/-- **The loop rule**: `I` holds of the seq that is wanted next, and each nonempty answer keeps it. -/
theorem wp_fillFrom (I : ℕ → Receiver → Prop) (P : Prop) (hwindow : SeqRun base window) (hheld : SeqRun floor held)
    (hstep : ∀ wanted c c', wanted < past → I wanted c →
      Took t.session (answer base window floor held wanted (min (past - wanted) (2 ^ 32 - 1))) c c' →
      answer base window floor held wanted (min (past - wanted) (2 ^ 32 - 1)) ≠ [] →
      I (wanted + (answer base window floor held wanted (min (past - wanted) (2 ^ 32 - 1))).length) c')
    (hfail : ∀ wanted c, wanted < past → I wanted c →
      answer base window floor held wanted (min (past - wanted) (2 ^ 32 - 1)) = [] → P)
    (fuel : ℕ) {wanted remaining : ℕ} (hpast : wanted + remaining = past) (hI : I wanted c)
    (hserves : Serves s t.store window held) (hsession : c.reassembler.session.getD t.session = t.session) :
    wp Fate.calm (Receiver.fillFrom t t.session fuel wanted remaining) (fun _ c' _ => I past c')
      (fun e _ _ => P ∧ ∃ first count, e = .gapUnrecoverable first count) (fun _ => held = []) c s := by
  induction fuel generalizing wanted remaining c s with
  | zero => exact wp_spin
  | succ fuel ih =>
    rw [Receiver.fillFrom]
    split
    · next hzero =>
      apply wp_pure
      rwa [← hpast, hzero]
    · next hmore =>
      have hleft : past - wanted = remaining := by omega
      apply wp_bind
      apply wp_mapErr
      apply wp_mono (wp_serveOne hserves hwindow hheld (by omega))
      · rintro reply c' s' ⟨hreply, hdata, rfl, hserves'⟩
        rw [← hleft] at hreply
        by_cases hempty : reply.isEmpty
        · rw [if_pos hempty]
          rw [List.isEmpty_iff.mp hempty, List.flatMap_nil] at hreply
          exact wp_fail ⟨hfail wanted _ (by omega) hI hreply.symm, _, _, rfl⟩
        rw [if_neg hempty]
        apply wp_seq (wp_ingestAll 0 hdata hsession)
        rintro served c₁ s₁ ⟨hserved, htook, rfl⟩
        rw [hreply] at hserved htook
        split
        · next hnone =>
          have hnil : answer base window floor held wanted (min (past - wanted) (2 ^ 32 - 1)) = [] :=
            List.eq_nil_of_length_eq_zero (by omega)
          exact wp_fail ⟨hfail wanted _ (by omega) hI hnil, _, _, rfl⟩
        · next hsome =>
          have hlen : (answer base window floor held wanted (min (past - wanted) (2 ^ 32 - 1))).length ≤
              min (past - wanted) (2 ^ 32 - 1) := answer_length_le
          have hne : answer base window floor held wanted (min (past - wanted) (2 ^ 32 - 1)) ≠ [] := by
            intro hnil
            rw [hnil] at hserved
            exact hsome hserved
          have hnext := hstep wanted _ c₁ (by omega) hI htook hne
          rw [← Nat.zero_add (List.length _), ← hserved] at hnext
          exact ih (by omega) hnext hserves' htook.session
      · exact fun _ _ _ h => h.elim
      · exact fun _ h => h

/-- Where no answer starts too late, the range is filled. -/
theorem wp_fillFrom_right (hwindow : SeqRun base window) (hheld : SeqRun floor held) {first count fuel : ℕ}
    (hright : ∀ seq, first ≤ seq → seq < first + count →
      (base ≤ seq ∧ seq < base + window.length) ∨ held = [] ∨ floor ≤ seq)
    (hnext : c.reassembler.next = first) (hserves : Serves s t.store window held)
    (hsession : c.reassembler.session.getD t.session = t.session) :
    wp Fate.calm (Receiver.fillFrom t t.session fuel first count) (fun _ c' _ => Filled first count c')
      (fun e _ _ => ∃ first' count', e = .gapUnrecoverable first' count') (fun _ => True) c s := by
  have hloop := wp_fillFrom (fun wanted c' => first ≤ wanted ∧ c'.reassembler.next = first ∧
    ∀ seq, first ≤ seq → seq < wanted → c'.Kept seq) True hwindow hheld ?_ (fun _ _ _ _ _ => trivial) fuel (Eq.refl (first + count))
    ⟨Nat.le_refl _, hnext, fun seq hge hlt => by omega⟩ hserves hsession
  · apply wp_mono hloop
    · rintro _ c' _ ⟨-, -, hkept⟩ seq hge hlt
      exact Or.inr (hkept seq hge hlt)
    · exact fun _ _ _ h => h.2
    · exact fun _ _ => trivial
  · rintro wanted c₁ c₂ hlt ⟨hge, hnext, hkept⟩ htook -
    have hrun : SeqRun wanted (answer base window floor held wanted (min (first + count - wanted) (2 ^ 32 - 1))) :=
      answer_run hwindow hheld (hright wanted hge hlt)
    refine ⟨by omega, htook.next.trans hnext, fun seq hseq hbelow => ?_⟩
    rw [htook.kept, has_iff hrun, hnext]
    by_cases hold : seq < wanted
    · exact Or.inl (hkept seq hseq hold)
    · exact Or.inr ⟨⟨by omega, hbelow⟩, hseq⟩

/-- A seq at or behind the start of the archive that nobody has is not passed over. -/
theorem wp_fillFrom_stuck {Q : Unit → Receiver → JStore → Prop} (hwindow : SeqRun base window)
    (hheld : SeqRun floor held) {first count fuel seq : ℕ} (hge : first ≤ seq) (hlt : seq < first + count) (hout : ¬(base ≤ seq ∧ seq < base + window.length))
    (hpast : floor + held.length ≤ seq) (hserves : Serves s t.store window held)
    (hsession : c.reassembler.session.getD t.session = t.session) :
    wp Fate.calm (Receiver.fillFrom t t.session fuel first count) Q
      (fun e _ _ => ∃ first' count', e = .gapUnrecoverable first' count') (fun _ => True) c s := by
  have hloop := wp_fillFrom (fun wanted _ => wanted ≤ seq) True hwindow hheld ?_ (fun _ _ _ _ _ => trivial) fuel (Eq.refl (first + count))
    hge hserves hsession
  · apply wp_mono hloop
    · intro _ _ _ hle
      omega
    · exact fun _ _ _ h => h.2
    · exact fun _ _ => trivial
  · intro wanted c₁ c₂ _ hle _ _
    exact answer_stops hout hpast hle

/-- **A seq that nobody has is passed over**, if the archive starts behind it and every later seq is there. -/
theorem wp_fillFrom_wrong (hwindow : SeqRun base window) (hheld : SeqRun floor held) {first count fuel seq : ℕ}
    (hne : held ≠ []) (hmissing : ¬Has window seq ∧ ¬Has held seq)
    (hrest : ∀ later, first ≤ later → later < first + count → floor ≤ later → Has window later ∨ Has held later)
    (hkept : ¬c.Kept seq) (hnext : c.reassembler.next = first) (hserves : Serves s t.store window held)
    (hsession : c.reassembler.session.getD t.session = t.session) :
    wp Fate.calm (Receiver.fillFrom t t.session fuel first count)
      (fun _ c' _ => ¬c'.Kept seq ∧ c'.reassembler.next = first) (fun _ _ _ => False) (fun _ => False) c s := by
  have hpos := List.length_pos_iff.mpr hne
  have hloop := wp_fillFrom (fun wanted c' => first ≤ wanted ∧ ¬c'.Kept seq ∧ c'.reassembler.next = first) False
    hwindow hheld ?_ ?_ fuel (Eq.refl (first + count)) ⟨Nat.le_refl _, hkept, hnext⟩ hserves hsession
  · apply wp_mono hloop
    · exact fun _ _ _ h => h.2
    · exact fun _ _ _ h => h.1.elim
    · exact fun _ hnil => hne hnil
  · rintro wanted c₁ c₂ _ ⟨hge, hnot, hnext₁⟩ htook _
    refine ⟨by omega, ?_, htook.next.trans hnext₁⟩
    rw [htook.kept]
    rintro (hold | ⟨⟨f, hf, hseq⟩, -⟩)
    · exact hnot hold
    · rcases mem_answer hf with hmem | hmem
      · exact hmissing.1 ⟨f, hmem, hseq⟩
      · exact hmissing.2 ⟨f, hmem, hseq⟩
  · rintro wanted c₁ hlt ⟨hge, -, -⟩ hnil
    apply answer_ne_nil (by omega) _ hnil
    by_cases hlow : wanted < floor
    · exact Or.inr ⟨hpos, by omega⟩
    · have hthere := hrest wanted hge hlt (Nat.le_of_not_lt hlow)
      rw [has_iff hwindow, has_iff hheld] at hthere
      exact hthere.imp_right fun h => ⟨hpos, h.2⟩

end Loop

section Ending

theorem ends_recovered (config : JournalConfig) :
    Ends (JournalRewinder.recovered config : Prog μ JStore JournalError (Option Recovered)) := by
  refine ends_bind (ends_attempt (ends_openWith config)) fun r => ?_
  cases r with
  | ok r => exact ends_pure _
  | error e => exact ends_pure _

theorem ends_range (store : FrameStore) (first count : ℕ) :
    Ends (store.range first count : Prog μ JStore JournalError (List Frame)) := by
  induction store with
  | mem store => exact ends_pure _
  | rewinder config =>
    refine ends_bind (ends_recovered config) fun r => ?_
    cases r with
    | none => exact ends_pure _
    | some r => exact ends_pure _
  | chain primary secondary hprimary hsecondary =>
    refine ends_bind hprimary fun frames => ?_
    split
    · exact ends_pure _
    · exact hsecondary

theorem ends_ingestAll (packets : List Packet) (served : ℕ) : Ends (Receiver.ingestAll packets served) := by
  induction packets generalizing served with
  | nil => exact ends_pure _
  | cons packet rest ih =>
    refine ends_bind ?_ fun _ => ih _
    exact ends_bind ends_mem fun c => ends_bind (ends_ofExcept _) fun r => ends_update _

/-- **The loop ends**: each round but the last is served a frame. -/
theorem ends_fillFrom (t : Retransmitter) (session : UInt64) {fuel wanted remaining : ℕ} (hfuel : remaining < fuel) :
    Ends (Receiver.fillFrom t session fuel wanted remaining) := by
  induction fuel generalizing wanted remaining with
  | zero => exact absurd hfuel (Nat.not_lt_zero _)
  | succ fuel ih =>
    rw [Receiver.fillFrom]
    split
    · exact ends_pure _
    · refine ends_bind (ends_mapErr ?_) fun reply => ?_
      · unfold Retransmitter.serveOne
        split
        · exact ends_pure _
        · exact ends_bind (ends_range _ _ _) fun _ => ends_pure _
      · split
        · exact ends_fail _
        · refine ends_bind (ends_ingestAll _ _) fun served => ?_
          split
          · exact ends_fail _
          · exact ih (by omega)

theorem ends_fillGap {fuel first count : ℕ} (hfuel : count < fuel) : Ends (Receiver.fillGap fuel first count) := by
  refine ends_bind (ends_update _) fun _ => ends_bind ends_mem fun c => ?_
  cases c.retransmitter with
  | none => exact ends_fail _
  | some t => exact ends_fillFrom t _ hfuel

end Ending

/-! ## When a fill is honest -/

/-- **The condition on a gap**: every seq of it below the archive is in the window; or there is a seq of it that
neither has, and that does not lie below the archive. With nothing in the archive there is no condition. -/
def Sound (window held : List Frame) (first count : ℕ) : Prop :=
  ∀ oldest, held.head? = some oldest →
    (∀ seq, first ≤ seq → seq < first + count → seq < oldest.seq → Has window seq) ∨
    ∃ seq, first ≤ seq ∧ seq < first + count ∧ oldest.seq ≤ seq ∧ ¬Has window seq ∧ ¬Has held seq

section Fill

variable {t : Retransmitter} {window held : List Frame} {s : JStore} {c : Receiver} {first count fuel : ℕ}

/-- What is missing is not pending. -/
theorem gap_missing (h : c.reassembler.gap = some (first, count)) :
    first = c.reassembler.next ∧ 0 < count ∧ ∀ seq ∈ c.reassembler.pending, first + count ≤ seq := by
  unfold Reassembler.gap at h
  cases hhead : c.reassembler.pending.toList.head? with
  | none =>
    simp only [hhead] at h
    obtain ⟨hlt, heq⟩ := Option.ite_none_right_eq_some.mp h
    cases heq
    rw [Reassembler.pending_nil hhead]
    exact ⟨rfl, by omega, fun seq hseq => absurd hseq ExtTreeMap.not_mem_empty⟩
  | some entry =>
    obtain ⟨low, f⟩ := entry
    simp only [hhead] at h
    obtain ⟨hlt, heq⟩ := Option.ite_none_right_eq_some.mp h
    cases heq
    refine ⟨rfl, by omega, fun seq hseq => ?_⟩
    have hlow := (Reassembler.pending_head hhead).2 seq hseq
    omega

section Requests

variable {Q : Unit → Receiver → JStore → Prop} {Err : TransportError → Receiver → JStore → Prop} {D : JStore → Prop}

theorem wp_fillGap_loop (ht : c.retransmitter = some t) (hsession : t.session = c.reassembler.session.getD 0)
    (h : wp Fate.calm (Receiver.fillFrom t t.session fuel first count) Q Err D { c with evicted := [] } s) :
    wp Fate.calm (Receiver.fillGap fuel first count) Q Err D c s := by
  apply wp_bind
  apply wp_update
  apply wp_bind
  apply wp_mem
  rw [hsession] at h
  split
  · next hnone =>
    rw [ht] at hnone
    cases hnone
  · next t' ht' =>
    obtain rfl : t = t' := Option.some.inj (ht.symm.trans ht')
    exact h

/-- A fill is a loop over requests of the right session, or fails. -/
theorem wp_fillGap (hcount : 0 < count) (hrefused : Err (.gapUnrecoverable first count) { c with evicted := [] } s)
    (hloop : ∀ t, c.retransmitter = some t → t.session = c.reassembler.session.getD 0 →
      wp Fate.calm (Receiver.fillFrom t t.session fuel first count) Q Err D { c with evicted := [] } s) :
    wp Fate.calm (Receiver.fillGap fuel first count) Q Err D c s := by
  by_cases hmatch : ∃ t, c.retransmitter = some t ∧ t.session = c.reassembler.session.getD 0
  · obtain ⟨t, ht, hsession⟩ := hmatch
    exact wp_fillGap_loop ht hsession (hloop t ht hsession)
  apply wp_bind
  apply wp_update
  apply wp_bind
  apply wp_mem
  split
  · exact wp_fail hrefused
  · next t ht =>
    cases fuel with
    | zero => exact wp_spin
    | succ fuel =>
      rw [Receiver.fillFrom, if_neg (by omega)]
      apply wp_bind
      apply wp_mapErr
      unfold Retransmitter.serveOne
      rw [if_pos fun heq => hmatch ⟨t, ht, heq.symm⟩]
      exact wp_pure (wp_fail hrefused)

end Requests

theorem session_locked (h : t.session = c.reassembler.session.getD 0) :
    c.reassembler.session.getD t.session = t.session := by
  cases hs : c.reassembler.session with
  | none => rfl
  | some session =>
    rw [hs] at h
    exact h.symm

/-- A fill of a sound gap is honest. -/
theorem wp_fillGap_sound (hgap : c.reassembler.gap = some (first, count))
    (hserves : ∀ t, c.retransmitter = some t → Serves s t.store window held)
    (hsound : ∀ t, c.retransmitter = some t → t.session = c.reassembler.session.getD 0 →
      Sound window held first count) :
    wp Fate.calm (Receiver.fillGap fuel first count) (fun _ c' _ => Filled first count c')
      (fun e _ _ => ∃ first' count', e = .gapUnrecoverable first' count') (fun _ => True) c s := by
  obtain ⟨hfirst, hcount, -⟩ := gap_missing hgap
  apply wp_fillGap hcount ⟨_, _, rfl⟩
  intro t ht hsession
  obtain ⟨⟨base, hwindow⟩, floor, hheld⟩ := (hserves t ht).run
  have hlocked := session_locked hsession
  cases hheads : held.head? with
  | none =>
    have hnil : held = [] := List.head?_eq_none_iff.mp hheads
    exact wp_fillFrom_right hwindow hheld (fun _ _ _ => Or.inr (Or.inl hnil)) hfirst.symm (hserves t ht) hlocked
  | some oldest =>
    obtain ⟨rest, hrest⟩ := List.head?_eq_some_iff.mp hheads
    have hfloor : oldest.seq = floor := by
      rw [hrest] at hheld
      exact hheld.1
    -- either every answer starts where it should, or the fill cannot get to its end
    rcases hsound t ht hsession oldest hheads with hbelow | ⟨seq, hge, hlt, hlater, hout, hnot⟩
    · refine wp_fillFrom_right hwindow hheld ?_ hfirst.symm (hserves t ht) hlocked
      intro seq hge hlt
      by_cases hlow : seq < floor
      · exact Or.inl ((has_iff hwindow).mp (hbelow seq hge hlt (by omega)))
      · exact Or.inr (Or.inr (Nat.le_of_not_lt hlow))
    · rw [has_iff hwindow] at hout
      rw [has_iff hheld] at hnot
      exact wp_fillFrom_stuck hwindow hheld hge hlt hout (by omega) (hserves t ht) hlocked

/-- **When a gap fill is honest.** For every store and every missing range: a fill that reports success has filled
the gap, and any other reports it as unrecoverable, if and only if the store answers another session, or has nothing
archived, or its window has what lies below the archive, or neither has some seq that does not. -/
theorem fill_gap_iff (hgap : c.reassembler.gap = some (first, count))
    (hserves : ∀ t, c.retransmitter = some t → Serves s t.store window held) :
    Honest first count c s ↔ ∀ t, c.retransmitter = some t → t.session = c.reassembler.session.getD 0 →
      Sound window held first count := by
  obtain ⟨hfirst, hcount, hpending⟩ := gap_missing hgap
  constructor
  · rintro ⟨fuel, hends, hhonest⟩ t ht hsession oldest hhead
    by_contra hcon
    push Not at hcon
    obtain ⟨⟨seq, hge, hlt, hlow, hout⟩, hlater⟩ := hcon
    obtain ⟨⟨base, hwindow⟩, floor, hheld⟩ := (hserves t ht).run
    obtain ⟨rest, hrest⟩ := List.head?_eq_some_iff.mp hhead
    have hne : held ≠ [] := by
      rw [hrest]
      exact List.cons_ne_nil _ _
    have hfloor : oldest.seq = floor := by
      rw [hrest] at hheld
      exact hheld.1
    have hnot : ¬Has held seq := by
      rw [has_iff hheld]
      omega
    have hrest : ∀ later, first ≤ later → later < first + count → floor ≤ later → Has window later ∨ Has held later := by
      intro later hge hlt hfloor
      by_contra hneither
      rw [not_or] at hneither
      exact hneither.2 (hlater later hge hlt (by omega) hneither.1)
    have hkept : ¬Receiver.Kept { c with evicted := [] } seq := by
      rintro (hmem | hmem)
      · have := hpending seq hmem
        omega
      · cases hmem
    have hwrong : wp Fate.calm (Receiver.fillGap fuel first count)
        (fun _ c' _ => ¬c'.Kept seq ∧ c'.reassembler.next = first) (fun _ _ _ => False) (fun _ => False) c s :=
      wp_fillGap_loop ht hsession (wp_fillFrom_wrong hwindow hheld hne ⟨hout, hnot⟩ hrest hkept hfirst.symm
        (hserves t ht) (session_locked hsession))
    have hboth := wp_and hhonest hwrong
    obtain ⟨_, c', w', -, -, hfilled, hmissing, hnext⟩ := wp_total (w := World.healthy s)
      (wp_mono hboth (fun _ _ _ h => h) (fun _ _ _ h => h.2) (fun _ h => h.2)) (fun f hf => by cases hf) hends
    rcases hfilled seq hge hlt with hdelivered | hthere
    · omega
    · exact hmissing hthere
  · intro hsound
    exact ⟨count + 1, ends_fillGap (Nat.lt_succ_self count), wp_fillGap_sound hgap hserves hsound⟩

end Fill

/-- **The directory of an open journal is an archive**, of the frames from its first segment on. -/
theorem archive_of_run {j : Journal} (h : Run (some j) s) (hlt : s.ghost.tape.length + 1 < 2 ^ 64) :
    ∃ held, Archive s held := by
  have hinv : JInv s.ghost.tape j s := run_inv h
  cases hcur : j.current with
  | none =>
    have hholds := hinv.holds
    unfold Holds at hholds
    rw [hcur] at hholds
    exact ⟨[], .empty hholds.1⟩
  | some current =>
    obtain ⟨pre, f, hreads, -⟩ := hinv.readsAs hcur
    exact ⟨_, .frames hinv.run hreads hlt (Or.inl rfl)⟩

/-- A follower that knows of frame 1 only, and has received nothing. -/
def waiting (store : FrameStore) : Receiver :=
  ⟨{ Reassembler.new 1 with session := some 7, announcedNext := 2 }, some ⟨7, store⟩, []⟩

/-- A window of the one frame that is missing fills the gap. -/
theorem fill_gap_iff_of_window : ∃ c : Receiver, c.reassembler.gap = some (1, 1) ∧
    Honest 1 1 c ⟨Disk.empty, History.fresh⟩ := by
  let frame : Frame := ⟨1, 0, 1, .tick, [], one_lt_seqs, nil_payload_le⟩
  have hgap : (waiting (.mem ⟨[frame], 1⟩)).reassembler.gap = some (1, 1) := by decide +kernel
  have hserves : ∀ t, (waiting (.mem ⟨[frame], 1⟩)).retransmitter = some t →
      Serves ⟨Disk.empty, History.fresh⟩ t.store [frame] [] := by
    rintro _ ⟨⟩
    exact .mem ⟨1, [frame], rfl⟩
  refine ⟨_, hgap, (fill_gap_iff hgap hserves).mpr ?_⟩
  intro _ _ _ oldest hhead
  cases hhead

/-! ## A gap in front of a compacted journal -/

/-- A journal of two frames, the first of which was compacted away. -/
def compacted : Option (Journal × World JStore) := do
  let opening : Prog Unit JStore JournalError Recovered := Journal.openWith ⟨1, .everyFrame⟩
  let (r, _, w) ← (opening () (.healthy ⟨Disk.empty, History.fresh⟩)).returned
  let (_, j₁, w₁) ← ((Op.append ⟨1, 0, 1, .tick, [], one_lt_seqs, nil_payload_le⟩).run r.journal
    (.healthy (resume w.st r.journal.lastSeq))).returned
  let (_, j₂, w₂) ← ((Op.append ⟨2, 0, 1, .tick, [], two_lt_seqs, nil_payload_le⟩).run j₁ (.healthy w₁.st)).returned
  let (_, j₃, w₃) ← ((Op.compactBelow 1).run j₂ (.healthy w₂.st)).returned
  pure (j₃, .healthy w₃.st)

theorem Run.compacted {j : Journal} {w : World JStore} (h : Transport.compacted = some (j, w)) :
    Run (some j) w.st := by
  simp only [Transport.compacted, bind, Option.bind_eq_some_iff] at h
  obtain ⟨⟨r, _, w₀⟩, hopen, ⟨_, j₁, w₁⟩, h₁, ⟨_, j₂, w₂⟩, h₂, ⟨_, j₃, w₃⟩, h₃, heq⟩ := h
  cases heq
  rw [Outcome.returned_eq_some] at hopen h₁ h₂ h₃
  have hcalm : ∀ s : JStore, (World.healthy s).Benign := fun s f hf => by cases hf
  have hopened : Run (some r.journal) (resume w₀.st r.journal.lastSeq) := .opened _ .start (hcalm _) hopen
  have hfirst : Run (some j₁) w₁.st := .done (w := .healthy _) _ hopened (hcalm _) h₁
  have hsecond : Run (some j₂) w₂.st := .done (w := .healthy _) _ hfirst (hcalm _) h₂
  have hthird : Run (some j₃) w₃.st := .done (w := .healthy _) _ hsecond (hcalm _) h₃
  exact hthird

/-- **A gap that is reported as filled and is not**: frame 1 is asked for, frame 2 is served, and one is what was
wanted. -/
theorem unfilled_gap : ∃ (j : Journal) (c c' : Receiver) (w w' : World JStore), Run (some j) w.st ∧
    c.retransmitter = some ⟨7, .rewinder j.config⟩ ∧ c.reassembler.gap = some (1, 1) ∧
    Receiver.fillGap 2 1 1 c w = .ok () c' w' ∧ ¬Filled 1 1 c' := by
  have hrun : compacted.any (fun p => ((Receiver.fillGap 2 1 1 (waiting (.rewinder p.1.config)) p.2).returned).any
      fun q => decide (q.2.1.reassembler.next = 1 ∧ 1 ∉ q.2.1.reassembler.pending ∧ 1 ∉ q.2.1.evicted)) = true := by
    decide +kernel
  rw [Option.any_eq_true] at hrun
  obtain ⟨⟨j, w⟩, hcompacted, hfill⟩ := hrun
  rw [Option.any_eq_true] at hfill
  obtain ⟨⟨_, c', w'⟩, hfill, hend⟩ := hfill
  obtain ⟨hnext, hpending, hevicted⟩ := of_decide_eq_true hend
  rw [Outcome.returned_eq_some] at hfill
  refine ⟨j, _, c', w, w', Run.compacted hcompacted, rfl, ?_, hfill, fun hfilled => ?_⟩
  · have hgap : (waiting (.mem ⟨[], 0⟩)).reassembler.gap = some (1, 1) := by decide +kernel
    exact hgap
  · rcases hfilled 1 (Nat.le_refl 1) (by omega) with hlt | hmem | hmem
    · exact absurd hlt (by rw [show c'.reassembler.next = 1 from hnext]; omega)
    · exact hpending hmem
    · exact hevicted hmem

end Ticktape.Transport
