import Ticktape.Journal.Ops

/-!
# Opening a journal

What `Journal::open_with` does on any store a power loss can leave. If the store is intact it
returns the surviving frames and a journal that holds them; if not, it returns an error and
changes nothing.
-/

namespace Ticktape.Journal

open Ticktape.Lib Ticktape.Core

variable {μ : Type} {F : Fate → Prop} {E : JournalError → μ → JStore → Prop} {C : JStore → Prop}
  {m : μ} {s : JStore}

/-! ## Scanning one segment -/

/-- A whole segment with a whole header: its frames are read; damaged bytes behind them are
truncated in the last segment and an error in any other. -/
theorem wp_scanSegment (hF : ∀ k, ¬F (.fault k)) {isFirst isLast : Bool} {a : ℕ} {acc : Scan}
    {f : FileData} (epoch : UInt64) (fs : List Frame) {q : Bytes} {Q : Scan → μ → JStore → Prop}
    (hget : s.disk.get (segName a) = some f)
    (hbytes : f.combined = segmentHeaderBytes a epoch ++ (encodeAll fs ++ q)) (hlt : a < 2 ^ 64)
    (hrun : SeqRun a fs) (hq : q = [] ∨ ∃ e, Frame.readFrom q = .error e)
    (hcorrupt : q ≠ [] → isLast = false → ∀ e, E e m s) (hexp : isFirst = true ∨ acc.expectedNext = a)
    (hcut : F .cut → C s) (hover : 2 ^ 64 ≤ a + fs.length → C s)
    (hclean : q = [] → Q ⟨a + fs.length, epoch, acc.frames ++ fs, acc.truncated⟩ m s)
    (htorn : q ≠ [] → isLast = true → Q ⟨a + fs.length, epoch, acc.frames ++ fs, true⟩ m
      (s.withDisk (s.disk.put (segName a) (f.truncate (f.combined.length - q.length))))) :
    wp F (scanSegment isFirst isLast a acc) Q E C m s := by
  refine wp_bind (wp_io (wp_ofFile hcut (fun k hk => absurd hk (hF k)) ?_
    (fun hnone => by rw [hget] at hnone; cases hnone)))
  intro f' hf'
  obtain rfl : f = f' := Option.some.inj (hget.symm.trans hf')
  have hparse : parseSegmentHeader (segName a) f.combined = .ok ⟨a, epoch⟩ := by
    rw [hbytes]
    exact parseSegmentHeader_bytes hlt epoch _ _
  refine wp_bind (wp_ofExcept ?_ (fun e he => by rw [hparse] at he; cases he))
  intro header hheader
  obtain rfl : _ = header := Except.ok.inj (hparse.symm.trans hheader)
  have hexpected : (if isFirst = true then a else acc.expectedNext) = a := by
    rcases hexp with hfirst | hnext
    · rw [if_pos hfirst]
    · split
      · rfl
      · exact hnext
  have hbody : f.combined.drop SEGMENT_HEADER_LEN = encodeAll fs ++ q := by
    rw [hbytes, List.drop_left' (segmentHeaderBytes_length a epoch)]
  have hfuel : (encodeAll fs ++ q).length ≤ f.combined.length := by
    rw [hbytes]
    exact Nat.le_trans (Nat.le_add_left ..) List.length_append.ge
  simp only [hexpected, ne_eq, not_true_eq_false, if_false, hbody]
  rcases scanFrames_encodeAll hrun hq hfuel with hov | ⟨fin, heq, hfin⟩
  · -- the seq after the last one does not fit
    have hmax : 2 ^ 64 ≤ a + fs.length := by
      refine Nat.le_of_not_lt fun hlt' => ?_
      exact scanFrames_no_overflow hrun hlt' hq f.combined.length hov
    revert hov
    generalize scanFrames f.combined.length (encodeAll fs ++ q) a = res
    rcases res with ⟨fs', next, fin⟩
    rintro rfl
    exact wp_panic (hover hmax)
  · rw [heq]
    rcases hfin with ⟨hnil, rfl⟩ | ⟨hne, e, rfl⟩
    · exact wp_pure (hclean hnil)
    · cases isLast with
      | false => exact wp_fail (hcorrupt hne rfl _)
      | true =>
        simp only [endSegment, if_true]
        refine wp_bind (wp_io (wp_onFile hcut (fun k hk => absurd hk (hF k)) ?_
          (fun hnone => by rw [hget] at hnone; cases hnone)))
        intro f' hf'
        obtain rfl : f = f' := Option.some.inj (hget.symm.trans hf')
        exact wp_pure (htorn hne rfl)

/-- A segment without a whole header is refused. -/
theorem wp_scanSegment_headless (hF : ∀ k, ¬F (.fault k)) {isFirst isLast : Bool} {a : ℕ}
    {acc : Scan} {f : FileData} {Q : Scan → μ → JStore → Prop}
    (hget : s.disk.get (segName a) = some f)
    (hbad : ∃ e, parseSegmentHeader (segName a) f.combined = .error e) (hcut : F .cut → C s)
    (hE : ∀ e, E e m s) : wp F (scanSegment isFirst isLast a acc) Q E C m s := by
  refine wp_bind (wp_io (wp_ofFile hcut (fun k hk => absurd hk (hF k)) ?_ (fun _ => hE _)))
  intro f' hf'
  obtain rfl : f = f' := Option.some.inj (hget.symm.trans hf')
  obtain ⟨e, he⟩ := hbad
  exact wp_bind (wp_ofExcept (fun header hok => by rw [he] at hok; cases hok) (fun e _ => hE e))

/-- A segment that does not start where the one before it ended is refused. -/
theorem wp_scanSegment_gap (hF : ∀ k, ¬F (.fault k)) {isLast : Bool} {a : ℕ} {acc : Scan}
    {f : FileData} {epoch : UInt64} {Q : Scan → μ → JStore → Prop}
    (hget : s.disk.get (segName a) = some f) (hlt : a < 2 ^ 64)
    (hbytes : f.combined = segmentHeaderBytes a epoch) (hgap : a ≠ acc.expectedNext)
    (hcut : F .cut → C s) (hE : ∀ e, E e m s) :
    wp F (scanSegment false isLast a acc) Q E C m s := by
  refine wp_bind (wp_io (wp_ofFile hcut (fun k hk => absurd hk (hF k)) ?_ (fun _ => hE _)))
  intro f' hf'
  obtain rfl : f = f' := Option.some.inj (hget.symm.trans hf')
  have hparse : parseSegmentHeader (segName a) f.combined = .ok ⟨a, epoch⟩ := by
    rw [hbytes, ← List.append_nil (segmentHeaderBytes a epoch)]
    exact parseSegmentHeader_bytes hlt epoch _ _
  refine wp_bind (wp_ofExcept (fun header hheader => ?_) (fun e _ => hE e))
  obtain rfl : _ = header := Except.ok.inj (hparse.symm.trans hheader)
  simp only [Bool.false_eq_true, if_false, ne_eq, hgap, not_false_eq_true, if_true]
  exact wp_fail (hE _)

/-! ## Scanning all segments -/

theorem scanSegments_cons {isFirst : Bool} {first : ℕ} {l : List ℕ} (hne : l ≠ []) {acc : Scan} :
    (scanSegments isFirst (first :: l) acc : Prog μ JStore JournalError Scan) =
      (do
        let acc ← scanSegment isFirst false first acc
        scanSegments false l acc) := by
  cases l with
  | nil => exact absurd rfl hne
  | cons next rest => rfl

/-- **Scanning sealed segments** reads exactly their frames, whatever segments follow them. -/
theorem wp_scanSealed (hF : ∀ k, ¬F (.fault k)) {tape : List Frame} {pre rest : List (ℕ × FileData)} {b : ℕ}
    {isFirst : Bool} {acc : Scan} {Q : Scan → μ → JStore → Prop} (hne : rest ≠ []) (htape : SeqRun 1 tape)
    (hsealed : Sealed tape pre b) (hb : b - 1 ≤ tape.length) (hlt : b < 2 ^ 64)
    (hget : ∀ p ∈ pre, s.disk.get (segName p.1) = some p.2)
    (hexp : isFirst = true ∨ acc.expectedNext = startOf pre b) (hcut : F .cut → C s)
    (hrest : ∀ isFirst' acc',
      (isFirst' = isFirst ∧ pre = [] ∧ acc' = acc ∨
        isFirst' = false ∧ acc'.expectedNext = b ∧ acc'.truncated = acc.truncated ∧
          acc'.frames = acc.frames ++ span tape (startOf pre b) b) →
      wp F (scanSegments isFirst' (rest.map Prod.fst) acc') Q E C m s) :
    wp F (scanSegments isFirst ((pre ++ rest).map Prod.fst) acc) Q E C m s := by
  induction pre generalizing isFirst acc with
  | nil => exact hrest isFirst acc (Or.inl ⟨rfl, rfl, rfl⟩)
  | cons p pre ih =>
    obtain ⟨a, f⟩ := p
    obtain ⟨hpos, hle, hu, ⟨epoch, hbytes⟩, hsealed⟩ := hsealed
    have hstart := hsealed.startOf_le
    have hlen : a + (span tape a (startOf pre b)).length = startOf pre b := by
      rw [span_length (by omega)]
      omega
    rw [List.cons_append, List.map_cons, scanSegments_cons (by simp [hne])]
    refine wp_bind (wp_scanSegment hF epoch (span tape a (startOf pre b)) (q := [])
      (hget (a, f) (by simp)) ?_ (by omega) (span_run htape hpos (by omega)) (Or.inl rfl)
      (fun hne => absurd rfl hne) hexp hcut (fun hmax => ?_) (fun _ => ?_) (fun hne => absurd rfl hne))
    · rw [FileData.combined, hu, List.append_nil, List.append_nil, hbytes]
    · rw [hlen] at hmax
      omega
    · refine ih hsealed (fun p hp => hget p (List.mem_cons_of_mem _ hp)) (Or.inr hlen) ?_
      intro isFirst' acc' hcase
      refine hrest isFirst' acc' (Or.inr ?_)
      rcases hcase with ⟨rfl, rfl, rfl⟩ | ⟨rfl, hnext, htrunc, hframes⟩
      · exact ⟨rfl, hlen, rfl, rfl⟩
      · refine ⟨rfl, hnext, htrunc, ?_⟩
        rw [hframes, List.append_assoc, span_append hle hstart]
        rfl

/-- Sealed segments in front of the newest one. -/
theorem wp_scanSegments (hF : ∀ k, ¬F (.fault k)) {tape : List Frame} {pre : List (ℕ × FileData)}
    {last : ℕ × FileData} {b : ℕ} {isFirst : Bool} {acc : Scan} {Q : Scan → μ → JStore → Prop}
    (htape : SeqRun 1 tape) (hsealed : Sealed tape pre b) (hb : b - 1 ≤ tape.length)
    (hlt : b < 2 ^ 64) (hget : ∀ p ∈ pre, s.disk.get (segName p.1) = some p.2)
    (hexp : isFirst = true ∨ acc.expectedNext = startOf pre b) (hcut : F .cut → C s)
    (hlast : ∀ isFirst' acc',
      (isFirst' = isFirst ∧ pre = [] ∧ acc' = acc ∨
        isFirst' = false ∧ acc'.expectedNext = b ∧ acc'.truncated = acc.truncated ∧
          acc'.frames = acc.frames ++ span tape (startOf pre b) b) →
      wp F (scanSegment isFirst' true last.1 acc') Q E C m s) :
    wp F (scanSegments isFirst ((pre ++ [last]).map Prod.fst) acc) Q E C m s :=
  wp_scanSealed hF (List.cons_ne_nil last []) htape hsealed hb hlt hget hexp hcut hlast

/-! ## The whole opening -/

/-- What opening returns: the surviving frames, and a journal that holds them. -/
structure Reopened (config : JournalConfig) (s : JStore) (r : Recovered) (s' : JStore) : Prop where
  inv : JInv (s.ghost.tape.take r.journal.lastSeq) r.journal s'
  clean : r.journal.dirty = false
  config : r.journal.config = config
  ghost : s'.ghost = { s.ghost with window := .none }
  settled : Settled s'
  intact : IntactTo s r.journal.lastSeq
  durable : s.ghost.durable ≤ r.journal.lastSeq
  bound : r.journal.lastSeq ≤ s.ghost.tape.length
  frames : r.frames = span s.ghost.tape r.firstSeq (r.journal.lastSeq + 1)
  first : r.firstSeq = startOf (segs s') (r.journal.lastSeq + 1)
  first_pos : 1 ≤ r.firstSeq
  first_le : r.firstSeq ≤ r.journal.lastSeq + 1
  floor : r.firstSeq ≤ s.ghost.cutoff + 1

/-- The first seq of a scan that read the frames from `a` up to and including `k`. -/
theorem Scan.firstSeq_eq {tape : List Frame} {a k : ℕ} {acc : Scan} (htape : SeqRun 1 tape)
    (ha : 1 ≤ a) (hle : a ≤ k + 1) (hk : k ≤ tape.length) (hframes : acc.frames = span tape a (k + 1))
    (hnext : acc.expectedNext = k + 1) : acc.firstSeq = a := by
  have hlen : acc.frames.length = k + 1 - a := by
    rw [hframes, span_length (by omega)]
    omega
  have hrun : SeqRun a acc.frames := by
    rw [hframes]
    exact span_run htape ha (by omega)
  unfold Scan.firstSeq
  cases hfs : acc.frames with
  | nil =>
    rw [hfs, List.length_nil] at hlen
    simp only [hnext]
    omega
  | cons f fs =>
    rw [hfs] at hrun
    exact hrun.1

/-- The end of `open_with`, once the segments were scanned. -/
theorem wp_reopenLast (hF : ∀ k, ¬F (.fault k)) {l : List (ℕ × FileData)} {n : ℕ}
    {Q : Option OpenSegment → μ → JStore → Prop} (hsegs : (segs s).map Prod.fst = l.map Prod.fst)
    (hcut : F .cut → C s)
    (hnone : l = [] → Q none m s)
    (hsome : ∀ pre a f size, l = pre ++ [(a, f)] → Q (some ⟨a, size, n⟩) m s) :
    wp F (reopenLast (l.map Prod.fst) n) Q E C m s := by
  rcases List.eq_nil_or_concat l with rfl | ⟨pre, ⟨a, f⟩, rfl⟩
  · exact wp_pure (hnone rfl)
  · have hget : ∃ g, s.disk.get (segName a) = some g := by
      have hmem : a ∈ (segs s).map Prod.fst := by rw [hsegs]; simp
      obtain ⟨p, hp, rfl⟩ := List.mem_map.mp hmem
      exact ⟨p.2, mem_filesOf.mp hp⟩
    obtain ⟨g, hg⟩ := hget
    unfold reopenLast
    rw [List.concat_eq_append, List.map_append, List.map_singleton, List.getLast?_concat]
    refine wp_bind (wp_io (wp_ofFile hcut (fun k hk => absurd hk (hF k)) (fun _ _ => ?_)
      (fun hnone => by rw [hg] at hnone; cases hnone)))
    refine wp_bind (wp_io (wp_ofFile hcut (fun k hk => absurd hk (hF k)) (fun _ _ => ?_)
      (fun hnone => by rw [hg] at hnone; cases hnone)))
    exact wp_pure (hsome pre a f _ List.concat_eq_append)

/-- The store that the scan of an intact store leaves, and what it accumulated. -/
structure Scanned (s : JStore) (k : ℕ) (acc : Scan) (s' : JStore) : Prop where
  next : acc.expectedNext = k + 1
  frames : acc.frames = span s.ghost.tape (startOf (segs s) (k + 1)) (k + 1)
  ghost : s'.ghost = s.ghost
  settled : Settled s'
  names : (segs s').map Prod.fst = (segs s).map Prod.fst
  start : startOf (segs s') (k + 1) = startOf (segs s) (k + 1)
  layout : (segs s' = [] ∧ k = 0) ∨ ∃ pre a f, segs s' = pre ++ [(a, f)] ∧
    Chain s.ghost.tape pre a k f [] ∧ startOf pre a ≤ s.ghost.cutoff + 1

/-- **Scanning an intact store.** -/
theorem wp_scan_intact (hF : ∀ k, ¬F (.fault k)) {k : ℕ} {Q : Scan → μ → JStore → Prop}
    (hrun : SeqRun 1 s.ghost.tape) (hsettled : Settled s) (hintact : IntactTo s k)
    (hcut : F .cut → C s) (hover : 2 ^ 64 ≤ s.ghost.tape.length + 1 → C s)
    (hQ : ∀ acc s', Scanned s k acc s' → Q acc m s') :
    wp F (scanSegments true ((segs s).map Prod.fst) Scan.start) Q E C m s := by
  rcases hintact with ⟨hnil, rfl⟩ | ⟨pre, a, f, q, hsegs, hchain, hq, hfloor⟩
  · rw [hnil]
    exact wp_pure (hQ _ _ ⟨rfl, by rw [hnil]; simp [startOf, Scan.start], rfl, hsettled, rfl, rfl,
      Or.inl ⟨hnil, rfl⟩⟩)
  have hmem : ∀ p ∈ pre ++ [(a, f)], s.disk.get (segName p.1) = some p.2 := by
    rw [← hsegs]
    exact fun p hp => mem_filesOf.mp hp
  have hpos := hchain.pos
  have hle := hchain.le
  have hbound := hchain.bound
  have hu : f.unsynced = [] := hsettled _ _ (hmem (a, f) (by simp))
  obtain ⟨epoch, hbytes⟩ := hchain.bytes
  have hcomb : f.combined = segmentHeaderBytes a epoch ++
      (encodeAll (span s.ghost.tape a (k + 1)) ++ q) := by
    rw [FileData.combined, hu, List.append_nil, hbytes]
  have hlen : a + (span s.ghost.tape a (k + 1)).length = k + 1 := by
    rw [span_length (by omega)]
    omega
  have hstart : startOf (segs s) (k + 1) = startOf pre a := by
    rw [hsegs, startOf_append]
  rw [hsegs]
  refine wp_scanSegments hF hrun hchain.sealed (by omega) hchain.lt
    (fun p hp => hmem p (by simp [hp])) (Or.inl rfl) hcut ?_
  intro isFirst' acc' hcase
  have hframes : acc'.frames ++ span s.ghost.tape a (k + 1) =
      span s.ghost.tape (startOf (segs s) (k + 1)) (k + 1) := by
    rw [hstart]
    rcases hcase with ⟨-, rfl, rfl⟩ | ⟨-, -, -, hfs⟩
    · rfl
    · rw [hfs]
      show [] ++ _ ++ _ = _
      rw [List.nil_append, span_append hchain.sealed.startOf_le hle]
  refine wp_scanSegment hF _ _ (hmem (a, f) (by simp)) hcomb hchain.lt
    (span_run hrun hpos (by omega)) hq (fun _ hlast => absurd hlast (by decide)) ?_ hcut (fun hmax => ?_) ?_ ?_
  · rcases hcase with ⟨rfl, -, -⟩ | ⟨-, hnext, -, -⟩
    · exact Or.inl rfl
    · exact Or.inr hnext
  · rw [hlen] at hmax
    exact hover (by omega)
  · rintro rfl
    exact hQ _ _ ⟨hlen, hframes, rfl, hsettled, rfl, rfl, Or.inr ⟨pre, a, f, hsegs, hchain, hfloor⟩⟩
  · intro _ _
    have hsegs' : filesOf .seg (s.disk.put (segName a) (f.truncate (f.combined.length - q.length)))
        = pre ++ [(a, f.truncate (f.combined.length - q.length))] := filesOf_put hsegs _
    refine hQ _ _ ⟨hlen, hframes, rfl, ?_, ?_, ?_,
      Or.inr ⟨pre, a, _, hsegs', hchain.truncate hu, hfloor⟩⟩
    · intro n g hg
      by_cases hn : segName a = n
      · subst hn
        rw [Store.withDisk_disk, Disk.get_put_self] at hg
        rw [← Option.some.inj hg]
        rfl
      · rw [Store.withDisk_disk, Disk.get_put_of_ne _ _ hn] at hg
        exact hsettled n g hg
    · show (filesOf .seg _).map _ = _
      rw [Store.withDisk_disk, hsegs', hsegs, List.map_append, List.map_append]
      rfl
    · show startOf (filesOf .seg _) _ = _
      rw [Store.withDisk_disk, hsegs', startOf_append, hstart]

theorem Scanned.loss {k : ℕ} {acc : Scan} {s' : JStore} (h : Scanned s k acc s')
    (hrun : SeqRun 1 s.ghost.tape) (hdurable : s.ghost.durable ≤ k) : JLoss s' := by
  refine ⟨h.settled, h.ghost ▸ hrun, Or.inl ⟨k, ?_, h.ghost ▸ hdurable⟩⟩
  rcases h.layout with hnil | ⟨pre, a, f, hsegs, hchain, hfloor⟩
  · exact Or.inl hnil
  · exact Or.inr ⟨pre, a, f, [], hsegs, h.ghost ▸ hchain, Or.inl rfl, h.ghost ▸ hfloor⟩

theorem IntactTo.bound {k : ℕ} (h : IntactTo s k) : k ≤ s.ghost.tape.length := by
  rcases h with ⟨-, rfl⟩ | ⟨pre, a, f, q, -, hchain, -⟩
  · exact Nat.zero_le _
  · exact hchain.bound

theorem IntactTo.start {k : ℕ} (h : IntactTo s k) :
    1 ≤ startOf (segs s) (k + 1) ∧ startOf (segs s) (k + 1) ≤ k + 1 ∧
      startOf (segs s) (k + 1) ≤ s.ghost.cutoff + 1 := by
  rcases h with ⟨hnil, rfl⟩ | ⟨pre, a, f, q, hsegs, hchain, -, hfloor⟩
  · rw [hnil]
    exact ⟨Nat.le_refl 1, Nat.le_refl 1, Nat.le_add_left 1 _⟩
  · rw [hsegs, startOf_append]
    exact ⟨hchain.sealed.startOf_pos hchain.pos, Nat.le_trans hchain.sealed.startOf_le hchain.le,
      hfloor⟩

/-- The journal that `open_with` assembles. -/
theorem Scanned.reopened {k : ℕ} {acc : Scan} {s' : JStore} {config : JournalConfig}
    {current : Option OpenSegment} {now : ℕ} (h : Scanned s k acc s')
    (hrun : SeqRun 1 s.ghost.tape) (hintact : IntactTo s k) (hdurable : s.ghost.durable ≤ k)
    (hcurrent : match current with
      | none => segs s' = []
      | some c => ∃ pre a f, segs s' = pre ++ [(a, f)] ∧ c.file = a) :
    Reopened config s
      { journal := ⟨config, current, acc.expectedNext - 1, acc.epoch, now, false⟩
        frames := acc.frames
        firstSeq := acc.firstSeq
        truncatedTornTail := acc.truncated }
      { s' with ghost := { s'.ghost with window := .none } } := by
  have hbound := hintact.bound
  obtain ⟨hpos, hle, hfloor⟩ := hintact.start
  have hlast : acc.expectedNext - 1 = k := by rw [h.next, Nat.add_sub_cancel]
  have hfirst : acc.firstSeq = startOf (segs s) (k + 1) :=
    Scan.firstSeq_eq hrun hpos hle hbound h.frames h.next
  refine
    { inv := ?_, clean := rfl, config := rfl, ghost := by rw [h.ghost], settled := h.settled
      intact := by rw [hlast]; exact hintact
      durable := by rw [hlast]; exact hdurable
      bound := by rw [hlast]; exact hbound
      frames := by rw [hlast, hfirst, h.frames]
      first := by rw [hlast, hfirst]; exact h.start.symm
      first_pos := by rw [hfirst]; exact hpos
      first_le := by rw [hlast, hfirst]; exact hle
      floor := by rw [hfirst]; exact hfloor }
  have htake : (s.ghost.tape.take k).length = k := by rw [List.length_take, Nat.min_eq_left hbound]
  simp only [hlast]
  refine ⟨h.ghost ▸ hrun, ⟨k, by rw [h.ghost]⟩, htake.symm, ?_⟩
  unfold Holds
  cases current with
  | none =>
    rcases h.layout with ⟨hnil, rfl⟩ | ⟨pre, a, f, hsegs, -, -⟩
    · exact ⟨hnil, List.take_zero, by rw [h.ghost]; exact Nat.le_zero.mp hdurable⟩
    · rw [hsegs] at hcurrent
      simp at hcurrent
  | some c =>
    obtain ⟨pre', a', f', hsegs', hfile⟩ := hcurrent
    rcases h.layout with ⟨hnil, -⟩ | ⟨pre, a, f, hsegs, hchain, hfloor'⟩
    · rw [hnil] at hsegs'
      simp at hsegs'
    · rw [hsegs] at hsegs'
      obtain ⟨rfl, heq⟩ := List.append_inj' hsegs' rfl
      obtain ⟨rfl, rfl⟩ := Prod.mk.inj (List.cons.inj heq).1
      have hu : f.unsynced = [] := h.settled (segName a) f
        (mem_filesOf.mp (by rw [show filesOf .seg s'.disk = _ from hsegs]; simp))
      refine ⟨pre, a, f, k, hsegs, hfile, hchain.take (Nat.le_refl k), ?_, ?_, ?_, fun _ => htake.symm⟩
      · rw [hu, List.drop_of_length_le (by rw [htake]), encodeAll_nil]
      · rw [h.ghost]
        exact hdurable
      · rw [h.ghost]
        exact hfloor'

/-- A store that is not intact is refused and stays as it is. -/
theorem wp_scan_broken (hF : ∀ k, ¬F (.fault k)) {Q : Scan → μ → JStore → Prop}
    (hrun : SeqRun 1 s.ghost.tape) (hbroken : HeaderTorn s ∨ Hole s) (hcut : F .cut → C s)
    (hE : ∀ e, E e m s) :
    wp F (scanSegments true ((segs s).map Prod.fst) Scan.start) Q E C m s := by
  have hmem : ∀ p ∈ segs s, s.disk.get (segName p.1) = some p.2 := fun p hp => mem_filesOf.mp hp
  rcases hbroken with ⟨-, pre, b, a, f, hsegs, hsealed, hb, hlt, hbad⟩ |
    ⟨-, pre, b, a, f, epoch, hne, hsegs, hsealed, hb, hlt, hlt', hbytes⟩
  · rw [hsegs] at hmem ⊢
    refine wp_scanSegments hF hrun hsealed hb hlt (fun p hp => hmem p (by simp [hp]))
      (Or.inl rfl) hcut fun isFirst' acc' _ => ?_
    exact wp_scanSegment_headless hF (hmem (a, f) (by simp)) (hbad _) hcut hE
  · rw [hsegs] at hmem ⊢
    refine wp_scanSegments hF hrun hsealed hb (by omega) (fun p hp => hmem p (by simp [hp]))
      (Or.inl rfl) hcut ?_
    rintro isFirst' acc' (⟨-, hnil, -⟩ | ⟨rfl, hnext, -, -⟩)
    · exact absurd hnil hne
    · exact wp_scanSegment_gap hF (hmem (a, f) (by simp)) hlt' hbytes (by omega) hcut hE

/-- **Opening a journal** after a power loss. On an intact store it succeeds, unless a seq
overflows; an error means the store was not intact, and leaves it unchanged. -/
theorem wp_openWith (hF : ∀ k, ¬F (.fault k)) (h : JLoss s) (config : JournalConfig)
    (hcut : F .cut → ∀ s', Settled s' → JCrash s' → s'.ghost = s.ghost → C s')
    (hover : 2 ^ 64 ≤ s.ghost.tape.length + 1 → C s) :
    wp F (openWith config) (fun r m' s' => m' = m ∧ Reopened config s r s')
      (fun _ m' s' => m' = m ∧ s' = s ∧ ¬Intact s) C m s := by
  have hcut₀ : F .cut → C s := fun hc => hcut hc s h.settled h.crash rfl
  refine wp_bind (wp_io (wp_createDirAll hcut₀ (fun k hk => absurd hk (hF k)) ?_))
  refine wp_bind (wp_io (wp_listDir hcut₀ (fun k hk => absurd hk (hF k)) ?_))
  simp only [sortedNumbers_names]
  by_cases hintact : Intact s
  · obtain ⟨k, hk, hdurable⟩ := hintact
    refine wp_bind (wp_scan_intact hF h.run h.settled hk hcut₀ hover ?_)
    intro acc s' hscan
    have hcut' : F .cut → C s' := fun hc =>
      hcut hc s' hscan.settled (hscan.loss h.run hdurable).crash hscan.ghost
    rw [← hscan.names]
    refine wp_bind (wp_reopenLast hF rfl hcut' ?_ ?_)
    · intro hnil
      refine wp_bind (wp_instant fun now => wp_bind (wp_record (wp_pure ⟨rfl, ?_⟩)))
      exact hscan.reopened h.run hk hdurable hnil
    · intro pre a f size hsegs
      refine wp_bind (wp_instant fun now => wp_bind (wp_record (wp_pure ⟨rfl, ?_⟩)))
      exact hscan.reopened h.run hk hdurable ⟨pre, a, f, hsegs, rfl⟩
  · exact wp_bind (wp_scan_broken hF h.run (h.shape.resolve_left hintact) hcut₀
      fun _ => ⟨rfl, rfl, hintact⟩)

end Ticktape.Journal
