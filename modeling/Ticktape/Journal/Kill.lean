import Ticktape.Journal.Live
import Ticktape.Journal.Run

/-!
# Processes that are killed

A killed process loses nothing that it wrote: the page cache stays, synced or not. The next process
reads all of it back, and serves it, but starts with `dirty = false`, so its `sync` and the sync in
`roll_segment` skip bytes that only the killed process wrote. A power loss may then take frames
that a returned sync covered (`sync_skips_inherited`). `sync_covers_served` says when it cannot.
-/

namespace Ticktape.Journal

open Ticktape.Lib Ticktape.Core

/-! ## What a killed process leaves -/

/-- The bytes of a segment that starts at `a`, with the frames of `t` from there up to and
including `k`. -/
def segmentBytes (t : List Frame) (a k : ℕ) (epoch : UInt64) : Bytes :=
  segmentHeaderBytes a epoch ++ encodeAll (span t a (k + 1))

/-- The segments are `pre`, sealed, and a newest one that is there to hold the frames of `t` from `a` on. -/
structure Listed (s : JStore) (t : List Frame) (pre : List (ℕ × FileData)) (a : ℕ) (f : FileData) :
    Prop where
  run : SeqRun 1 t
  listing : segs s = pre ++ [(a, f)]
  sealed : Sealed t pre a
  pos : 1 ≤ a
  le : a ≤ t.length + 1
  lt : t.length + 1 < 2 ^ 64

/-- What is left of a file that was to hold the bytes `whole`: its first bytes, or, after a power loss,
which also syncs what it leaves, perhaps damaged ones. -/
def Left (whole : Bytes) (f : FileData) : Prop :=
  f.combined <+: whole ∨ f.unsynced = [] ∧ Torn whole f.combined

/-- **The directory of a process that is gone.** -/
def Down (s : JStore) : Prop :=
  segs s = [] ∨ ∃ t pre a f epoch, Listed s t pre a f ∧ Left (segmentBytes t a t.length epoch) f

/-- The frames `served` are on the segments, in order, from `lo` up to and including `hi`. -/
def Held (served t : List Frame) (lo hi : ℕ) : Prop := ∀ g ∈ served, g ∈ t ∧ lo ≤ g.seq ∧ g.seq ≤ hi

/-- **The frames `served` are durable.** -/
def Durably (served : List Frame) (s : JStore) : Prop :=
  (segs s = [] ∧ served = []) ∨ ∃ t pre a f epoch k, Listed s t pre a f ∧
    Left (segmentBytes t a t.length epoch) f ∧ a ≤ k + 1 ∧ k ≤ t.length ∧
    segmentBytes t a k epoch <+: f.synced ∧ Held served t (startOf pre a) k

section Leaving

variable {s s' : JStore} {t : List Frame} {pre : List (ℕ × FileData)} {a k : ℕ} {f : FileData}
  {epoch : UInt64} {served : List Frame}

theorem segmentBytes_append (ha : a ≤ k + 1) (hk : k ≤ t.length) :
    segmentBytes t a k epoch ++ encodeAll (t.drop k) = segmentBytes t a t.length epoch := by
  rw [segmentBytes, segmentBytes, List.append_assoc, ← encodeAll_append, ← span_to_end,
    span_append ha (by omega)]

theorem Left.torn {whole : Bytes} (h : Left whole f) : Torn whole f.combined :=
  h.elim Torn.of_prefix And.right

theorem Left.survives {whole : Bytes} {f' : FileData} (h : Left whole f) (hs : f.Survives f') :
    Left whole f' := by
  refine Or.inr ⟨hs.unsynced_eq, ?_⟩
  rcases h with ⟨r, hr⟩ | ⟨hu, htorn⟩
  · obtain ⟨q, hq, rfl⟩ := hs
    rw [← hr, FileData.combined, FileData.combined, List.append_nil, List.append_assoc]
    exact (hq.append_right r).append_left f.synced
  · rwa [hs.eq_of_synced hu]

theorem Listed.powerLoss (h : Listed s t pre a f) (hl : s.PowerLoss s') :
    ∃ f', Listed s' t pre a f' ∧ f.Survives f' := by
  obtain ⟨f', hsegs, hs⟩ := segs_powerLoss hl h.listing h.sealed
  exact ⟨f', ⟨h.run, hsegs, h.sealed, h.pos, h.le, h.lt⟩, hs⟩

theorem segs_nil_powerLoss (h : segs s = []) (hl : s.PowerLoss s') : segs s' = [] := by
  have hall := filesOf_powerLoss (e := .seg) hl.1
  rw [show filesOf .seg s.disk = [] from h] at hall
  exact List.forall₂_nil_left_iff.mp hall

/-- Losing power afterwards makes it no worse. -/
theorem Down.powerLoss (h : Down s) (hl : s.PowerLoss s') : Down s' := by
  rcases h with hnil | ⟨t, pre, a, f, epoch, hlist, hleft⟩
  · exact Or.inl (segs_nil_powerLoss hnil hl)
  · obtain ⟨f', hlist', hs⟩ := hlist.powerLoss hl
    exact Or.inr ⟨t, pre, a, f', epoch, hlist', hleft.survives hs⟩

/-- **What is durable survives.** -/
theorem Durably.powerLoss (h : Durably served s) (hl : s.PowerLoss s') : Durably served s' := by
  rcases h with ⟨hnil, hserved⟩ | ⟨t, pre, a, f, epoch, k, hlist, hleft, ha, hk, hsynced, hheld⟩
  · exact Or.inl ⟨segs_nil_powerLoss hnil hl, hserved⟩
  · obtain ⟨f', hlist', hs⟩ := hlist.powerLoss hl
    refine Or.inr ⟨t, pre, a, f', epoch, k, hlist', hleft.survives hs, ha, hk, ?_, hheld⟩
    obtain ⟨q, -, rfl⟩ := hs
    exact hsynced.trans (List.prefix_append _ _)

/-- Where the first bytes are whole, frames can be read, and behind them nothing that is a frame. -/
theorem Listed.reads (h : Listed s t pre a f)
    (htorn : Torn (segmentBytes t a t.length epoch) f.combined) (ha : a ≤ k + 1) (hk : k ≤ t.length)
    (hwhole : segmentBytes t a k epoch <+: f.combined) :
    ∃ n q, k ≤ n ∧ n ≤ t.length ∧ ReadsAs s (t.take n) pre a f q ∧
      (q = [] ∨ ∃ e, Frame.readFrom q = .error e) := by
  obtain ⟨rest, hrest⟩ := hwhole
  rw [← segmentBytes_append ha hk, ← hrest] at htorn
  obtain ⟨i, q, hi, rfl, hq⟩ := encodeAll_torn _ htorn.cancel_left
  rw [List.length_drop] at hi
  have hlength : (t.take (k + i)).length = k + i := by
    rw [List.length_take]
    omega
  have htake : ∀ n, n ≤ k + i → (t.take (k + i)).take n = t.take n := fun n hn => by
    rw [List.take_take, Nat.min_eq_left hn]
  refine ⟨k + i, q, by omega, by omega, ⟨h.listing, ?_, h.pos, by omega, ?_, epoch, ?_⟩, hq⟩
  · exact h.sealed.congr (htake _ (by omega))
  · have := h.lt
    have := h.le
    omega
  · have hfirst : span (t.take (k + i)) a (k + 1) = span t a (k + 1) := span_congr (htake _ (by omega))
    have hnext : span (t.take (k + i)) (k + 1) (k + i + 1) = (t.drop k).take i := by
      rw [span, htake _ (by omega), Nat.add_sub_cancel, Nat.add_sub_cancel, List.take_drop]
    rw [hlength, ← span_append ha (by omega : k + 1 ≤ k + i + 1), hfirst, hnext, ← hrest, segmentBytes,
      encodeAll_append]
    simp only [List.append_assoc]

end Leaving

/-! ## The open journal -/

/-- How the frames `t` lie on the directory, synced or not; once `covered`, the frames `served` among
them are durable. -/
def Laid (served : List Frame) (covered : Bool) (t : List Frame) (j : Journal) (s : JStore) : Prop :=
  match j.current with
  | none => segs s = [] ∧ t = [] ∧ served = []
  | some c => ∃ pre f epoch, Listed s t pre c.file f ∧
      f.combined = segmentBytes t c.file t.length epoch ∧
      Held served t (startOf pre c.file) t.length ∧
      (covered = true → ∃ k, c.file ≤ k + 1 ∧ k ≤ t.length ∧ segmentBytes t c.file k epoch <+: f.synced ∧
        Held served t (startOf pre c.file) k)

/-- **The invariant of an open journal** that served the frames `served` when it was opened. -/
structure Serves (served : List Frame) (covered : Bool) (t : List Frame) (j : Journal) (s : JStore) :
    Prop where
  run : SeqRun 1 t
  last : j.lastSeq = t.length
  lt : t.length + 1 < 2 ^ 64
  laid : Laid served covered t j s

/-- A sync would leave nothing unsynced: something was written since the journal was opened or last synced, or
there is nothing to sync in the newest segment. -/
def Flushable (j : Journal) (s : JStore) : Prop :=
  j.dirty = true ∨
    ∀ c f, j.current = some c → s.disk.get (segName c.file) = some f → f.unsynced = []

/-- **The process may go down here.** What was served is safe, unless a new segment was just being started. -/
def Wreck (served : List Frame) (covered : Bool) (s : JStore) : Prop :=
  Down s ∧ (s.ghost.window = .none → covered = true → Durably served s)

section Serving

variable {served : List Frame} {covered : Bool} {t : List Frame} {j : Journal} {s : JStore}

theorem Held.mono {lo lo' hi hi' : ℕ} (h : Held served t lo hi) (hlo : lo' ≤ lo) (hhi : hi ≤ hi') :
    Held served t lo' hi' := by
  intro g hg
  obtain ⟨hmem, hlow, hhigh⟩ := h g hg
  exact ⟨hmem, by omega, by omega⟩

theorem Held.extend {lo hi : ℕ} (h : Held served t lo hi) (frames : List Frame) :
    Held served (t ++ frames) lo hi := fun g hg =>
  ⟨List.mem_append_left _ (h g hg).1, (h g hg).2⟩

theorem Listed.get {pre : List (ℕ × FileData)} {a : ℕ} {f : FileData} (h : Listed s t pre a f) :
    s.disk.get (segName a) = some f :=
  mem_filesOf.mp (by rw [show filesOf .seg s.disk = _ from h.listing]; simp)

theorem Listed.put {pre : List (ℕ × FileData)} {a : ℕ} {f : FileData} (h : Listed s t pre a f)
    (f' : FileData) : Listed (s.withDisk (s.disk.put (segName a) f')) t pre a f' :=
  ⟨h.run, filesOf_put h.listing f', h.sealed, h.pos, h.le, h.lt⟩

theorem Serves.gone (h : Serves served covered t j s) :
    Down s ∧ (covered = true → Durably served s) := by
  have hlaid := h.laid
  unfold Laid at hlaid
  split at hlaid
  · obtain ⟨hnil, -, hserved⟩ := hlaid
    exact ⟨Or.inl hnil, fun _ => Or.inl ⟨hnil, hserved⟩⟩
  · rename_i c _
    obtain ⟨pre, f, epoch, hlist, hwhole, -, hcovered⟩ := hlaid
    have hleft : Left (segmentBytes t c.file t.length epoch) f :=
      Or.inl ⟨[], by rw [hwhole, List.append_nil]⟩
    refine ⟨Or.inr ⟨t, pre, _, f, epoch, hlist, hleft⟩, fun hcov => ?_⟩
    obtain ⟨k, ha, hk, hsynced, hheld⟩ := hcovered hcov
    exact Or.inr ⟨t, pre, _, f, epoch, k, hlist, hleft, ha, hk, hsynced, hheld⟩

theorem Serves.wreck (h : Serves served covered t j s) : Wreck served covered s :=
  ⟨h.gone.1, fun _ => h.gone.2⟩

theorem Wreck.mono (h : Wreck served true s) : Wreck served covered s :=
  ⟨h.1, fun hwindow _ => h.2 hwindow rfl⟩

theorem Serves.mono (h : Serves served true t j s) : Serves served covered t j s := by
  refine ⟨h.run, h.last, h.lt, ?_⟩
  have hlaid := h.laid
  unfold Laid at hlaid ⊢
  split at hlaid
  · exact hlaid
  · obtain ⟨pre, f, epoch, hlist, hwhole, hheld, hcovered⟩ := hlaid
    exact ⟨pre, f, epoch, hlist, hwhole, hheld, fun _ => hcovered rfl⟩

/-- Only the directory, the open segment and the last seq matter. -/
theorem Serves.congr {j' : Journal} {s' : JStore} (h : Serves served covered t j s)
    (hdisk : s'.disk = s.disk) (hcur : j'.current = j.current) (hlast : j'.lastSeq = j.lastSeq) :
    Serves served covered t j' s' := by
  have hsegs : segs s' = segs s := by rw [segs, hdisk]
  refine ⟨h.run, hlast.trans h.last, h.lt, ?_⟩
  have hlaid := h.laid
  unfold Laid at hlaid ⊢
  rw [hcur]
  split at hlaid
  · rwa [hsegs]
  · obtain ⟨pre, f, epoch, hlist, hrest⟩ := hlaid
    exact ⟨pre, f, epoch, ⟨hlist.run, hsegs.trans hlist.listing, hlist.sealed, hlist.pos, hlist.le,
      hlist.lt⟩, hrest⟩

/-- All segments are sealed, and hold what was served. -/
structure SealedOff (served t : List Frame) (s : JStore) : Prop where
  sealed : Sealed t (segs s) (t.length + 1)
  names : ∀ p ∈ segs s, p.1 ≤ t.length + 1
  held : Held served t (startOf (segs s) (t.length + 1)) t.length

theorem SealedOff.congr {s' : JStore} (h : SealedOff served t s) (hdisk : s'.disk = s.disk) :
    SealedOff served t s' := by
  have hsegs : segs s' = segs s := by rw [segs, hdisk]
  exact ⟨hsegs ▸ h.sealed, hsegs ▸ h.names, hsegs ▸ h.held⟩

/-- Without unsynced bytes everything is durable. -/
theorem Serves.flushed (h : Serves served covered t j s)
    (hu : ∀ c f, j.current = some c → s.disk.get (segName c.file) = some f → f.unsynced = []) :
    Serves served true t j s ∧ SealedOff served t s := by
  have hlaid := h.laid
  unfold Laid at hlaid
  cases hcur : j.current with
  | none =>
    rw [hcur] at hlaid
    obtain ⟨hnil, ht, hserved⟩ := hlaid
    refine ⟨⟨h.run, h.last, h.lt, ?_⟩, ?_, ?_, ?_⟩
    · unfold Laid
      rw [hcur]
      exact ⟨hnil, ht, hserved⟩
    · rw [hnil]
      trivial
    · simp [hnil]
    · simp [Held, hserved]
  | some c =>
    rw [hcur] at hlaid
    obtain ⟨pre, f, epoch, hlist, hwhole, hheld, -⟩ := hlaid
    have hnone : f.unsynced = [] := hu c f hcur hlist.get
    have hsynced : f.synced = segmentBytes t c.file t.length epoch := by
      rw [← hwhole, FileData.combined, hnone, List.append_nil]
    refine ⟨⟨h.run, h.last, h.lt, ?_⟩, ?_, ?_, ?_⟩
    · unfold Laid
      rw [hcur]
      exact ⟨pre, f, epoch, hlist, hwhole, hheld, fun _ => ⟨t.length, hlist.le, Nat.le_refl _,
        hsynced ▸ List.prefix_rfl, hheld⟩⟩
    · rw [hlist.listing]
      exact hlist.sealed.snoc hlist.pos hlist.le hnone hsynced
    · intro p hp
      have hsorted : (segs s).Pairwise (·.1 < ·.1) := filesOf_sorted
      rw [hlist.listing] at hp hsorted
      have hle := hlist.le
      rcases List.mem_append.mp hp with hp | hp
      · have hlt : p.1 < c.file := (List.pairwise_append.mp hsorted).2.2 p hp (c.file, f) (by simp)
        omega
      · rw [List.mem_singleton.mp hp]
        exact hle
    · rw [hlist.listing, startOf_append]
      exact hheld

end Serving

/-! ## Operations -/

section Operations

variable {F : Fate → Prop} {E : JournalError → Journal → JStore → Prop} {C : JStore → Prop}
  {served : List Frame} {covered : Bool} {t : List Frame} {j : Journal} {s : JStore}

/-- **Sync**, when it would skip nothing: what was served is durable. -/
theorem wp_sync_serves (hC : F .cut → C s) (hE : ∀ k, F (.fault k) → E (.io .injected) j s)
    (h : Serves served covered t j s) (hflush : Flushable j s) :
    wp F sync (fun _ j' s' => Serves served true t j' s' ∧ SealedOff served t s') E C j s := by
  -- the rest of `sync` touches neither the directory nor the open segment
  have hrest : ∀ {j₁ : Journal} {s₁ : JStore}, Serves served covered t j₁ s₁ →
      (∀ c f, j₁.current = some c → s₁.disk.get (segName c.file) = some f → f.unsynced = []) →
      wp F (do
        let now ← Prog.instant
        Prog.update fun j => { j with lastSync := now }
        let j ← Prog.mem
        record fun h => { h with durable := j.lastSeq })
        (fun _ j' s' => Serves served true t j' s' ∧ SealedOff served t s') E C j₁ s₁ := by
    intro j₁ s₁ h₁ hu
    refine wp_bind (wp_instant fun now => wp_bind (wp_update (wp_bind (wp_mem (wp_record ?_)))))
    obtain ⟨hserves, hsealed⟩ := h₁.flushed hu
    exact ⟨hserves.congr rfl rfl rfl, hsealed.congr rfl⟩
  refine wp_bind (wp_bind (wp_mem ?_))
  have hlaid := h.laid
  unfold Laid at hlaid
  cases hcur : j.current with
  | none => exact wp_pure (hrest h (by simp [hcur]))
  | some c =>
    rw [hcur] at hlaid
    obtain ⟨pre, f, epoch, hlist, hwhole, hheld, hcovered⟩ := hlaid
    refine wp_when (fun _ => ?_) (fun hclean => hrest h (hflush.resolve_left hclean))
    refine wp_bind (wp_io (wp_onFile hC hE ?_ ?_))
    · intro f' hf'
      obtain rfl : f = f' := Option.some.inj (hlist.get.symm.trans hf')
      refine wp_update (hrest ⟨h.run, h.last, h.lt, ?_⟩ ?_)
      · unfold Laid
        simp only [hcur]
        refine ⟨pre, f.sync, epoch, hlist.put f.sync, ?_, hheld, fun _ => ⟨t.length, hlist.le, Nat.le_refl _,
          ?_, hheld⟩⟩
        · rw [← hwhole]
          exact List.append_nil _
        · rw [← hwhole]
          exact List.prefix_rfl
      · intro c' f' hc' hf'
        obtain rfl : c = c' := Option.some.inj (hcur.symm.trans hc')
        rw [Store.withDisk_disk, Disk.get_put_self] at hf'
        rw [← Option.some.inj hf']
        rfl
    · intro hnone
      rw [hlist.get] at hnone
      cases hnone

theorem wp_maybeSync_serves (hC : F .cut → C s) (hE : ∀ k, F (.fault k) → E (.io .injected) j s)
    (h : Serves served covered t j s) (hdirty : j.dirty = true) :
    wp F maybeSync (fun _ j' s' => Serves served covered t j' s') E C j s := by
  have hsync : wp F sync (fun _ j' s' => Serves served covered t j' s') E C j s :=
    wp_mono (wp_sync_serves hC hE h (Or.inl hdirty)) (fun _ _ _ h => h.1.mono) (fun _ _ _ h => h)
      (fun _ h => h)
  refine wp_bind (wp_mem ?_)
  cases j.config.fsync with
  | everyFrame => exact hsync
  | micros window => exact wp_bind (wp_instant fun now => wp_when (fun _ => hsync) (fun _ => h))
  | never => exact wp_pure h

/-- **Rolling**, when its sync would skip nothing. If the next segment's file exists already, nothing
happens after the sync. -/
theorem wp_rollSegment_serves (h : Serves served covered t j s) (hflush : Flushable j s) :
    wp F (rollSegment (t.length + 1)) (fun _ j' s' => Serves served true t j' s' ∧ j'.current ≠ none)
      (fun e j' s' => Wreck served covered s' ∧ (e ≠ .io .injected → Serves served covered t j' s'))
      (Wreck served covered) j s := by
  refine wp_seq (wp_sync_serves (fun _ => h.wreck) (fun _ _ => ⟨h.wreck, fun _ => h⟩) h hflush) ?_
  rintro - j₁ s₁ ⟨h₁, hsealed⟩
  have hlist : ∀ {s' : JStore} {f : FileData}, segs s' = segs s₁ ++ [(t.length + 1, f)] →
      Listed s' t (segs s₁) (t.length + 1) f := fun hsegs =>
    ⟨h.run, hsegs, hsealed.sealed, by omega, Nat.le_refl _, h.lt⟩
  have hheader : ∀ epoch, segmentBytes t (t.length + 1) t.length epoch =
      segmentHeaderBytes (t.length + 1) epoch := fun epoch => by
    rw [segmentBytes, span_self, encodeAll_nil, List.append_nil]
  refine wp_startSegment_rule hsealed.names (fun _ => h₁.wreck.mono)
    (fun _ _ => ⟨h₁.wreck.mono, fun _ => h₁.mono⟩) (fun _ _ => ⟨h₁.wreck.mono, fun _ => h₁.mono⟩) ?_ ?_
  · -- the window in which the new segment has no whole header
    intro n s' hsegs hghost
    have hwreck : Wreck served covered s' := by
      refine ⟨Or.inr ⟨t, _, _, _, j₁.epoch, hlist hsegs, Or.inl ?_⟩, fun hwindow => ?_⟩
      · rw [hheader]
        exact List.take_prefix n _
      · rw [hghost] at hwindow
        cases hwindow
    refine ⟨fun _ => hwreck, fun k _ => ⟨hwreck, fun hne => absurd rfl hne⟩⟩
  · intro s' hsegs _
    have hserves : Serves served true t
        { j₁ with current := some ⟨t.length + 1, SEGMENT_HEADER_LEN, 0⟩ } s' := by
      refine ⟨h.run, h₁.last, h.lt, ?_⟩
      refine ⟨_, _, j₁.epoch, hlist hsegs, ?_, hsealed.held, fun _ => ⟨t.length, Nat.le_refl _, Nat.le_refl _,
        ?_, hsealed.held⟩⟩
      · rw [hheader]
        exact List.append_nil _
      · exact ⟨[], by rw [hheader, List.append_nil]⟩
    have hwreck : Wreck served covered s' := hserves.wreck.mono
    exact ⟨fun _ => hwreck, fun k _ => ⟨hwreck, fun hne => absurd rfl hne⟩, hserves, by simp⟩

theorem segmentBytes_extend {a k : ℕ} {epoch : UInt64} (hk : k ≤ t.length) (frames : List Frame) :
    segmentBytes (t ++ frames) a k epoch = segmentBytes t a k epoch := by
  rw [segmentBytes, segmentBytes, span_congr]
  rw [Nat.add_sub_cancel, List.take_append_of_le_length hk]

/-- **Writing frames** behind those that are there. -/
theorem wp_writeFrames_serves {frames : List Frame} {lastSeq len : ℕ} (h : Serves served covered t j s)
    (hmore : SeqRun (t.length + 1) frames) (hlen : t.length + frames.length + 1 < 2 ^ 64)
    (hlast : lastSeq = t.length + frames.length) (hflush : j.needsRoll len = true → Flushable j s) :
    wp F (writeFrames frames (t.length + 1) lastSeq len)
      (fun _ j' s' => Serves served (covered || j.needsRoll len) (t ++ frames) j' s')
      (fun e j' s' => Wreck served covered s' ∧ (e ≠ .io .injected → Serves served covered t j' s'))
      (Wreck served covered) j s := by
  have hall : SeqRun 1 (t ++ frames) := SeqRun.append.mpr ⟨h.run, by rw [Nat.add_comm]; exact hmore⟩
  have hlength : (t ++ frames).length = t.length + frames.length := List.length_append
  refine wp_bind (wp_mem (wp_seq (Q := fun _ j₁ s₁ =>
    Serves served (covered || j.needsRoll len) t j₁ s₁ ∧ j₁.current ≠ none)
    (wp_when (fun hroll => ?_) (fun hstay => ?_)) ?_))
  · refine wp_mono (wp_rollSegment_serves h (hflush hroll)) ?_ (fun _ _ _ h => h) (fun _ h => h)
    exact fun _ _ _ h => ⟨h.1.mono, h.2⟩
  · rw [Bool.not_eq_true] at hstay
    rw [hstay, Bool.or_false]
    refine ⟨h, fun hnone => ?_⟩
    simp [needsRoll, hnone] at hstay
  · rintro - j₁ s₁ ⟨h₁, hopen⟩
    have hweak : ∀ {s' : JStore}, Wreck served (covered || j.needsRoll len) s' → Wreck served covered s' :=
      fun hw => ⟨hw.1, fun hwindow hcov => hw.2 hwindow (by rw [hcov]; rfl)⟩
    refine wp_bind (wp_mem ?_)
    have hlaid := h₁.laid
    unfold Laid at hlaid
    cases hcur : j₁.current with
    | none => exact absurd hcur hopen
    | some c =>
      rw [hcur] at hlaid
      obtain ⟨pre, f, epoch, hlist, hwhole, hheld, hcovered⟩ := hlaid
      have hle := hlist.le
      -- the segment with the first `n` bytes of the frames behind it
      have hlist' : ∀ {s' : JStore} {f' : FileData}, segs s' = pre ++ [(c.file, f')] →
          Listed s' (t ++ frames) pre c.file f' := by
        intro s' f' hsegs
        refine ⟨hall, hsegs, hlist.sealed.congr ?_, hlist.pos, by omega, by omega⟩
        rw [List.take_append_of_le_length (by omega)]
      have hwhole' : segmentBytes (t ++ frames) c.file (t ++ frames).length epoch =
          f.combined ++ encodeAll frames := by
        rw [← segmentBytes_append (k := t.length) hle (by omega), segmentBytes_extend (Nat.le_refl _), hwhole,
          List.drop_left]
      have hcovered' : (covered || j.needsRoll len) = true → ∃ k, c.file ≤ k + 1 ∧
          k ≤ (t ++ frames).length ∧ segmentBytes (t ++ frames) c.file k epoch <+: f.synced ∧
          Held served (t ++ frames) (startOf pre c.file) k := by
        intro hcov
        obtain ⟨k, ha, hk, hsynced, hheld⟩ := hcovered hcov
        refine ⟨k, ha, by omega, ?_, hheld.extend frames⟩
        rwa [segmentBytes_extend hk]
      have htorn : ∀ n, Wreck served (covered || j.needsRoll len)
          (s₁.withDisk (s₁.disk.put (segName c.file) (f.write ((encodeAll frames).take n)))) := by
        intro n
        have hlisted : Listed
            (s₁.withDisk (s₁.disk.put (segName c.file) (f.write ((encodeAll frames).take n))))
            (t ++ frames) pre c.file (f.write ((encodeAll frames).take n)) :=
          hlist' (filesOf_put hlist.listing _)
        have hleft : Left (segmentBytes (t ++ frames) c.file (t ++ frames).length epoch)
            (f.write ((encodeAll frames).take n)) := by
          refine Or.inl ?_
          rw [hwhole']
          show f.synced ++ (f.unsynced ++ _) <+: f.synced ++ f.unsynced ++ _
          rw [← List.append_assoc]
          exact (List.prefix_append_right_inj _).mpr (List.take_prefix n _)
        refine ⟨Or.inr ⟨_, _, _, _, epoch, hlisted, hleft⟩, fun _ hcov => ?_⟩
        obtain ⟨k, ha, hk, hsynced, hheld⟩ := hcovered' hcov
        exact Or.inr ⟨_, _, _, _, epoch, k, hlisted, hleft, ha, hk, hsynced, hheld⟩
      refine wp_bind (wp_io (wp_writeAll (fun _ => hweak h₁.wreck) ?_ ?_ ?_))
      · intro n f' _ hf'
        obtain rfl : f = f' := Option.some.inj (hlist.get.symm.trans hf')
        exact ⟨hweak (htorn n), fun hne => absurd rfl hne⟩
      · intro e hnone
        rw [hlist.get] at hnone
        cases hnone
      · intro f' hf'
        obtain rfl : f = f' := Option.some.inj (hlist.get.symm.trans hf')
        refine wp_bind (wp_record (wp_bind (wp_update ?_)))
        have hserves : Serves served (covered || j.needsRoll len) (t ++ frames)
            { j₁ with
              current := some { c with
                size := c.size + (encodeAll frames).length, frames := c.frames + frames.length }
              lastSeq := lastSeq
              dirty := true }
            { disk := s₁.disk.put (segName c.file) (f.write (encodeAll frames))
              ghost := { s₁.ghost with tape := s₁.ghost.tape ++ frames } } := by
          refine ⟨hall, by rw [hlength]; exact hlast, by rw [hlength]; exact hlen, ?_⟩
          refine ⟨pre, f.write (encodeAll frames), epoch, hlist' (filesOf_put hlist.listing _), ?_, ?_, hcovered'⟩
          · rw [hwhole']
            exact (List.append_assoc ..).symm
          · exact (hheld.extend frames).mono (Nat.le_refl _) (by omega)
        exact wp_maybeSync_serves (fun _ => hweak hserves.wreck)
          (fun _ _ => ⟨hweak hserves.wreck, fun hne => absurd rfl hne⟩) hserves rfl

/-- **Compaction**: of the frames served those above the cutoff stay. -/
theorem wp_compactBelow_serves (h : Serves served covered t j s) (cutoff : ℕ) :
    wp F (compactBelow cutoff)
      (fun _ j' s' => Serves (served.filter (cutoff < ·.seq)) covered t j' s')
      (fun e j' s' => Wreck (served.filter (cutoff < ·.seq)) covered s' ∧
        (e ≠ .io .injected → Serves (served.filter (cutoff < ·.seq)) covered t j' s'))
      (Wreck (served.filter (cutoff < ·.seq)) covered) j s := by
  have hfilter : ∀ {lo lo' hi : ℕ}, Held served t lo hi → (lo' = lo ∨ lo' ≤ cutoff + 1) →
      Held (served.filter (cutoff < ·.seq)) t lo' hi := by
    intro lo lo' hi hheld hlow g hg
    obtain ⟨hmem, hcut⟩ := List.mem_filter.mp hg
    have hcut : cutoff < g.seq := by simpa using hcut
    obtain ⟨ht, hlo, hhi⟩ := hheld g hmem
    exact ⟨ht, by omega, hhi⟩
  have hlaid := h.laid
  unfold Laid at hlaid
  cases hcur : j.current with
  | none =>
    rw [hcur] at hlaid
    obtain ⟨hnil, ht, hserved⟩ := hlaid
    have hsame : ∀ {s' : JStore}, s'.disk = s.disk →
        Serves (served.filter (cutoff < ·.seq)) covered t j s' := by
      intro s' hdisk
      rw [hserved] at h ⊢
      exact h.congr hdisk rfl rfl
    have hwreck : ∀ {s' : JStore}, s'.disk = s.disk → Wreck (served.filter (cutoff < ·.seq)) covered s' :=
      fun hdisk => (hsame hdisk).wreck
    refine wp_bind (wp_record (wp_bind (wp_io (wp_listDir (fun _ => hwreck rfl)
      (fun _ _ => ⟨hwreck rfl, fun _ => hsame rfl⟩) ?_))))
    simp only [sortedNumbers_names]
    rw [if_pos (by rw [show filesOf .seg s.disk = [] from hnil]; simp)]
    exact wp_pure (hsame rfl)
  | some c =>
    rw [hcur] at hlaid
    obtain ⟨pre, f, epoch, hlist, hwhole, hheld, hcovered⟩ := hlaid
    -- the journal behind the segments that are left
    have hdropped : ∀ (pre' : List (ℕ × FileData)) (s' : JStore), pre' <:+ pre →
        segs s' = pre' ++ [(c.file, f)] → (pre' = pre ∨ startOf pre' c.file ≤ cutoff + 1) →
        Serves (served.filter (cutoff < ·.seq)) covered t j s' := by
      intro pre' s' hsuf hsegs hlow
      have hlow' : startOf pre' c.file = startOf pre c.file ∨ startOf pre' c.file ≤ cutoff + 1 :=
        hlow.imp_left fun heq => by rw [heq]
      refine ⟨h.run, h.last, h.lt, ?_⟩
      unfold Laid
      rw [hcur]
      refine ⟨pre', f, epoch, ⟨h.run, hsegs, hlist.sealed.suffix hsuf, hlist.pos, hlist.le, hlist.lt⟩, hwhole,
        hfilter hheld hlow', fun hcov => ?_⟩
      obtain ⟨k, ha, hk, hsynced, hheld'⟩ := hcovered hcov
      exact ⟨k, ha, hk, hsynced, hfilter hheld' hlow'⟩
    have hstart := hdropped pre _ List.suffix_rfl hlist.listing (Or.inl rfl)
    have hsame : ∀ {s' : JStore}, s'.disk = s.disk →
        Serves (served.filter (cutoff < ·.seq)) covered t j s' := fun hdisk => hstart.congr hdisk rfl rfl
    have hwreck : ∀ {s' : JStore}, s'.disk = s.disk → Wreck (served.filter (cutoff < ·.seq)) covered s' :=
      fun hdisk => (hsame hdisk).wreck
    refine wp_bind (wp_record (wp_bind (wp_io (wp_listDir (fun _ => hwreck rfl)
      (fun _ _ => ⟨hwreck rfl, fun _ => hsame rfl⟩) ?_))))
    simp only [sortedNumbers_names]
    split
    · exact wp_pure (hsame rfl)
    refine wp_bind (wp_nextSeq (fun _ => ?_) (fun _ => hwreck rfl))
    rw [show filesOf .seg s.disk = pre ++ [(c.file, f)] from hlist.listing]
    refine wp_bind (wp_removeBelow hlist.listing ?_ ?_ ?_)
    · intro _ _ e pre' s' hsuf hsegs _ hlow
      have hserves := hdropped pre' s' hsuf hsegs hlow
      exact ⟨hserves.wreck, fun _ => hserves⟩
    · intro _ pre' s' hsuf hsegs _ hlow
      exact (hdropped pre' s' hsuf hsegs hlow).wreck
    · intro n pre' s' hsuf hsegs _ hlow _ _
      have hserves := hdropped pre' s' hsuf hsegs hlow
      refine wp_bind (wp_when (fun _ => ?_) (fun _ => wp_pure hserves))
      exact wp_io (wp_syncDir (fun _ => hserves.wreck) (fun _ _ => ⟨hserves.wreck, fun _ => hserves⟩)
        (wp_pure (hdropped pre' _ hsuf hsegs hlow)))

section Opened

variable {pre : List (ℕ × FileData)} {a : ℕ} {f : FileData} {q : Bytes}

theorem ReadsAs.listed (h : ReadsAs s t pre a f q) (hrun : SeqRun 1 t) (hlt : t.length + 1 < 2 ^ 64) :
    Listed s t pre a f := ⟨hrun, h.listing, h.sealed, h.pos, h.le, hlt⟩

/-- The newest segment once the bytes behind its frames are gone. -/
theorem ReadsAs.truncated (h : ReadsAs s t pre a f q) :
    ∃ epoch, (f.truncate (f.combined.length - q.length)).combined = segmentBytes t a t.length epoch := by
  obtain ⟨epoch, hbytes⟩ := h.bytes
  refine ⟨epoch, ?_⟩
  rw [← List.append_assoc] at hbytes
  show f.combined.take _ ++ [] = _
  rw [List.append_nil, hbytes, List.length_append, Nat.add_sub_cancel, List.take_left]
  rfl

/-- After opening the same frames are there to be read, and nothing behind them. -/
theorem ReopenedAs.reads {config : JournalConfig} {r : Recovered} {s' : JStore}
    (h : ReopenedAs config s t pre a f q r s') (hreads : ReadsAs s t pre a f q) : ∃ f', ReadsAs s' t pre a f' [] := by
  by_cases hnil : q = []
  · have hbytes := hreads.bytes
    rw [hnil] at hbytes
    refine ⟨f, ?_, hreads.sealed, hreads.pos, hreads.le, hreads.lt, hbytes⟩
    rw [segs, h.same hnil]
    exact hreads.listing
  · obtain ⟨epoch, hbytes⟩ := hreads.truncated
    refine ⟨f.truncate (f.combined.length - q.length), ?_, hreads.sealed, hreads.pos, hreads.le, hreads.lt, epoch, ?_⟩
    · rw [segs, h.truncated hnil]
      exact filesOf_put hreads.listing _
    · rw [hbytes, segmentBytes, List.append_nil]

/-- The newest segment after opening. -/
theorem ReopenedAs.newest {config : JournalConfig} {r : Recovered} {s' : JStore}
    (h : ReopenedAs config s t pre a f q r s') (hreads : ReadsAs s t pre a f q) :
    ∃ f' epoch, segs s' = pre ++ [(a, f')] ∧ f'.combined = segmentBytes t a t.length epoch := by
  obtain ⟨f', hreads'⟩ := h.reads hreads
  obtain ⟨epoch, hbytes⟩ := hreads'.bytes
  rw [List.append_nil] at hbytes
  exact ⟨f', epoch, hreads'.listing, hbytes⟩

/-- The journal that was opened serves what it returned. -/
theorem ReopenedAs.serves {config : JournalConfig} {r : Recovered} {s' : JStore}
    (h : ReopenedAs config s t pre a f q r s') (hreads : ReadsAs s t pre a f q) (hrun : SeqRun 1 t)
    (hlt : t.length + 1 < 2 ^ 64) : Serves r.frames false t r.journal s' := by
  obtain ⟨size, frames, hcur⟩ := h.current
  have hlist := hreads.listed hrun hlt
  have hle := hreads.le
  have hstart := hreads.sealed.startOf_le
  have hheld : Held r.frames t (startOf pre a) t.length := by
    intro g hg
    rw [h.frames, ← List.take_length (l := t), ← Nat.add_sub_cancel t.length 1, h.first] at hg
    obtain ⟨hmem, hlow, hhigh⟩ := (mem_span hrun (hreads.sealed.startOf_pos hreads.pos)).mp hg
    exact ⟨hmem, hlow, by omega⟩
  refine ⟨hrun, h.last, hlt, ?_⟩
  unfold Laid
  rw [hcur]
  obtain ⟨f', epoch, hsegs, hbytes⟩ := h.newest hreads
  exact ⟨pre, f', epoch, ⟨hrun, hsegs, hlist.sealed, hlist.pos, hle, hlt⟩, hbytes, hheld, fun hcov => by cases hcov⟩

end Opened

/-- **Opening**, whatever was left: the journal that is returned serves every frame that it returned. -/
theorem wp_openWith_serves (h : Down s) (config : JournalConfig) :
    wp Fate.benign (openWith config) (fun r _ s' => ∃ t, Serves r.frames false t r.journal s')
      (fun _ _ s' => Down s') Down () s := by
  rcases h with hnil | ⟨t, pre, a, f, epoch, hlist, hleft⟩
  · refine wp_mono (wp_openWith_empty (E := fun _ _ _ => False) benign_no_fault (fun _ => Or.inl hnil) hnil
      config) ?_ (fun _ _ _ h => h.elim) (fun _ h => h)
    rintro r - s' ⟨-, ⟨now, rfl⟩, rfl⟩
    exact ⟨[], trivial, rfl, by simp, hnil, rfl, rfl⟩
  · have hdown : Down s := Or.inr ⟨t, pre, a, f, epoch, hlist, hleft⟩
    have hle := hlist.le
    have hpos := hlist.pos
    have hlt := hlist.lt
    rcases parseSegmentHeader_damaged hleft.torn (segName a) with ⟨q', hq', -⟩ | hbad
    · -- the header is whole
      have hwhole : segmentBytes t a (a - 1) epoch <+: f.combined := by
        rw [segmentBytes, Nat.sub_add_cancel hpos, span_self, encodeAll_nil, List.append_nil, hq']
        exact List.prefix_append _ _
      obtain ⟨n, q, hn, hnt, hreads, hq⟩ := hlist.reads hleft.torn (by omega) (by omega) hwhole
      have hrun := hlist.run.take n
      have hlen : (t.take n).length + 1 < 2 ^ 64 := by
        rw [List.length_take]
        omega
      refine wp_mono (wp_openWith_reads (E := fun _ _ s' => Down s') benign_no_fault hreads (fun _ => hdown) ?_ hrun
        (fun hover => by omega) hq config) ?_ (fun _ _ _ h => h) (fun _ h => h)
      · -- going down behind the truncation
        intro _ _
        obtain ⟨epoch', hbytes⟩ := hreads.truncated
        exact Or.inr ⟨_, pre, a, _, epoch', (hreads.listed hrun hlen).put _,
          Or.inl ⟨[], by rw [hbytes, List.append_nil]⟩⟩
      · rintro r - s' ⟨-, hopened⟩
        exact ⟨_, hopened.serves hreads hrun hlen⟩
    · refine wp_mono (wp_openWith_headless (C := Down) benign_no_fault (fun _ => hdown) hlist.run hlist.listing
        hlist.sealed (by omega) (by omega) hbad config) (fun _ _ _ h => h.elim) ?_ (fun _ h => h)
      rintro _ - s' ⟨-, rfl⟩
      exact hdown

end Operations

/-! ## Runs -/

/-- The operation, called in order, syncs the newest segment: because that is what it is for, or because it
rolls. -/
def Op.syncs (j : Journal) : Op → Bool
  | .append frame => decide (frame.seq = j.lastSeq + 1) && j.needsRoll frame.encodedLen
  | .appendBatch frames => decide (frames ≠ [] ∧ SeqRun (j.lastSeq + 1) frames) &&
      j.needsRoll (encodeAll frames).length
  | .sync => true
  | .compactBelow _ => false

/-- How many frames an operation appends. -/
def Op.count : Op → ℕ
  | .append _ => 1
  | .appendBatch frames => frames.length
  | _ => 0

/-- The frames that an operation is not asked to remove. -/
def Op.keeps : Op → List Frame → List Frame
  | .compactBelow cutoff, served => served.filter (cutoff < ·.seq)
  | _, served => served

/-- **The condition on a step**: where it syncs, the sync skips nothing, and the largest seq is not used. -/
def Op.Flushes (op : Op) (j : Journal) (s : JStore) : Prop :=
  (op.syncs j = true → Flushable j s) ∧ j.lastSeq + op.count + 1 < 2 ^ 64

/-- The states of a directory and the processes on it, one after another: an open journal (`some j`) or none,
the frames that the last opening returned, less those compacted since, and whether a sync or a roll has
returned since. `G` is what every step has to meet. -/
inductive Lineage (G : Op → Journal → JStore → Prop) :
    Option Journal → JStore → List Frame → Bool → Prop where
  | start : Lineage G none ⟨Disk.empty, History.fresh⟩ [] false
  | opened {w w' : World JStore} {r : Recovered} {served : List Frame} {covered : Bool}
      (config : JournalConfig) : Lineage G none w.st served covered → w.Benign →
      openWith config () w = .ok r () w' → Lineage G (some r.journal) w'.st r.frames false
  | refused {w w' : World JStore} {e : JournalError} {served : List Frame} {covered : Bool}
      (config : JournalConfig) : Lineage G none w.st served covered → w.Benign →
      openWith config () w = .err e () w' → Lineage G none w'.st [] false
  /-- The process is killed while it opens the journal. -/
  | openingKilled {w w' : World JStore} {served : List Frame} {covered : Bool} (config : JournalConfig) :
      Lineage G none w.st served covered → w.Benign → openWith config () w = .down w' →
      Lineage G none w'.st [] false
  | done {w w' : World JStore} {j j' : Journal} {served : List Frame} {covered : Bool} (op : Op) :
      Lineage G (some j) w.st served covered → G op j w.st → op.run j w = .ok () j' w' →
      Lineage G (some j') w'.st (op.keeps served) (covered || op.syncs j)
  /-- An operation is refused; the storage reports no error. -/
  | failed {w w' : World JStore} {j j' : Journal} {e : JournalError} {served : List Frame}
      {covered : Bool} (op : Op) : Lineage G (some j) w.st served covered → G op j w.st →
      op.run j w = .err e j' w' → e ≠ .io .injected → Lineage G (some j') w'.st (op.keeps served) covered
  /-- The process is killed before a storage call. What was promised is not judged while a segment is being
  started. -/
  | killedDuring {w w' : World JStore} {j : Journal} {served : List Frame} {covered : Bool} (op : Op) :
      Lineage G (some j) w.st served covered → G op j w.st → op.run j w = .down w' →
      Lineage G none w'.st (op.keeps served) (covered && decide (w'.st.ghost.window = .none))
  /-- The process is killed in the middle of a write. -/
  | killedWriting {w w' : World JStore} {j j' : Journal} {served : List Frame} {covered : Bool} (op : Op) :
      Lineage G (some j) w.st served covered → G op j w.st → op.run j w = .err (.io .injected) j' w' →
      Lineage G none w'.st (op.keeps served) (covered && decide (w'.st.ghost.window = .none))
  | killed {s : JStore} {j : Journal} {served : List Frame} {covered : Bool} :
      Lineage G (some j) s served covered → Lineage G none s served covered
  | lost {o : Option Journal} {s s' : JStore} {served : List Frame} {covered : Bool} :
      Lineage G o s served covered → s.PowerLoss s' → Lineage G none s' served covered

/-- What holds of a directory with or without a process. -/
def LineageInv : Option Journal → JStore → List Frame → Bool → Prop
  | some j, s, served, covered => ∃ t, Serves served covered t j s
  | none, s, served, covered => Down s ∧ (covered = true → Durably served s)

section Runs

variable {served : List Frame} {covered : Bool} {t : List Frame} {j : Journal} {s : JStore}

/-- Writing frames, if they are in order. -/
theorem wp_op_writes {frames : List Frame} {lastSeq len : ℕ} {F : Fate → Prop}
    (h : Serves served covered t j s) (hmore : SeqRun (t.length + 1) frames)
    (hlen : t.length + frames.length + 1 < 2 ^ 64) (hlast : lastSeq = t.length + frames.length)
    (hflush : j.needsRoll len = true → Flushable j s) :
    wp F (writeFrames frames (t.length + 1) lastSeq len)
      (fun _ j' s' => ∃ t', Serves served (covered || j.needsRoll len) t' j' s')
      (fun e j' s' => Wreck served covered s' ∧ (e ≠ .io .injected → ∃ t', Serves served covered t' j' s'))
      (Wreck served covered) j s :=
  wp_mono (wp_writeFrames_serves h hmore hlen hlast hflush) (fun _ _ _ h => ⟨_, h⟩)
    (fun _ _ _ h => ⟨h.1, fun hne => ⟨_, h.2 hne⟩⟩) (fun _ h => h)

/-- **Step lemma**: an operation that meets the condition. -/
theorem wp_op_serves {F : Fate → Prop} (h : Serves served covered t j s) (op : Op) (hop : op.Flushes j s) :
    wp F op.run (fun _ j' s' => ∃ t', Serves (op.keeps served) (covered || op.syncs j) t' j' s')
      (fun e j' s' => Wreck (op.keeps served) covered s' ∧
        (e ≠ .io .injected → ∃ t', Serves (op.keeps served) covered t' j' s'))
      (Wreck (op.keeps served) covered) j s := by
  obtain ⟨hflush, hcount⟩ := hop
  rw [h.last] at hcount
  cases op with
  | append frame =>
    have hcount : t.length + 1 + 1 < 2 ^ 64 := hcount
    refine wp_bind (wp_mem (wp_bind (wp_nextSeq (fun hlt => ?_) (fun _ => h.wreck))))
    by_cases hseq : frame.seq = j.lastSeq + 1
    · rw [if_neg (not_not_intro hseq)]
      have hsyncs : (Op.append frame).syncs j = j.needsRoll frame.encodedLen := by simp [Op.syncs, hseq]
      rw [hsyncs] at hflush ⊢
      rw [hseq, h.last]
      exact wp_op_writes h ⟨by rw [hseq, h.last], trivial⟩ hcount rfl hflush
    · rw [if_pos hseq]
      exact wp_fail ⟨h.wreck, fun _ => ⟨t, h⟩⟩
  | appendBatch frames =>
    have hcount : t.length + frames.length + 1 < 2 ^ 64 := hcount
    cases frames with
    | nil => exact wp_pure ⟨t, by simpa [Op.syncs, Op.keeps] using h⟩
    | cons frame rest =>
      refine wp_bind (wp_mem (wp_bind (wp_nextSeq (fun hlt => ?_) (fun _ => h.wreck))))
      refine wp_bind (wp_checkBatch (fun hmore => ?_) (fun _ _ _ => ⟨h.wreck, fun _ => ⟨t, h⟩⟩)
        (fun _ => h.wreck))
      have hsyncs : (Op.appendBatch (frame :: rest)).syncs j =
          j.needsRoll (encodeAll (frame :: rest)).length := by simp [Op.syncs, hmore]
      rw [hsyncs] at hflush ⊢
      rw [h.last] at hmore
      have hlast := hmore.getLast_seq (List.cons_ne_nil frame rest)
      rw [show frame.seq = t.length + 1 from hmore.1]
      exact wp_op_writes h hmore hcount (by omega) hflush
  | sync =>
    refine wp_mono (wp_sync_serves (C := Wreck served covered) (fun _ => h.wreck)
      (fun _ _ => ⟨h.wreck, fun _ => ⟨t, h⟩⟩) h (hflush rfl)) ?_ (fun _ _ _ h => h) (fun _ h => h)
    rintro - j' s' ⟨h', -⟩
    exact ⟨t, h'.mono⟩
  | compactBelow cutoff =>
    refine wp_bind (wp_mono (wp_compactBelow_serves h cutoff) ?_ ?_ (fun _ h => h))
    · intro _ j' s' h'
      exact wp_pure ⟨t, by simpa [Op.syncs, Op.keeps] using h'⟩
    · exact fun _ _ _ h => ⟨h.1, fun hne => ⟨t, h.2 hne⟩⟩

theorem lineageInv_of_wreck (h : Wreck served covered s) :
    LineageInv none s served (covered && decide (s.ghost.window = .none)) := by
  refine ⟨h.1, fun hcov => ?_⟩
  rw [Bool.and_eq_true, decide_eq_true_eq] at hcov
  exact h.2 hcov.2 hcov.1

/-- **Run lemma**: in every state of every run whose steps meet the condition. -/
theorem lineage_inv {o : Option Journal} (h : Lineage Op.Flushes o s served covered) :
    LineageInv o s served covered := by
  induction h with
  | start => exact ⟨Or.inl (filesOf_eq .nil (by simp)), fun hcov => by cases hcov⟩
  | opened config _ hw hrun ih => exact wp_ok (wp_openWith_serves ih.1 config) hw hrun
  | refused config _ hw hrun ih =>
    exact ⟨wp_err (wp_openWith_serves ih.1 config) hw hrun, fun hcov => by cases hcov⟩
  | openingKilled config _ hw hrun ih =>
    exact ⟨wp_down (wp_openWith_serves ih.1 config) hw hrun, fun hcov => by cases hcov⟩
  | done op _ hop hrun ih =>
    obtain ⟨t, h⟩ := ih
    exact wp_ok (wp_op_serves h op hop) (fun _ _ => trivial) hrun
  | failed op _ hop hrun hne ih =>
    obtain ⟨t, h⟩ := ih
    exact (wp_err (wp_op_serves h op hop) (fun _ _ => trivial) hrun).2 hne
  | killedDuring op _ hop hrun ih =>
    obtain ⟨t, h⟩ := ih
    exact lineageInv_of_wreck (wp_down (wp_op_serves h op hop) (fun _ _ => trivial) hrun)
  | killedWriting op _ hop hrun ih =>
    obtain ⟨t, h⟩ := ih
    exact lineageInv_of_wreck (wp_err (wp_op_serves h op hop) (fun _ _ => trivial) hrun).1
  | killed _ ih =>
    obtain ⟨t, h⟩ := ih
    exact h.gone
  | @lost o s s' served covered _ hl ih =>
    have hgone : Down s ∧ (covered = true → Durably served s) := by
      cases o with
      | none => exact ih
      | some j =>
        obtain ⟨t, h⟩ := ih
        exact h.gone
    exact ⟨hgone.1.powerLoss hl, fun hcov => (hgone.2 hcov).powerLoss hl⟩

/-- **What is durable is returned.** -/
theorem wp_openWith_durably (h : Durably served s) (config : JournalConfig) :
    wp Fate.calm (openWith config) (fun r _ _ => ∀ g ∈ served, g ∈ r.frames) (fun _ _ _ => False)
      (fun _ => False) () s := by
  rcases h with ⟨hnil, rfl⟩ | ⟨t, pre, a, f, epoch, k, hlist, hleft, ha, hk, hsynced, hheld⟩
  · refine wp_mono (wp_openWith_empty (E := fun _ _ _ => False) calm_no_fault (fun hc => calm_no_cut hc) hnil
      config) (fun _ _ _ _ g hg => ?_) (fun _ _ _ h => h) (fun _ h => h)
    cases hg
  · have hlt := hlist.lt
    have hwhole : segmentBytes t a k epoch <+: f.combined := hsynced.trans (List.prefix_append _ _)
    obtain ⟨n, q, hn, hnt, hreads, hq⟩ := hlist.reads hleft.torn ha hk hwhole
    refine wp_mono (wp_openWith_reads (E := fun _ _ _ => False) (C := fun _ => False) calm_no_fault hreads
      (fun hc => calm_no_cut hc) (fun hc => absurd hc calm_no_cut) (hlist.run.take n) ?_ hq config) ?_
      (fun _ _ _ h => h) (fun _ h => h)
    · rw [List.length_take]
      omega
    · rintro r - s' ⟨-, hopened⟩ g hg
      obtain ⟨hmem, hlow, hhigh⟩ := hheld g hg
      have hspan : g ∈ span t (startOf pre a) (n + 1) :=
        (mem_span hlist.run (hlist.sealed.startOf_pos hlist.pos)).mpr ⟨hmem, hlow, by omega⟩
      rw [hopened.frames, hopened.first]
      exact hspan

/-- **A sync covers what the journal serves**, in every run whose syncs and rolls skip no bytes: once a sync or
a rolling append has returned, opening the directory again, after a power loss or not, succeeds and
returns every frame that the last opening returned. -/
theorem sync_covers_served (h : Lineage Op.Flushes none s served true) {w : World JStore} (hw : w.st = s)
    (hcalm : w.Calm) (config : JournalConfig) :
    ∃ r w', openWith config () w = .ok r () w' ∧ ∀ g ∈ served, g ∈ r.frames := by
  have hdurably : Durably served w.st := hw ▸ (lineage_inv h).2 rfl
  obtain ⟨r, _, w', hrun, -, hserved⟩ := wp_total (wp_openWith_durably hdurably config) hcalm (ends_openWith _)
  exact ⟨r, w', hrun, hserved⟩

end Runs

/-- A process that appends a frame and is killed, and the one after it, which opens the journal and syncs. -/
structure Heirs where
  first : Recovered
  opened : JStore
  next : Recovered
  inherited : JStore
  synced : JStore

/-- The two processes, under a given fsync policy. -/
def heirs (fsync : FsyncPolicy) : Option Heirs := do
  let opening : Prog Unit JStore JournalError Recovered := openWith ⟨1024, fsync⟩
  let (r, _, w) ← (opening () (.healthy ⟨Disk.empty, History.fresh⟩)).returned
  let (_, _, w₁) ← ((Op.append ⟨1, 0, 1, .tick, [], one_lt_seqs, nil_payload_le⟩).run r.journal (.healthy w.st)).returned
  let (r', _, w₂) ← (opening () (.healthy w₁.st)).returned
  let (_, _, w₃) ← (Op.sync.run r'.journal (.healthy w₂.st)).returned
  pure ⟨r, w.st, r', w₂.st, w₃.st⟩

theorem lineage_heirs {G : Op → Journal → JStore → Prop} {fsync : FsyncPolicy} {h : Heirs}
    (hrun : heirs fsync = some h)
    (happend : G (.append ⟨1, 0, 1, .tick, [], one_lt_seqs, nil_payload_le⟩) h.first.journal h.opened)
    (hsync : G .sync h.next.journal h.inherited) : ∃ j, Lineage G (some j) h.synced h.next.frames true := by
  simp only [heirs, bind, Option.bind_eq_some_iff] at hrun
  obtain ⟨⟨r, _, w⟩, hopen, ⟨_, j, w₁⟩, hwrite, ⟨r', _, w₂⟩, hreopen, ⟨_, j', w₃⟩, hflush, heq⟩ := hrun
  cases heq
  rw [Outcome.returned_eq_some] at hopen hwrite hreopen hflush
  have hcalm : ∀ s : JStore, (World.healthy s).Benign := fun s f hf => by cases hf
  have h₁ := Lineage.opened (G := G) (w := .healthy _) _ .start (hcalm _) hopen
  have h₂ := Lineage.killed (Lineage.done (w := .healthy _) _ h₁ happend hwrite)
  have h₃ := Lineage.opened (w := .healthy _) _ h₂ (hcalm _) hreopen
  exact ⟨j', Lineage.done (w := .healthy _) _ h₃ hsync hflush⟩

/-- Under `everyFrame` the frame is durable, and is served again. -/
theorem sync_covers_served_of_heirs : ∃ (s : JStore) (served : List Frame),
    served ≠ [] ∧ ∃ r w', openWith ⟨1024, .everyFrame⟩ () (World.healthy s) = .ok r () w' ∧
      ∀ g ∈ served, g ∈ r.frames := by
  have hrun : (heirs .everyFrame).any (fun h => decide (h.first.journal.current = none ∧
      h.first.journal.lastSeq = 0 ∧ h.next.journal.current.map (·.file) = some 1 ∧
      h.next.journal.lastSeq = 1 ∧ h.next.frames.length = 1 ∧
      (h.inherited.disk.get (segName 1)).map (·.unsynced) = some [])) = true := by decide +kernel
  obtain ⟨h, hrun, hvals⟩ := (Option.any_eq_true _ _).mp hrun
  obtain ⟨hcur, hlast, hcur', hlast', hserved, hfile⟩ := of_decide_eq_true hvals
  have happend : Op.Flushes (.append ⟨1, 0, 1, .tick, [], one_lt_seqs, nil_payload_le⟩) h.first.journal h.opened := by
    refine ⟨fun _ => Or.inr fun c f hc _ => ?_, by rw [hlast]; decide⟩
    rw [hcur] at hc
    cases hc
  have hsync : Op.Flushes .sync h.next.journal h.inherited := by
    refine ⟨fun _ => Or.inr fun c f hc hf => ?_, by rw [hlast']; decide⟩
    rw [hc] at hcur'
    rw [show c.file = 1 from Option.some.inj hcur'] at hf
    rw [hf] at hfile
    exact Option.some.inj hfile
  obtain ⟨j, hlineage⟩ := lineage_heirs hrun happend hsync
  have hlost : Lineage Op.Flushes none (h.synced.withDisk h.synced.disk.strip) h.next.frames true :=
    hlineage.lost ⟨Disk.powerLoss_strip _, rfl⟩
  refine ⟨h.synced.withDisk h.synced.disk.strip, h.next.frames, fun hnil => ?_, ?_⟩
  · rw [hnil] at hserved
    cases hserved
  · exact sync_covers_served hlost rfl (fun f hf => by cases hf) _

/-- **A sync that skips what was inherited**: under `never` the second process serves a frame, its sync returns, and
a power loss takes the frame. -/
theorem sync_skips_inherited : ∃ (s : JStore) (served : List Frame),
    Lineage (fun _ _ _ => True) none s served true ∧
    ¬∃ r w', openWith ⟨1024, .never⟩ () (World.healthy s) = .ok r () w' ∧ ∀ g ∈ served, g ∈ r.frames := by
  have hrun : (heirs .never).map (fun h => (h.next.frames.length,
      (openWith ⟨1024, .never⟩ () (World.healthy (h.synced.withDisk h.synced.disk.strip))).returned.map
        (·.1.frames.length))) = some (1, some 0) := by decide +kernel
  obtain ⟨h, hrun, hvals⟩ := Option.map_eq_some_iff.mp hrun
  obtain ⟨hserved, hreopened⟩ := Prod.mk.inj hvals
  obtain ⟨j, hlineage⟩ := lineage_heirs (G := fun _ _ _ => True) hrun trivial trivial
  refine ⟨h.synced.withDisk h.synced.disk.strip, h.next.frames,
    hlineage.lost ⟨Disk.powerLoss_strip _, rfl⟩, ?_⟩
  rintro ⟨r, w', hopen, hall⟩
  rw [hopen] at hreopened
  have hnil : r.frames = [] := List.eq_nil_of_length_eq_zero (Option.some.inj hreopened)
  obtain ⟨g, hg⟩ := List.length_pos_iff_exists_mem.mp (by rw [hserved]; decide : 0 < h.next.frames.length)
  have hgone := hall g hg
  rw [hnil] at hgone
  cases hgone

end Ticktape.Journal
