import Ticktape.Journal.Invariant

/-!
# Journal operations keep the invariant

One specification per operation, for environments that inject no faults: what holds on return,
what holds if a call fails by itself (a segment file that already exists), and that the process
may go down before any storage call.
-/

namespace Ticktape.Journal

open Ticktape.Lib Ticktape.Core

section Rules

variable {μ α : Type} {F : Fate → Prop} {Q : α → μ → JStore → Prop}
  {E : JournalError → μ → JStore → Prop} {C : JStore → Prop} {m : μ} {s : JStore}

theorem wp_io {p : Io μ History α} (h : wp F p Q (fun e => E (.io e)) C m s) :
    wp F (io p) Q E C m s := wp_mapErr h

theorem wp_record {f : History → History} {R : Unit → μ → JStore → Prop}
    (h : R () m { s with ghost := f s.ghost }) : wp F (record f) R E C m s := wp_note h

theorem wp_nextSeq {ε : Type} {E : ε → μ → JStore → Prop} {n : ℕ} {R : ℕ → μ → JStore → Prop} (hok : n + 1 < 2 ^ 64 → R (n + 1) m s)
    (hover : ¬n + 1 < 2 ^ 64 → C s) : wp F (nextSeq n) R E C m s := by
  unfold nextSeq seqNext
  by_cases h : n + 1 < 2 ^ 64
  · rw [if_pos h]
    exact wp_pure (hok h)
  · rw [if_neg h]
    exact wp_panic (hover h)

end Rules

variable {F : Fate → Prop} {E : JournalError → Journal → JStore → Prop} {C : JStore → Prop}
  {t : List Frame} {j : Journal} {s : JStore}

/-- The process may go down in a store with this tape. -/
def CrashWith (tape : List Frame) (s : JStore) : Prop := JCrash s ∧ s.ghost.tape = tape

/-! ## Syncing -/

/-- The invariant depends on the writer only through these fields. -/
theorem JInv.congr {j' : Journal} (h : JInv t j s) (hc : j'.current = j.current)
    (hl : j'.lastSeq = j.lastSeq) (hd : j'.dirty = j.dirty) : JInv t j' s := by
  refine ⟨h.run, h.part, hl.trans h.last, ?_⟩
  have hholds := h.holds
  unfold Holds at hholds ⊢
  rwa [hc, hd]

/-- The open segment after a sync holds everything durably. -/
theorem JInv.synced {pre : List (ℕ × FileData)} {a k : ℕ} {f : FileData} {c : OpenSegment}
    (h : JInv t j s) (hcur : j.current = some c) (hsegs : segs s = pre ++ [(a, f)])
    (hfile : c.file = a) (hchain : Chain t pre a k f [])
    (hu : f.unsynced = encodeAll (t.drop k)) (hd : s.ghost.durable ≤ k)
    (hfloor : startOf pre a ≤ s.ghost.cutoff + 1) :
    JInv t { j with dirty := false } (s.withDisk (s.disk.put (segName c.file) f.sync)) := by
  refine ⟨h.run, h.part, h.last, ?_⟩
  have hsegs' : segs (s.withDisk (s.disk.put (segName c.file) f.sync)) = pre ++ [(a, f.sync)] := by
    rw [hfile]
    exact filesOf_put hsegs f.sync
  have hgrow : Chain t pre a t.length f.sync [] := by
    refine hchain.grow hchain.bound (Nat.le_refl _) ?_
    rw [span_to_end, ← hu]
    rfl
  unfold Holds
  simp only [hcur]
  refine ⟨pre, a, f.sync, t.length, hsegs', hfile, hgrow, ?_, ?_, hfloor, fun _ => rfl⟩
  · simp [FileData.sync]
  · exact Nat.le_trans hd hchain.bound

theorem wp_flush (hC : F .cut → C s) (hE : ∀ k, F (.fault k) → ∀ e, E e j s) (h : JInv t j s) :
    wp F flush (fun _ j' s' => JInv t j' s' ∧ (∀ c, j'.current = some c → j'.dirty = false) ∧
        s'.ghost = s.ghost ∧ j'.lastSeq = j.lastSeq ∧ j'.current = j.current) E C j s := by
  refine wp_bind (wp_mem ?_)
  have hholds := h.holds
  unfold Holds at hholds
  cases hcur : j.current with
  | none =>
    refine wp_pure ⟨h, ?_, rfl, rfl, hcur⟩
    simp [hcur]
  | some c =>
    rw [hcur] at hholds
    obtain ⟨pre, a, f, k, hsegs, hfile, hchain, hu, hd, hfloor, -⟩ := hholds
    have hget : s.disk.get (segName c.file) = some f := by
      rw [hfile]
      exact mem_filesOf.mp (by rw [show filesOf .seg s.disk = _ from hsegs]; simp)
    refine wp_when (fun _ => ?_) (fun hclean =>
      ⟨h, fun _ _ => by simpa using hclean, rfl, rfl, hcur⟩)
    refine wp_bind (wp_io (wp_onFile hC (fun k hk => hE k hk _) ?_ ?_))
    · intro f' hf'
      obtain rfl : f = f' := Option.some.inj (hget.symm.trans hf')
      refine wp_update ⟨h.synced hcur hsegs hfile hchain hu hd hfloor, fun _ _ => rfl, rfl, rfl, hcur⟩
    · intro hnone
      rw [hget] at hnone
      cases hnone

/-- **Sync**: afterwards every frame is durable. A sync that does not return changes nothing. -/
theorem wp_sync (hC : F .cut → C s) (hE : ∀ k, F (.fault k) → ∀ e, E e j s) (h : JInv t j s) :
    wp F sync (fun _ j' s' => JInv t j' s' ∧ (∀ c, j'.current = some c → j'.dirty = false) ∧
        s'.ghost = { s.ghost with durable := t.length } ∧ j'.current = j.current) E C j s := by
  refine wp_seq (wp_flush hC hE h) ?_
  rintro - j₁ s₁ ⟨h₁, hclean, hghost, hlast, hcurrent⟩
  refine wp_bind (wp_instant fun now => wp_bind (wp_update (wp_bind (wp_mem (wp_record ?_)))))
  have hlast₁ : j₁.lastSeq = t.length := h₁.last
  refine ⟨?_, hclean, by rw [hghost, hlast₁], hcurrent⟩
  refine ⟨h₁.run, h₁.part, hlast₁, ?_⟩
  have hholds := h₁.holds
  unfold Holds at hholds ⊢
  cases hcur : j₁.current with
  | none =>
    rw [hcur] at hholds
    obtain ⟨hsegs, ht, -⟩ := hholds
    exact ⟨hsegs, ht, by rw [hlast₁, ht]; rfl⟩
  | some c =>
    rw [hcur] at hholds
    obtain ⟨pre, a, f, k, hsegs, hfile, hchain, hu, -, hfloor, hk⟩ := hholds
    have hk := hk (hclean c hcur)
    exact ⟨pre, a, f, k, hsegs, hfile, hchain, hu, by rw [hlast₁, hk], hfloor, fun _ => hk⟩

/-- The writer as far as the names of the segments go. -/
structure SamePlace (j j' : Journal) : Prop where
  current : j'.current = j.current
  lastSeq : j'.lastSeq = j.lastSeq
  config : j'.config = j.config

theorem wp_maybeSync (hC : F .cut → C s) (hE : ∀ k, F (.fault k) → ∀ e, E e j s) (h : JInv t j s) :
    wp F maybeSync (fun _ j' s' => JInv t j' s' ∧ s'.ghost.tape = s.ghost.tape ∧ j'.current = j.current)
      E C j s := by
  have hsync : wp F sync (fun _ j' s' => JInv t j' s' ∧ s'.ghost.tape = s.ghost.tape ∧
      j'.current = j.current) E C j s := by
    refine wp_mono (wp_sync hC hE h) ?_ (fun _ _ _ h => h) (fun _ h => h)
    rintro - j' s' ⟨h', -, hghost, hcurrent⟩
    exact ⟨h', by rw [hghost], hcurrent⟩
  refine wp_bind (wp_mem ?_)
  cases j.config.fsync with
  | everyFrame => exact hsync
  | micros window =>
    exact wp_bind (wp_instant fun now => wp_when (fun _ => hsync) (fun _ => ⟨h, rfl, rfl⟩))
  | never => exact wp_pure ⟨h, rfl, rfl⟩

/-! ## Starting a segment -/

/-- What has to hold for a segment to be started at `a` behind the segments that end below `b`. -/
structure CanStart (s : JStore) (b a : ℕ) : Prop where
  run : SeqRun 1 s.ghost.tape
  sealed : Sealed s.ghost.tape (segs s) b
  pos : 1 ≤ b
  le : b ≤ a
  lt : a < 2 ^ 64
  bound : a - 1 ≤ s.ghost.tape.length
  durable : s.ghost.durable ≤ b - 1
  floor : startOf (segs s) a ≤ s.ghost.cutoff + 1
  names : ∀ p ∈ segs s, p.1 ≤ a

/-- After a sync, all segments are sealed. -/
theorem JInv.sealedAll (h : JInv t j s) (hclean : ∀ c, j.current = some c → j.dirty = false) :
    Sealed t (segs s) (t.length + 1) ∧ s.ghost.durable ≤ t.length ∧
      (∀ b, b = t.length + 1 ∨ b ≤ s.ghost.cutoff + 1 →
        startOf (segs s) b ≤ s.ghost.cutoff + 1) ∧ ∀ p ∈ segs s, p.1 ≤ t.length + 1 := by
  have hholds := h.holds
  unfold Holds at hholds
  cases hcur : j.current with
  | none =>
    rw [hcur] at hholds
    obtain ⟨hsegs, rfl, hd⟩ := hholds
    rw [hsegs]
    refine ⟨trivial, by rw [hd]; exact Nat.zero_le _, ?_, fun p hp => by cases hp⟩
    rintro b (rfl | hb)
    · exact Nat.le_add_left 1 _
    · exact hb
  | some c =>
    rw [hcur] at hholds
    obtain ⟨pre, a, f, k, hsegs, -, hchain, hu, hd, hfloor, hk⟩ := hholds
    obtain rfl := hk (hclean c hcur)
    have hu' : f.unsynced = [] := by rw [hu, List.drop_length, encodeAll_nil]
    have hsorted : (pre ++ [(a, f)]).Pairwise (·.1 < ·.1) := by
      rw [← hsegs]
      exact filesOf_sorted
    rw [hsegs]
    refine ⟨hchain.seal hu', hd, fun b _ => by rw [startOf_append]; exact hfloor, ?_⟩
    intro p hp
    rcases List.mem_append.mp hp with hp | hp
    · have hlt : p.1 < a := (List.pairwise_append.mp hsorted).2.2 p hp (a, f) (by simp)
      have := hchain.le
      omega
    · rw [List.mem_singleton.mp hp]
      exact hchain.le

/-- **The rule of `startSegment`**: the new file appears behind the others, its header is written, in part
if a fault strikes, and then synced. -/
theorem wp_startSegment_rule {a : ℕ} {during after : Window} {Q : Unit → Journal → JStore → Prop}
    (hnames : ∀ p ∈ segs s, p.1 ≤ a) (hcut : F .cut → C s)
    (hfault : ∀ k, F (.fault k) → E (.io .injected) j s)
    (hexists : ∀ f, s.disk.get (segName a) = some f → E (.io .alreadyExists) j s)
    (hpart : ∀ n s', segs s' = segs s ++ [(a, ⟨[], (segmentHeaderBytes a j.epoch).take n⟩)] →
      s'.ghost = { s.ghost with window := during } →
      (F .cut → C s') ∧ ∀ k, F (.fault k) → E (.io .injected) j s')
    (hdone : ∀ s', segs s' = segs s ++ [(a, ⟨segmentHeaderBytes a j.epoch, []⟩)] →
      s'.ghost = { s.ghost with window := after } →
      (F .cut → C s') ∧ (∀ k, F (.fault k) → E (.io .injected) j s') ∧
        Q () { j with current := some ⟨a, SEGMENT_HEADER_LEN, 0⟩ } s') :
    wp F (startSegment a during after) Q E C j s := by
  refine wp_bind (wp_mem (wp_bind (wp_io (wp_createNew hcut hfault ?_ hexists))))
  intro hfree
  have hsegs₁ : filesOf .seg (s.disk.put (segName a) ⟨[], []⟩) = segs s ++ [(a, ⟨[], []⟩)] := by
    refine filesOf_put_new (fun p hp => Nat.lt_of_le_of_ne (hnames p hp) ?_) _
    intro heq
    rw [← heq, mem_filesOf.mp (show (p.1, p.2) ∈ filesOf .seg s.disk from hp)] at hfree
    cases hfree
  -- the file after `n` bytes of its header were written
  have hsegs : ∀ n, filesOf .seg ((s.disk.put (segName a) ⟨[], []⟩).put (segName a)
      (FileData.write ⟨[], []⟩ ((segmentHeaderBytes a j.epoch).take n))) =
      segs s ++ [(a, ⟨[], (segmentHeaderBytes a j.epoch).take n⟩)] := fun n => filesOf_put hsegs₁ _
  refine wp_bind (wp_record (wp_bind (wp_io (wp_writeAll ?_ ?_ ?_ ?_))))
  · exact (hpart 0 _ hsegs₁ rfl).1
  · intro n f hF hf
    obtain rfl : FileData.mk [] [] = f := Option.some.inj ((Disk.get_put_self ..).symm.trans hf)
    exact (hpart n _ (hsegs n) rfl).2 n hF
  · intro e hnone
    simp at hnone
  intro f hf
  obtain rfl : FileData.mk [] [] = f := Option.some.inj ((Disk.get_put_self ..).symm.trans hf)
  have hsegs₂ := hsegs SEGMENT_HEADER_LEN
  rw [List.take_of_length_le (segmentHeaderBytes_length a j.epoch).le] at hsegs₂
  have hwritten := hpart SEGMENT_HEADER_LEN
    { disk := (s.disk.put (segName a) ⟨[], []⟩).put (segName a)
        (FileData.write ⟨[], []⟩ (segmentHeaderBytes a j.epoch))
      ghost := { s.ghost with window := during } }
    (by rw [List.take_of_length_le (segmentHeaderBytes_length a j.epoch).le]; exact hsegs₂) rfl
  refine wp_bind (wp_io (wp_onFile hwritten.1 hwritten.2 ?_ (fun hnone => by simp at hnone)))
  intro f hf
  obtain rfl : _ = f := Option.some.inj ((Disk.get_put_self ..).symm.trans hf)
  have hsegs₃ := filesOf_put hsegs₂
    (FileData.sync (FileData.write ⟨[], []⟩ (segmentHeaderBytes a j.epoch)))
  refine wp_bind (wp_record (wp_bind (wp_io (wp_syncDir ?_ ?_ (wp_update ?_)))))
  · exact (hdone _ hsegs₃ rfl).1
  · exact (hdone _ hsegs₃ rfl).2.1
  · exact (hdone _ hsegs₃ rfl).2.2

/-- **Starting a segment**: it stands last, with its header synced; if a file of that name exists
nothing happens. -/
theorem wp_startSegment (hF : ∀ k, ¬F (.fault k)) {b a : ℕ} (during after : Window)
    (h : CanStart s b a) (hcrash : JCrash s) (hC : F .cut → ∀ s', CrashWith s.ghost.tape s' → C s') (hduring : during ≠ .none) (hreseat : b < a → during = .reseat)
    (hafter : b < a → after = .reseat) :
    wp F (startSegment a during after)
      (fun _ j' s' => j' = { j with current := some ⟨a, SEGMENT_HEADER_LEN, 0⟩ } ∧
        (∃ epoch, segs s' = segs s ++ [(a, ⟨segmentHeaderBytes a epoch, []⟩)]) ∧
        s'.ghost = { s.ghost with window := after })
      (fun _ j' s' => j' = j ∧ s' = s ∧ ∃ f, s.disk.get (segName a) = some f) C j s := by
  have hcan : ∀ {s' : JStore} {f : FileData} (window : Window), segs s' = segs s ++ [(a, f)] →
      s'.ghost = { s.ghost with window := window } →
      (window ≠ .none ∨ ∃ epoch, f = ⟨segmentHeaderBytes a epoch, []⟩) →
      (b < a → window = .reseat) →
      (∃ epoch n, f = ⟨[], (segmentHeaderBytes a epoch).take n⟩ ∨
        f = ⟨segmentHeaderBytes a epoch, []⟩) → CrashWith s.ghost.tape s' := by
    intro s' f window hsegs hghost hwin hres hbytes
    have hstarting : Starting s' (segs s) b a f :=
      ⟨by rw [hghost]; exact h.run, hsegs, by rw [hghost]; exact h.sealed, h.pos, h.le, h.lt,
        by rw [hghost]; exact h.bound, by rw [hghost]; exact h.durable, by rw [hghost]; exact h.floor,
        by rw [hghost]; exact hwin, by rw [hghost]; exact hres, hbytes⟩
    exact ⟨hstarting.crash, by rw [hghost]⟩
  refine wp_startSegment_rule h.names (fun hc => hC hc s ⟨hcrash, rfl⟩) (fun k hk => absurd hk (hF k))
    (fun f hf => ⟨rfl, rfl, f, hf⟩) ?_ ?_
  · intro n s' hsegs hghost
    refine ⟨fun hc => hC hc s' ?_, fun k hk => absurd hk (hF k)⟩
    exact hcan during hsegs hghost (Or.inl hduring) hreseat ⟨j.epoch, n, Or.inl rfl⟩
  · intro s' hsegs hghost
    refine ⟨fun hc => hC hc s' ?_, fun k hk => absurd hk (hF k), rfl, ⟨j.epoch, hsegs⟩, hghost⟩
    exact hcan after hsegs hghost (Or.inr ⟨j.epoch, rfl⟩) hafter ⟨j.epoch, 0, Or.inr rfl⟩

/-! ## Appending -/

/-- A fresh segment behind a journal with nothing to sync. -/
theorem JInv.rolled {s' : JStore} {epoch : UInt64} (h : JInv t j s)
    (hclean : ∀ c, j.current = some c → j.dirty = false) (hlt : t.length + 1 < 2 ^ 64)
    (hsegs : segs s' = segs s ++ [(t.length + 1, ⟨segmentHeaderBytes (t.length + 1) epoch, []⟩)])
    (htape : s'.ghost.tape = s.ghost.tape) (hdurable : s'.ghost.durable = s.ghost.durable)
    (hcutoff : s'.ghost.cutoff = s.ghost.cutoff) :
    JInv t { j with current := some ⟨t.length + 1, SEGMENT_HEADER_LEN, 0⟩ } s' := by
  obtain ⟨hsealed, hbound, hfloor, -⟩ := h.sealedAll hclean
  refine ⟨htape ▸ h.run, htape ▸ h.part, h.last, ?_⟩
  refine ⟨segs s, _, _, t.length, hsegs, rfl, Chain.fresh hsealed (Nat.le_refl _) hlt rfl, ?_, ?_, ?_,
    fun _ => rfl⟩
  · rw [List.drop_length, encodeAll_nil]
  · rw [hdurable]
    exact hbound
  · rw [hcutoff]
    exact hfloor _ (Or.inl rfl)

/-- **Rolling**: the journal holds the same frames, now with an open segment to write to. It fails only if the
file of the new segment exists. -/
theorem wp_rollSegment (hF : ∀ k, ¬F (.fault k)) (h : JInv s.ghost.tape j s)
    (hlt : s.ghost.tape.length + 1 < 2 ^ 64) (hC : F .cut → ∀ s', CrashWith s.ghost.tape s' → C s') :
    wp F (rollSegment (s.ghost.tape.length + 1))
      (fun _ j' s' => JInv s.ghost.tape j' s' ∧ s'.ghost.tape = s.ghost.tape ∧ j'.current ≠ none)
      (fun _ j' s' => JInv s.ghost.tape j' s' ∧ s'.ghost.tape = s.ghost.tape ∧ j'.current = j.current ∧
        ∃ f, s'.disk.get (segName (s.ghost.tape.length + 1)) = some f) C j s := by
  refine wp_seq (wp_sync (fun hc => hC hc s ⟨h.crash, rfl⟩) (fun k hk => absurd hk (hF k)) h) ?_
  rintro - j₁ s₁ ⟨h₁, hclean, hghost, hcurrent⟩
  obtain ⟨hsealed, hdurable, hfloor, hnames⟩ := h₁.sealedAll hclean
  have htape : s₁.ghost.tape = s.ghost.tape := by rw [hghost]
  have hcan : CanStart s₁ (s.ghost.tape.length + 1) (s.ghost.tape.length + 1) :=
    ⟨h₁.run, htape ▸ hsealed, by omega, Nat.le_refl _, hlt, by rw [htape]; omega, by omega,
      hfloor _ (Or.inl rfl), hnames⟩
  refine wp_mono (wp_startSegment (j := j₁) hF .header .none hcan h₁.crash ?_ (by decide)
    (fun hlt => absurd hlt (Nat.lt_irrefl _)) (fun hlt => absurd hlt (Nat.lt_irrefl _))) ?_ ?_
    (fun _ h => h)
  · rw [htape]
    exact hC
  · rintro - j₂ s₂ ⟨rfl, ⟨epoch, hsegs⟩, hghost₂⟩
    refine ⟨h₁.rolled hclean hlt hsegs ?_ ?_ ?_, ?_, by simp⟩
    · rw [hghost₂]
    · rw [hghost₂]
    · rw [hghost₂]
    · rw [hghost₂, htape]
  · rintro - j₂ s₂ ⟨rfl, rfl, hexists⟩
    exact ⟨h₁, htape, hcurrent, hexists⟩

/-- The process may go down in a store whose tape has or has not got these frames. -/
def CrashAppending (tape frames : List Frame) (s : JStore) : Prop :=
  JCrash s ∧ (s.ghost.tape = tape ∨ s.ghost.tape = tape ++ frames)

theorem CrashWith.before {tape : List Frame} (h : CrashWith tape s) (frames : List Frame) :
    CrashAppending tape frames s := ⟨h.1, Or.inl h.2⟩

/-- The file of the open segment. -/
theorem JInv.file {c : OpenSegment} (h : JInv t j s) (hcur : j.current = some c) :
    ∃ f, s.disk.get (segName c.file) = some f := by
  have hholds := h.holds
  unfold Holds at hholds
  rw [hcur] at hholds
  obtain ⟨pre, a, f, k, hsegs, rfl, -⟩ := hholds
  exact ⟨f, mem_filesOf.mp (by rw [show filesOf .seg s.disk = _ from hsegs]; simp)⟩

/-- The open segment starts at the next seq at the latest. -/
theorem JInv.file_le {c : OpenSegment} (h : JInv t j s) (hcur : j.current = some c) :
    c.file ≤ t.length + 1 := by
  have hholds := h.holds
  unfold Holds at hholds
  rw [hcur] at hholds
  obtain ⟨pre, a, f, k, -, rfl, hchain, -⟩ := hholds
  exact Nat.le_trans hchain.le (Nat.add_le_add_right hchain.bound 1)

/-- The open segment after a write. -/
theorem JInv.written {c : OpenSegment} {f : FileData} {frames : List Frame} {lastSeq : ℕ}
    (h : JInv s.ghost.tape j s) (hcur : j.current = some c) (seg : OpenSegment)
    (hseg : seg.file = c.file) (hget : s.disk.get (segName c.file) = some f)
    (hrun : SeqRun (s.ghost.tape.length + 1) frames)
    (hlast : lastSeq = s.ghost.tape.length + frames.length) :
    JInv (s.ghost.tape ++ frames)
      { j with current := some seg, lastSeq := lastSeq, dirty := true }
      { disk := s.disk.put (segName c.file) (f.write (encodeAll frames)),
        ghost := { s.ghost with tape := s.ghost.tape ++ frames } } := by
  have hholds := h.holds
  unfold Holds at hholds
  rw [hcur] at hholds
  obtain ⟨pre, a, f', k, hsegs, rfl, hchain, hu, hd, hfloor, -⟩ := hholds
  have hget' : s.disk.get (segName c.file) = some f' :=
    mem_filesOf.mp (by rw [show filesOf .seg s.disk = _ from hsegs]; simp)
  obtain rfl : f = f' := Option.some.inj (hget.symm.trans hget')
  refine ⟨?_, ⟨(s.ghost.tape ++ frames).length, by rw [List.take_length]⟩, ?_, ?_⟩
  · refine SeqRun.append.mpr ⟨h.run, ?_⟩
    rwa [Nat.add_comm] at hrun
  · rw [hlast, List.length_append]
  · refine ⟨pre, c.file, f.write (encodeAll frames), k, filesOf_put hsegs _, hseg, ?_, ?_, hd, hfloor, ?_⟩
    · obtain ⟨epoch, hbytes⟩ := (hchain.extend frames).bytes
      exact ⟨(hchain.extend frames).sealed, hchain.pos, hchain.le, hchain.lt,
        (hchain.extend frames).bound, epoch, hbytes⟩
    · rw [List.drop_append_of_le_length hchain.bound, encodeAll_append, ← hu]
      rfl
    · intro hdirty
      cases hdirty

/-- **Writing frames**: on return the journal holds them behind the others. It fails only if a new segment is
needed and its file exists. -/
theorem wp_writeFrames_roll (hF : ∀ k, ¬F (.fault k)) (h : JInv s.ghost.tape j s) {frames : List Frame}
    {lastSeq len : ℕ} (hlt : s.ghost.tape.length + 1 < 2 ^ 64)
    (hrun : SeqRun (s.ghost.tape.length + 1) frames)
    (hlast : lastSeq = s.ghost.tape.length + frames.length)
    (hC : F .cut → ∀ s', CrashAppending s.ghost.tape frames s' → C s') :
    wp F (writeFrames frames (s.ghost.tape.length + 1) lastSeq len)
      (fun _ j' s' => JInv s'.ghost.tape j' s' ∧ s'.ghost.tape = s.ghost.tape ++ frames ∧
        ∀ c, j'.current = some c → c.file ≤ s.ghost.tape.length + 1)
      (fun _ j' s' => JInv s.ghost.tape j' s' ∧ s'.ghost.tape = s.ghost.tape ∧ j'.current = j.current ∧
        (∃ f, s'.disk.get (segName (s.ghost.tape.length + 1)) = some f) ∧ j.needsRoll len = true) C j s := by
  -- a segment is open before anything is written
  refine wp_bind (wp_mem (wp_seq (Q := fun _ j₁ s₁ => JInv s.ghost.tape j₁ s₁ ∧
    s₁.ghost.tape = s.ghost.tape ∧ j₁.current ≠ none) (wp_when (fun hroll => ?_) (fun hroll => ?_)) ?_))
  · refine wp_mono (wp_rollSegment hF h hlt fun hc s' hcrash => hC hc s' (hcrash.before frames))
      (fun _ _ _ h => h) ?_ (fun _ h => h)
    exact fun _ _ _ h => ⟨h.1, h.2.1, h.2.2.1, h.2.2.2, hroll⟩
  · refine ⟨h, rfl, fun hnone => ?_⟩
    simp [needsRoll, hnone] at hroll
  · -- one write, then the fsync policy
    rintro - j₁ s₁ ⟨h₁, htape, hopen⟩
    refine wp_bind (wp_mem ?_)
    cases hcur : j₁.current with
    | none => exact absurd hcur hopen
    | some c =>
      obtain ⟨f, hget⟩ := h₁.file hcur
      have hfile := h₁.file_le hcur
      refine wp_bind (wp_io (wp_writeAll (fun hc => hC hc s₁ ⟨h₁.crash, Or.inl htape⟩)
        (fun k _ hk => absurd hk (hF k)) ?_ ?_))
      · intro e hnone
        rw [hget] at hnone
        cases hnone
      · intro f' hf'
        obtain rfl : f = f' := Option.some.inj (hget.symm.trans hf')
        refine wp_bind (wp_record (wp_bind (wp_update ?_)))
        rw [← htape] at h₁ hrun hlast
        have hinv := h₁.written hcur { c with
          size := c.size + (encodeAll frames).length, frames := c.frames + frames.length }
          rfl hget hrun hlast
        have happended : s₁.ghost.tape ++ frames = s.ghost.tape ++ frames := by rw [htape]
        refine wp_mono (wp_maybeSync (fun hc => hC hc _ ⟨hinv.crash, Or.inr happended⟩)
          (fun k hk => absurd hk (hF k)) hinv) ?_ (fun _ _ _ h => h) (fun _ h => h)
        rintro - j₂ s₂ ⟨h₂, htape₂, hcur₂⟩
        have htape₂ : s₂.ghost.tape = s₁.ghost.tape ++ frames := htape₂
        refine ⟨htape₂ ▸ h₂, htape₂.trans happended, fun c' hc' => ?_⟩
        obtain rfl := Option.some.inj (hcur₂.symm.trans hc')
        exact hfile

theorem wp_writeFrames (hF : ∀ k, ¬F (.fault k)) (h : JInv s.ghost.tape j s) {frames : List Frame}
    {lastSeq len : ℕ} (hlt : s.ghost.tape.length + 1 < 2 ^ 64)
    (hrun : SeqRun (s.ghost.tape.length + 1) frames)
    (hlast : lastSeq = s.ghost.tape.length + frames.length)
    (hC : F .cut → ∀ s', CrashAppending s.ghost.tape frames s' → C s') :
    wp F (writeFrames frames (s.ghost.tape.length + 1) lastSeq len)
      (fun _ j' s' => JInv s'.ghost.tape j' s' ∧ s'.ghost.tape = s.ghost.tape ++ frames ∧
        ∀ c, j'.current = some c → c.file ≤ s.ghost.tape.length + 1)
      (fun _ j' s' => JInv s.ghost.tape j' s' ∧ s'.ghost.tape = s.ghost.tape ∧ j'.current = j.current ∧
        ∃ f, s'.disk.get (segName (s.ghost.tape.length + 1)) = some f) C j s :=
  wp_mono (wp_writeFrames_roll hF h hlt hrun hlast hC) (fun _ _ _ h => h)
    (fun _ _ _ h => ⟨h.1, h.2.1, h.2.2.1, h.2.2.2.1⟩) fun _ h => h

/-- Why an append of frames that start at `n + 1` failed: the frames were out of order, and nothing happened; or the
file of a new segment exists. -/
def Refused (n : ℕ) (frames : List Frame) (j : Journal) (s : JStore) (e : JournalError) (j' : Journal)
    (s' : JStore) : Prop :=
  (¬SeqRun (n + 1) frames ∧ (∃ expected found, e = .outOfOrderAppend expected found) ∧ j' = j ∧ s' = s) ∨
    SeqRun (n + 1) frames ∧ j'.current = j.current ∧ ∃ f, s'.disk.get (segName (n + 1)) = some f

/-- **Append** of one frame. On an error the journal holds what it held. -/
theorem wp_append (hF : ∀ k, ¬F (.fault k)) (h : JInv s.ghost.tape j s) (frame : Frame)
    (hC : F .cut → ∀ s', CrashAppending s.ghost.tape [frame] s' → C s')
    (hover : 2 ^ 64 ≤ s.ghost.tape.length + 1 → C s) :
    wp F (append frame)
      (fun _ j' s' => JInv s'.ghost.tape j' s' ∧ s'.ghost.tape = s.ghost.tape ++ [frame] ∧
        ∀ c, j'.current = some c → c.file ≤ s.ghost.tape.length + 1)
      (fun e j' s' => JInv s.ghost.tape j' s' ∧ s'.ghost.tape = s.ghost.tape ∧
        Refused s.ghost.tape.length [frame] j s e j' s') C j s := by
  refine wp_bind (wp_mem (wp_bind (wp_nextSeq ?_ (fun hover' => hover ?_))))
  · intro hlt
    rw [h.last] at hlt ⊢
    by_cases hseq : frame.seq = s.ghost.tape.length + 1
    · have hrun : SeqRun (s.ghost.tape.length + 1) [frame] := ⟨hseq, trivial⟩
      rw [if_neg (not_not_intro hseq), hseq]
      exact wp_mono (wp_writeFrames hF h hlt hrun rfl hC) (fun _ _ _ h => h)
        (fun _ _ _ h => ⟨h.1, h.2.1, Or.inr ⟨hrun, h.2.2⟩⟩) (fun _ h => h)
    · rw [if_pos hseq]
      exact wp_fail ⟨h, rfl, Or.inl ⟨fun hrun => hseq hrun.1, ⟨_, _, rfl⟩, rfl, rfl⟩⟩
  · rw [h.last] at hover'
    omega

theorem wp_checkBatch {frames : List Frame} {expected : ℕ} {Q : Unit → Journal → JStore → Prop}
    (hok : SeqRun expected frames → Q () j s)
    (herr : ∀ n found, ¬SeqRun expected frames → E (.outOfOrderAppend n found) j s)
    (hover : 2 ^ 64 ≤ expected + frames.length → C s) :
    wp F (checkBatch expected frames) Q E C j s := by
  induction frames generalizing expected with
  | nil => exact wp_pure (hok trivial)
  | cons f fs ih =>
    rw [checkBatch]
    rw [List.length_cons] at hover
    by_cases hseq : f.seq = expected
    · rw [if_neg (not_not_intro hseq)]
      refine wp_bind (wp_nextSeq (fun _ => ?_) (fun hlt => hover (by omega)))
      rw [hseq]
      exact ih (fun hrun => hok ⟨hseq, hrun⟩) (fun n found hrun => herr n found fun h => hrun h.2)
        (fun hle => hover (by omega))
    · rw [if_pos hseq]
      exact wp_fail (herr _ _ fun h => hseq h.1)

theorem SeqRun.getLast_seq {first : ℕ} {fs : List Frame} (h : SeqRun first fs) (hne : fs ≠ []) :
    (fs.getLast hne).seq + 1 = first + fs.length := by
  induction fs generalizing first with
  | nil => exact absurd rfl hne
  | cons f fs ih =>
    obtain ⟨rfl, hrun⟩ := h
    cases fs with
    | nil => rfl
    | cons g fs =>
      rw [List.getLast_cons (by simp), ih hrun (by simp), List.length_cons (a := f)]
      omega

/-- **Append of a batch**: all of it or none of it. -/
theorem wp_appendBatch (hF : ∀ k, ¬F (.fault k)) (h : JInv s.ghost.tape j s) (frames : List Frame)
    (hC : F .cut → ∀ s', CrashAppending s.ghost.tape frames s' → C s')
    (hover : 2 ^ 64 ≤ s.ghost.tape.length + frames.length + 1 → C s) :
    wp F (appendBatch frames)
      (fun _ j' s' => JInv s'.ghost.tape j' s' ∧ s'.ghost.tape = s.ghost.tape ++ frames ∧
        (frames = [] → j' = j) ∧ (frames ≠ [] → ∀ c, j'.current = some c → c.file ≤ s.ghost.tape.length + 1))
      (fun e j' s' => JInv s.ghost.tape j' s' ∧ s'.ghost.tape = s.ghost.tape ∧
        Refused s.ghost.tape.length frames j s e j' s') C j s := by
  cases frames with
  | nil => exact wp_pure ⟨h, by simp, fun _ => rfl, fun hne => absurd rfl hne⟩
  | cons frame rest =>
    rw [List.length_cons] at hover
    refine wp_bind (wp_mem (wp_bind (wp_nextSeq ?_ (fun hover' => hover ?_))))
    · intro hlt
      rw [h.last] at hlt ⊢
      refine wp_bind (wp_checkBatch ?_ ?_ ?_)
      · intro hrun
        have hlast := hrun.getLast_seq (List.cons_ne_nil frame rest)
        rw [show frame.seq = s.ghost.tape.length + 1 from hrun.1]
        exact wp_mono (wp_writeFrames hF h hlt hrun (by omega) hC)
          (fun _ _ _ h => ⟨h.1, h.2.1, fun hnil => absurd hnil (by simp), fun _ => h.2.2⟩)
          (fun _ _ _ h => ⟨h.1, h.2.1, Or.inr ⟨hrun, h.2.2⟩⟩) (fun _ h => h)
      · exact fun n found hrun => ⟨h, rfl, Or.inl ⟨hrun, ⟨_, _, rfl⟩, rfl, rfl⟩⟩
      · intro hle
        rw [List.length_cons] at hle
        exact hover (by omega)
    · rw [h.last] at hover'
      omega

/-! ## Compaction -/

theorem segs_startOf_le {pre : List (ℕ × FileData)} {a : ℕ} {f : FileData}
    (h : segs s = pre ++ [(a, f)]) : startOf pre a ≤ a := by
  cases pre with
  | nil => exact Nat.le_refl a
  | cons p pre =>
    have hsorted : (segs s).Pairwise (·.1 < ·.1) := filesOf_sorted
    rw [h, List.cons_append, List.pairwise_cons] at hsorted
    exact Nat.le_of_lt (hsorted.1 (a, f) (by simp))

/-- Removing the oldest segment. -/
theorem segs_remove {p : ℕ × FileData} {rest : List (ℕ × FileData)} (h : segs s = p :: rest) :
    segs (s.withDisk (s.disk.del (segName p.1))) = rest := by
  have hsorted : (segs s).Pairwise (·.1 < ·.1) := filesOf_sorted
  rw [h, List.pairwise_cons] at hsorted
  show filesOf .seg (s.disk.del (segName p.1)) = rest
  rw [filesOf_del, show filesOf .seg s.disk = p :: rest from h]
  refine (List.filter_cons_of_neg (by simp)).trans (List.filter_eq_self.mpr fun r hr => ?_)
  have := hsorted.1 r hr
  simp only [ne_eq, decide_not, Bool.not_eq_eq_eq_not, Bool.not_true, decide_eq_false_iff_not]
  omega

/-- **The removal loop**: it takes oldest segments away one by one, never past `bound`, and all
of them if the last one starts at or below it. -/
theorem wp_removeBelow {bound a : ℕ} {f : FileData} {pre : List (ℕ × FileData)}
    {Q : ℕ → Journal → JStore → Prop} (hsegs : segs s = pre ++ [(a, f)])
    (hE : ∀ k, F (.fault k) → ∀ e pre' s', pre' <:+ pre → segs s' = pre' ++ [(a, f)] →
      s'.ghost = s.ghost → (pre' = pre ∨ startOf pre' a ≤ bound) → E e j s')
    (hC : F .cut → ∀ pre' s', pre' <:+ pre → segs s' = pre' ++ [(a, f)] → s'.ghost = s.ghost →
      (pre' = pre ∨ startOf pre' a ≤ bound) → C s')
    (hQ : ∀ n pre' s', pre' <:+ pre → segs s' = pre' ++ [(a, f)] → s'.ghost = s.ghost →
      (pre' = pre ∨ startOf pre' a ≤ bound) → (a ≤ bound → pre' = []) → (n = 0 → pre' = pre) → Q n j s') :
    wp F (removeBelow bound ((pre ++ [(a, f)]).map Prod.fst)) Q E C j s := by
  induction pre generalizing s Q with
  | nil => exact wp_pure (hQ 0 [] s List.suffix_rfl hsegs rfl (Or.inl rfl) (fun _ => rfl) fun _ => rfl)
  | cons p rest ih =>
    have hlist : ((p :: rest ++ [(a, f)]).map Prod.fst) =
        p.1 :: startOf rest a :: ((rest ++ [(a, f)]).map Prod.fst).tail := by
      cases rest <;> rfl
    have htail : startOf rest a :: ((rest ++ [(a, f)]).map Prod.fst).tail =
        (rest ++ [(a, f)]).map Prod.fst := by
      cases rest <;> rfl
    have hget : s.disk.get (segName p.1) = some p.2 :=
      mem_filesOf.mp (by rw [show filesOf .seg s.disk = _ from hsegs]; simp)
    rw [hlist, removeBelow]
    by_cases hb : startOf rest a ≤ bound
    · rw [if_pos hb, htail]
      refine wp_bind (wp_io (wp_remove
        (fun hc => hC hc _ s List.suffix_rfl hsegs rfl (Or.inl rfl))
        (fun k hk => hE k hk _ _ s List.suffix_rfl hsegs rfl (Or.inl rfl)) ?_
        (fun hnone => by rw [hget] at hnone; cases hnone)))
      intro _ _
      have hsegs' := segs_remove (s := s) (p := p) hsegs
      have hbound : ∀ {pre' : List (ℕ × FileData)}, pre' = rest ∨ startOf pre' a ≤ bound →
          startOf pre' a ≤ bound := fun h => h.elim (fun heq => heq ▸ hb) id
      refine wp_bind (ih hsegs' ?_ ?_ ?_)
      · intro k hk e pre' s' hsuf hs' hghost hfloor
        exact hE k hk e pre' s' (hsuf.trans (List.suffix_cons p rest)) hs' hghost (Or.inr (hbound hfloor))
      · intro hc pre' s' hsuf hs' hghost hfloor
        exact hC hc pre' s' (hsuf.trans (List.suffix_cons p rest)) hs' hghost (Or.inr (hbound hfloor))
      · intro n pre' s' hsuf hs' hghost hfloor hall _
        exact wp_pure (hQ (n + 1) pre' s' (hsuf.trans (List.suffix_cons p rest)) hs' hghost
          (Or.inr (hbound hfloor)) hall fun hn => absurd hn (Nat.succ_ne_zero n))
    · rw [if_neg hb]
      refine wp_pure (hQ 0 (p :: rest) s List.suffix_rfl hsegs rfl (Or.inl rfl) (fun ha => ?_) fun _ => rfl)
      have hle := segs_startOf_le (segs_remove (s := s) (p := p) hsegs)
      omega

theorem Sealed.suffix {tape : List Frame} {l l' : List (ℕ × FileData)} {b : ℕ}
    (h : Sealed tape l b) (hsuf : l' <:+ l) : Sealed tape l' b := by
  obtain ⟨x, rfl⟩ := hsuf
  induction x with
  | nil => exact h
  | cons p x ih => exact ih h.2.2.2.2

/-- What is left of a journal when leading segments are gone. -/
theorem JInv.dropped {s' : JStore} {c : OpenSegment} {pre pre' : List (ℕ × FileData)} {a k : ℕ}
    {f : FileData} (h : JInv t j s) (hcur : j.current = some c) (hfile : c.file = a)
    (hchain : Chain t pre a k f []) (hu : f.unsynced = encodeAll (t.drop k))
    (hd : s.ghost.durable ≤ k) (hk : j.dirty = false → k = t.length) (hsuf : pre' <:+ pre)
    (hsegs : segs s' = pre' ++ [(a, f)]) (htape : s'.ghost.tape = s.ghost.tape)
    (hdur : s'.ghost.durable = s.ghost.durable) (hfloor : startOf pre' a ≤ s'.ghost.cutoff + 1) :
    JInv t j s' := by
  obtain ⟨n, hn⟩ := h.part
  refine ⟨htape ▸ h.run, ⟨n, htape ▸ hn⟩, h.last, ?_⟩
  unfold Holds
  rw [hcur]
  exact ⟨pre', a, f, k, hsegs, hfile,
    ⟨hchain.sealed.suffix hsuf, hchain.pos, hchain.le, hchain.lt, hchain.bound, hchain.bytes⟩, hu,
    hdur ▸ hd, hfloor, hk⟩

/-- A larger cutoff only grows the room below the first segment. -/
theorem JInv.raiseCutoff (h : JInv t j s) (cutoff : ℕ) :
    JInv t j { s with ghost := { s.ghost with cutoff := max s.ghost.cutoff cutoff } } := by
  refine ⟨h.run, h.part, h.last, ?_⟩
  have hholds := h.holds
  unfold Holds at hholds ⊢
  cases hcur : j.current with
  | none =>
    rw [hcur] at hholds
    exact hholds
  | some c =>
    rw [hcur] at hholds
    obtain ⟨pre, a, f, k, hsegs, hfile, hchain, hu, hd, hfloor, hk⟩ := hholds
    exact ⟨pre, a, f, k, hsegs, hfile, hchain, hu, hd,
      Nat.le_trans hfloor (Nat.add_le_add_right (Nat.le_max_left ..) 1), hk⟩

/-- **Compaction**: the journal still holds every frame, from a later first segment on. -/
theorem wp_compactBelow (hF : ∀ k, ¬F (.fault k)) (h : JInv t j s) (cutoff : ℕ)
    (hC : F .cut → ∀ s', CrashWith s.ghost.tape s' → C s')
    (hover : 2 ^ 64 ≤ cutoff + 1 → 1 < (segs s).length →
      C { s with ghost := { s.ghost with cutoff := max s.ghost.cutoff cutoff } }) :
    wp F (compactBelow cutoff)
      (fun n j' s' => JInv t j' s' ∧ s'.ghost = { s.ghost with cutoff := max s.ghost.cutoff cutoff } ∧
        j' = j ∧ (n = 0 → segs s' = segs s)) E C j s := by
  have h₁ := h.raiseCutoff cutoff
  refine wp_bind (wp_record (wp_bind (wp_io (wp_listDir (fun hc => hC hc _ ⟨h₁.crash, rfl⟩)
    (fun k hk => absurd hk (hF k)) ?_))))
  simp only [sortedNumbers_names]
  split
  · exact wp_pure ⟨h₁, rfl, rfl, fun _ => rfl⟩
  rename_i hmany
  rw [List.length_map] at hmany
  refine wp_bind (wp_nextSeq (fun _ => ?_) (fun hlt => hover (by omega) (show 1 < (filesOf .seg s.disk).length by omega)))
  have hholds := h₁.holds
  unfold Holds at hholds
  cases hcur : j.current with
  | none =>
    rw [hcur] at hholds
    rw [show filesOf .seg s.disk = [] from hholds.1] at hmany
    exact absurd (Nat.zero_le 1) hmany
  | some c =>
    rw [hcur] at hholds
    obtain ⟨pre, a, f, k, hsegs, hfile, hchain, hu, hd, hfloor, hk⟩ := hholds
    have hdropped : ∀ (pre' : List (ℕ × FileData)) (s' : JStore), pre' <:+ pre →
        segs s' = pre' ++ [(a, f)] →
        s'.ghost = { s.ghost with cutoff := max s.ghost.cutoff cutoff } →
        (pre' = pre ∨ startOf pre' a ≤ cutoff + 1) → JInv t j s' := by
      intro pre' s' hsuf hs' hghost hlow
      refine h₁.dropped hcur hfile hchain hu hd hk hsuf hs' (by rw [hghost]) (by rw [hghost]) ?_
      rw [hghost]
      rcases hlow with rfl | hlow
      · exact hfloor
      · exact Nat.le_trans hlow (Nat.add_le_add_right (Nat.le_max_right ..) 1)
    rw [show filesOf .seg s.disk = pre ++ [(a, f)] from hsegs]
    refine wp_bind (wp_removeBelow hsegs (fun k hk => absurd hk (hF k)) ?_ ?_)
    · intro hc pre' s' hsuf hs' hghost hlow
      exact hC hc s' ⟨(hdropped pre' s' hsuf hs' hghost hlow).crash, by rw [hghost]⟩
    · intro n pre' s' hsuf hs' hghost hlow _ hzero
      have h₂ := hdropped pre' s' hsuf hs' hghost hlow
      have hsame : n = 0 → segs s' = segs s := fun hn => by rw [hs', hzero hn, hsegs]
      refine wp_bind (wp_when (fun _ => ?_) (fun _ => wp_pure ⟨h₂, hghost, rfl, hsame⟩))
      refine wp_io (wp_syncDir (fun hc => hC hc s' ⟨h₂.crash, by rw [hghost]⟩)
        (fun k hk => absurd hk (hF k)) ?_)
      exact wp_pure ⟨⟨h₂.run, h₂.part, h₂.last, h₂.holds⟩, hghost, rfl, hsame⟩

/-! ## Reseating -/

theorem Starting.suffix {s' : JStore} {pre pre' : List (ℕ × FileData)} {b a : ℕ} {f : FileData}
    (h : Starting s pre b a f) (hsuf : pre' <:+ pre) (hsegs : segs s' = pre' ++ [(a, f)])
    (hghost : s'.ghost = s.ghost) (hfloor : startOf pre' a ≤ s.ghost.cutoff + 1) :
    Starting s' pre' b a f := by
  obtain ⟨hrun, -, hsealed, hpos, hle, hlt, hbound, hdurable, -, hwindow, hreseat, hbytes⟩ := h
  rw [← hghost] at hrun hsealed hbound hdurable hfloor hwindow hreseat
  exact ⟨hrun, hsegs, hsealed.suffix hsuf, hpos, hle, hlt, hbound, hdurable, hfloor, hwindow, hreseat,
    hbytes⟩

/-- The compaction inside a reseat drops every older segment. -/
theorem wp_compactBelow_reseat (hF : ∀ k, ¬F (.fault k)) {pre : List (ℕ × FileData)} {b n : ℕ}
    {f : FileData} {Q : ℕ → Journal → JStore → Prop} (h : Starting s pre b (n + 1) f)
    (hcutoff : n ≤ s.ghost.cutoff)
    (hQ : ∀ r s', segs s' = [(n + 1, f)] → s'.ghost = s.ghost → Q r j s') :
    wp F (compactBelow n) Q E (CrashWith s.ghost.tape) j s := by
  have hmax : max s.ghost.cutoff n = s.ghost.cutoff := Nat.max_eq_left hcutoff
  refine wp_bind (wp_record ?_)
  rw [show ({ s with ghost := { s.ghost with cutoff := max s.ghost.cutoff n } } : JStore) = s by
    rw [hmax]]
  refine wp_bind (wp_io (wp_listDir (fun _ => ⟨h.crash, rfl⟩) (fun k hk => absurd hk (hF k)) ?_))
  simp only [sortedNumbers_names]
  rw [show filesOf .seg s.disk = pre ++ [(n + 1, f)] from h.listing]
  split
  · rename_i hone
    have hnil : pre = [] := by
      cases pre with
      | nil => rfl
      | cons p pre => simp at hone
    refine wp_pure (hQ _ s ?_ rfl)
    rw [h.listing, hnil, List.nil_append]
  · refine wp_bind (wp_nextSeq (fun _ => ?_) (fun _ => ⟨h.crash, rfl⟩))
    have hsmall : ∀ {pre' : List (ℕ × FileData)}, pre' = pre ∨ startOf pre' (n + 1) ≤ n + 1 →
        startOf pre' (n + 1) ≤ s.ghost.cutoff + 1 := by
      rintro pre' (rfl | hlow)
      · exact h.floor
      · omega
    refine wp_bind (wp_removeBelow h.listing (fun k hk => absurd hk (hF k)) ?_ ?_)
    · intro _ pre' s' hsuf hs' hghost hlow
      exact ⟨(h.suffix hsuf hs' hghost (hsmall hlow)).crash, by rw [hghost]⟩
    · intro r pre' s' hsuf hs' hghost hlow hall _
      obtain rfl := hall (Nat.le_refl _)
      have hstart := h.suffix hsuf hs' hghost (hsmall hlow)
      refine wp_bind (wp_when (fun _ => ?_) (fun _ => wp_pure (hQ _ s' hs' hghost)))
      exact wp_io (wp_syncDir (fun _ => ⟨hstart.crash, by rw [hghost]⟩)
        (fun k hk => absurd hk (hF k)) (wp_pure (hQ _ _ hs' hghost)))

/-- **Reseating** an opened journal whose frames end at `t` to resume behind `n`. -/
theorem wp_reseatTo (hF : ∀ k, ¬F (.fault k)) (h : JInv t j s) {n : ℕ}
    (hn : t.length < n) (hbound : n ≤ s.ghost.tape.length) (hlt : n + 1 < 2 ^ 64) :
    wp F (reseatTo (n + 1))
      (fun _ j' s' => JInv (s.ghost.tape.take n) j' s' ∧ s'.ghost =
        { s.ghost with durable := t.length, cutoff := max s.ghost.cutoff n, window := .none })
      E (CrashWith s.ghost.tape) j s := by
  refine wp_bind (wp_record ?_)
  simp only [Nat.add_sub_cancel]
  refine wp_seq (wp_sync (fun _ => ⟨(h.raiseCutoff n).crash, rfl⟩) (fun k hk => absurd hk (hF k))
    (h.raiseCutoff n)) ?_
  rintro - j₁ s₁ ⟨h₁, hclean₁, hghost₁, -⟩
  obtain ⟨hsealed, hdurable, hfloor, hnames⟩ := h₁.sealedAll hclean₁
  have htape : s₁.ghost.tape = s.ghost.tape := by rw [hghost₁]
  have hcut₁ : s₁.ghost.cutoff = max s.ghost.cutoff n := by rw [hghost₁]
  obtain ⟨i, ht⟩ := h₁.part
  have hti : t.length ≤ i := by
    rw [ht, List.length_take]
    exact Nat.min_le_left ..
  have hcan : CanStart s₁ (t.length + 1) (n + 1) := by
    refine ⟨h₁.run, ?_, by omega, by omega, hlt, by rw [htape]; omega, by omega, ?_, ?_⟩
    · refine hsealed.congr ?_
      have htake : t.take t.length = s₁.ghost.tape.take t.length := by
        conv_lhs => rw [ht, List.take_take, ← ht, Nat.min_eq_left hti]
      rw [Nat.add_sub_cancel, htake]
    · refine hfloor _ (Or.inr ?_)
      rw [hcut₁]
      exact Nat.add_le_add_right (Nat.le_max_right ..) 1
    · intro p hp
      have := hnames p hp
      omega
  have hstart := wp_startSegment (j := j₁) (C := CrashWith s₁.ghost.tape) hF .reseat .reseat hcan h₁.crash
    (fun _ _ h => h) (by decide)
    (fun _ => rfl) (fun _ => rfl)
  rw [htape] at hstart
  refine wp_bind (wp_mono hstart ?_ ?_ (fun _ h => h))
  · rintro - j₂ s₂ ⟨rfl, ⟨epoch, hsegs₂⟩, hghost₂⟩
    have htape₂ : s₂.ghost.tape = s.ghost.tape := by rw [hghost₂, htape]
    have hstarting : Starting s₂ (segs s₁) (t.length + 1) (n + 1)
        ⟨segmentHeaderBytes (n + 1) epoch, []⟩ := by
      have hwin : s₂.ghost.window = .reseat := by rw [hghost₂]
      refine ⟨htape₂ ▸ h.run, hsegs₂, ?_, hcan.pos, hcan.le, hlt, by rw [htape₂]; omega, ?_, ?_,
        Or.inl (by rw [hwin]; decide), fun _ => hwin, ⟨epoch, 0, Or.inr rfl⟩⟩
      · rw [htape₂, ← htape]
        exact hcan.sealed
      · rw [hghost₂]
        exact hcan.durable
      · rw [hghost₂]
        exact hcan.floor
    have hcut₂ : s₂.ghost.cutoff = max s.ghost.cutoff n := by rw [hghost₂, hcut₁]
    refine wp_bind (wp_update ?_)
    rw [← htape₂]
    refine wp_bind (wp_compactBelow_reseat hF hstarting (by rw [hcut₂]; exact Nat.le_max_right ..) ?_)
    intro _ s₃ hsegs₃ hghost₃
    refine wp_record ⟨?_, ?_⟩
    · refine ⟨by rw [hghost₃, htape₂]; exact h.run, ⟨n, by rw [hghost₃]⟩, ?_, ?_⟩
      · simp only [List.length_take, htape₂]
        omega
      · have hlen : (s₂.ghost.tape.take n).length = n := by
          rw [List.length_take, htape₂, Nat.min_eq_left hbound]
        refine ⟨[], n + 1, _, n, hsegs₃, rfl,
          Chain.fresh trivial (by rw [hlen]) hlt rfl, ?_, ?_, ?_, fun _ => hlen.symm⟩
        · rw [List.drop_of_length_le (by rw [hlen]), encodeAll_nil]
        · show s₃.ghost.durable ≤ n
          rw [hghost₃, hghost₂, hghost₁]
          show t.length ≤ n
          omega
        · show n + 1 ≤ s₃.ghost.cutoff + 1
          rw [hghost₃, hcut₂]
          exact Nat.add_le_add_right (Nat.le_max_right ..) 1
    · rw [hghost₃, hghost₂, hghost₁]
  · rintro - j₂ s₂ ⟨-, -, f, hf⟩
    have := hnames _ (mem_filesOf.mpr hf)
    omega

end Ticktape.Journal
