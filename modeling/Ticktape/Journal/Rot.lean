import Ticktape.Journal.RoundTrip

/-!
# Bit rot

A change of at most four consecutive bytes of a segment file, wherever it lies. Every byte of the file belongs to a
block that ends in its CRC32C: the header of the segment, or the header or the payload of one of its frames. The
first block that was changed is refused (`burst_segment`), so a reader is given an error, or, if the change lies
behind the header of the newest segment, the frames before it.
-/

namespace Ticktape.Journal

open Ticktape.Lib Ticktape.Core

/-- **Segments under bit rot**: the header was changed and is refused, or the frames before the changed one are
whole, and it is refused. -/
theorem burst_segment {a : ℕ} {epoch : UInt64} {fs : List Frame} {q : Bytes}
    (h : Burst 4 (segmentHeaderBytes a epoch ++ encodeAll fs) q) :
    (∃ e, parseSegmentHeader (segName a) q = .error e) ∨
    ∃ k q', k < fs.length ∧ q = segmentHeaderBytes a epoch ++ (encodeAll (fs.take k) ++ q') ∧ q' ≠ [] ∧
      ∃ e, Frame.readFrom q' = .error e := by
  obtain ⟨header, rest, rfl, hheader | ⟨rfl, hrest⟩⟩ := h.split
  · exact Or.inl (parseSegmentHeader_burst hheader.bitBurst _ rest)
  · obtain ⟨k, q', hk, rfl, hne, hbad⟩ := encodeAll_burst fs hrest
    exact Or.inr ⟨k, q', hk, rfl, hne, hbad⟩

/-! ## Opening -/

theorem startOf_cons {l r : List (ℕ × FileData)} {b c : ℕ} {f : FileData} :
    startOf (l ++ (b, f) :: r) c = startOf l b := by
  cases l <;> rfl

/-- One of the sealed segments. -/
theorem Sealed.at_segment {tape : List Frame} {l r : List (ℕ × FileData)} {a b : ℕ} {f : FileData}
    (h : Sealed tape (l ++ (b, f) :: r) a) : Sealed tape l b ∧ Sealed tape ((b, f) :: r) a := by
  induction l with
  | nil => exact ⟨trivial, h⟩
  | cons p l ih =>
    obtain ⟨hpos, hle, hu, hbytes, hrest⟩ := h
    rw [List.append_eq, startOf_cons] at hle hbytes
    exact ⟨⟨hpos, hle, hu, hbytes, (ih hrest).1⟩, (ih hrest).2⟩

/-- The frames that the segments hold: those written, from the first segment on. -/
def original (written : List Frame) (s : JStore) : List Frame := written.drop (startOf (segs s) 1 - 1)

/-- No segment is newer. -/
def Newest (s : JStore) (b : ℕ) : Prop := ∀ c g, s.disk.get (segName c) = some g → c ≤ b

section Opening

variable {μ : Type} {m : μ} {s : JStore} {t : List Frame} {j : Journal} {b : ℕ} {f f' : FileData}

/-- **The newest segment under bit rot.** -/
theorem wp_openWith_rotten_last {l : List (ℕ × FileData)} (h : ReadsAs s t l b f []) (hrun : SeqRun 1 t)
    (hrot : Burst 4 f.combined f'.combined) (config : JournalConfig) :
    wp Fate.calm (openWith config) (fun r _ _ => r.frames <+: original t s ∧
        f'.combined.take SEGMENT_HEADER_LEN = f.combined.take SEGMENT_HEADER_LEN) (fun _ _ _ => True)
      (fun _ => False) m (s.withDisk (s.disk.put (segName b) f')) := by
  obtain ⟨hsegs, hsealed, hpos, hle, hlt, epoch, hbytes⟩ := h
  have hsegs' : segs (s.withDisk (s.disk.put (segName b) f')) = l ++ [(b, f')] := filesOf_put hsegs f'
  have hnocut : ∀ {P : Prop}, Fate.calm .cut → P := fun hc => absurd hc calm_no_cut
  have hframes : SeqRun b (span t b (t.length + 1)) := span_run hrun hpos (by omega)
  have hcount : b + (span t b (t.length + 1)).length = t.length + 1 := by
    rw [span_length (by omega)]
    omega
  rw [List.append_nil] at hbytes
  rw [hbytes] at hrot
  rcases burst_segment hrot with hbad | ⟨k, q, hk, hrotten, hne, hbad⟩
  · exact wp_mono (wp_openWith_headless calm_no_fault hnocut hrun hsegs' hsealed (by omega) hlt hbad config)
      (fun _ _ _ h => h.elim) (fun _ _ _ _ => trivial) fun _ h => h
  · -- a reader sees the frames before the changed one
    have hbelow : b + k < 2 ^ 64 := by
      have hbound := hframes.bound (List.ne_nil_of_length_pos (by omega))
      omega
    have hlen : (t.take (b - 1 + k)).length + 1 = b + k := by
      rw [List.length_take]
      omega
    have hreads : ReadsAs (s.withDisk (s.disk.put (segName b) f')) (t.take (b - 1 + k)) l b f' q := by
      refine ⟨hsegs', hsealed.congr ?_, hpos, by omega, hlt, epoch, ?_⟩
      · rw [List.take_take, Nat.min_eq_left (Nat.le_add_right ..)]
      · rw [hrotten, hlen, span, span, Nat.add_sub_cancel, List.take_length,
          show b + k - 1 = b - 1 + k by omega, List.take_take, Nat.min_self, List.drop_take, Nat.add_sub_cancel_left]
    apply wp_mono (wp_openWith_reads (C := fun _ => False) (E := fun _ _ _ => True) calm_no_fault hreads hnocut
      hnocut (hrun.take _) (fun hover => absurd hover (by omega)) (Or.inr hbad) config)
    · rintro r m' s' ⟨-, hr⟩
      constructor
      · rw [hr.frames, hr.first, original, show segs s = l ++ (b, f) :: [] from hsegs, startOf_cons, List.drop_take]
        exact List.take_prefix _ _
      · rw [hrotten, hbytes, List.take_left' (segmentHeaderBytes_length ..),
          List.take_left' (segmentHeaderBytes_length ..)]
    · exact fun _ _ _ h => h
    · exact fun _ h => h

/-- **A sealed segment under bit rot.** -/
theorem wp_openWith_rotten_sealed {l r : List (ℕ × FileData)} {next : ℕ × FileData} {a : ℕ}
    (hsegs : segs s = l ++ (b, f) :: next :: r) {rest : List (ℕ × FileData)}
    (hsealed : Sealed t (l ++ (b, f) :: rest) a) (ha : a ≤ t.length + 1) (hlt : a < 2 ^ 64) (hrun : SeqRun 1 t)
    (hrot : Burst 4 f.combined f'.combined) (config : JournalConfig) :
    wp Fate.calm (openWith config) (fun _ _ _ => False) (fun _ _ _ => True) (fun _ => False) m
      (s.withDisk (s.disk.put (segName b) f')) := by
  have hsegs' : segs (s.withDisk (s.disk.put (segName b) f')) = l ++ (b, f') :: next :: r := filesOf_put hsegs f'
  have hnocut : ∀ {P : Prop}, Fate.calm .cut → P := fun hc => absurd hc calm_no_cut
  obtain ⟨hbefore, hpos, hle, hu, ⟨epoch, hbytes⟩, hafter⟩ := hsealed.at_segment
  have hstart := hafter.startOf_le
  have hcombined : f.combined = segmentHeaderBytes b epoch ++ encodeAll (span t b (startOf rest a)) := by
    rw [FileData.combined, hu, List.append_nil, hbytes]
  rw [hcombined] at hrot
  rcases burst_segment hrot with hbad | ⟨k, q, hk, hrotten, hne, hbad⟩
  · exact wp_mono (wp_openWith_headless calm_no_fault hnocut hrun hsegs' hbefore (by omega) (by omega) hbad config)
      (fun _ _ _ h => h) (fun _ _ _ _ => trivial) fun _ h => h
  · have hcount : b + (span t b (startOf rest a)).length = startOf rest a := by
      rw [span_length (by omega)]
      omega
    have hframes : SeqRun b ((span t b (startOf rest a)).take k) := (span_run hrun hpos (by omega)).take k
    have hbelow : b + ((span t b (startOf rest a)).take k).length < 2 ^ 64 := by
      rw [List.length_take]
      omega
    exact wp_mono (wp_openWith_corrupt calm_no_fault hnocut hrun hsegs' hbefore (by omega) hrotten hframes hbelow
      hne hbad config) (fun _ _ _ h => h) (fun _ _ _ _ => trivial) fun _ h => h

/-- **Opening under bit rot.** -/
theorem wp_openWith_rotten (h : JInv t j s) (hrun : SeqRun 1 t) (hget : s.disk.get (segName b) = some f)
    (hrot : Burst 4 f.combined f'.combined) (config : JournalConfig) :
    wp Fate.calm (openWith config) (fun r _ _ => r.frames <+: original t s ∧ Newest s b ∧
        f'.combined.take SEGMENT_HEADER_LEN = f.combined.take SEGMENT_HEADER_LEN) (fun _ _ _ => True)
      (fun _ => False) m (s.withDisk (s.disk.put (segName b) f')) := by
  have hmem : (b, f) ∈ segs s := mem_filesOf.mpr hget
  obtain ⟨l, r, hsegs⟩ := List.append_of_mem hmem
  cases hcur : j.current with
  | none =>
    have hholds := h.holds
    unfold Holds at hholds
    rw [hcur] at hholds
    rw [hholds.1] at hmem
    cases hmem
  | some c =>
    obtain ⟨pre, g, hreads, -⟩ := h.readsAs hcur
    have hlisting := hsegs.symm.trans hreads.listing
    rcases List.eq_nil_or_concat r with rfl | ⟨r, last, rfl⟩
    · -- the newest segment
      obtain ⟨rfl, hlast⟩ := List.append_inj' hlisting rfl
      obtain ⟨rfl, rfl⟩ := Prod.mk.inj (List.cons.inj hlast).1
      apply wp_mono (wp_openWith_rotten_last hreads hrun hrot config)
      · rintro r m' s' ⟨hfound, hheader⟩
        refine ⟨hfound, fun a g hg => ?_, hheader⟩
        have hin : (a, g) ∈ segs s := mem_filesOf.mpr hg
        have hsorted : (segs s).Pairwise (·.1 < ·.1) := filesOf_sorted
        rw [hsegs] at hin hsorted
        rcases List.mem_append.mp hin with hin | hin
        · exact Nat.le_of_lt ((List.pairwise_append.mp hsorted).2.2 (a, g) hin (c.file, f) (List.mem_singleton.mpr rfl))
        · exact (Prod.mk.inj (List.mem_singleton.mp hin)).1.le
      · exact fun _ _ _ h => h
      · exact fun _ h => h
    · -- a sealed one
      rw [List.concat_eq_append] at hsegs hlisting
      have hsplit : (l ++ (b, f) :: r) ++ [last] = pre ++ [(c.file, g)] := by
        rw [← hlisting, List.append_assoc]
        rfl
      obtain ⟨rfl, hlast⟩ := List.append_inj' hsplit rfl
      have hsealed := hreads.sealed
      cases hr : r ++ [last] with
      | nil => simp at hr
      | cons next rest =>
        rw [hr] at hsegs
        exact wp_mono (wp_openWith_rotten_sealed hsegs hsealed hreads.le hreads.lt hrun hrot config)
          (fun _ _ _ h => h.elim) (fun _ _ _ h => h) fun _ h => h

end Opening

/-! ## Bit rot -/

theorem original_of_whole {written : List Frame} {cut : ℕ} {j : Journal} {s : JStore} (h : Sound written cut 0 j s) :
    original written s = written := by
  by_cases hnil : written = []
  · rw [original, hnil, List.drop_nil]
  · -- the segment that starts at 1 is still there
    obtain ⟨g, hg⟩ := h.whole rfl hnil
    have hmem : (1, g) ∈ segs s := mem_filesOf.mpr hg
    have hstart : startOf (segs s) 1 ≤ 1 := by
      rcases List.eq_nil_or_concat (segs s) with hnone | ⟨pre, last, heq⟩
      · rw [hnone] at hmem
        cases hmem
      · rw [List.concat_eq_append] at heq
        obtain ⟨a, f⟩ := last
        rw [heq, startOf_append]
        exact startOf_le_of_mem heq hmem
    rw [original, Nat.sub_eq_zero_of_le hstart, List.drop_zero]

/-- **Bit rot is loud or a clean prefix.** However a journal was written, if at most four consecutive bytes of one of
its segment files are changed, opening it fails, or returns a prefix of the frames it held; and it fails unless
the segment is the newest one and its header was left alone. -/
theorem bit_rot_is_loud {written : List Frame} {cut removed : ℕ} {j : Journal} {s : JStore}
    (h : Faultless written cut removed j s) {b : ℕ} {f f' : FileData} (hget : s.disk.get (segName b) = some f)
    (hrot : Burst 4 f.combined f'.combined) {w : World JStore}
    (hw : w.st = s.withDisk (s.disk.put (segName b) f')) (hcalm : w.Calm) (config : JournalConfig) :
    (removed = 0 → original written s = written) ∧
      ((∃ r w', openWith config () w = .ok r () w' ∧ r.frames <+: original written s ∧ Newest s b ∧
          f'.combined.take SEGMENT_HEADER_LEN = f.combined.take SEGMENT_HEADER_LEN) ∨
        ∃ e w', openWith config () w = .err e () w') := by
  have hsound := sound_of_faultless h
  refine ⟨fun hremoved => original_of_whole (hremoved ▸ hsound), ?_⟩
  have hrun : SeqRun 1 written := hsound.tape ▸ hsound.journal.run
  have hspec := wp_openWith_rotten (m := ()) hsound.journal hrun hget hrot config
  rw [← hw] at hspec
  rcases wp_outcome hspec hcalm (ends_openWith config) with ⟨r, _, w', hopen, hr⟩ | ⟨e, _, w', hopen, -⟩
  · exact Or.inl ⟨r, w', hopen, hr⟩
  · exact Or.inr ⟨e, w', hopen⟩

/-- The file with another byte at `i`. -/
def spoilt (i : ℕ) (f : FileData) : FileData := ⟨f.combined.modify i (· + 1), []⟩

theorem burst_spoilt {i : ℕ} {f : FileData} (hi : i < f.combined.length) :
    Burst 4 f.combined (spoilt i f).combined := by
  have hspoilt : (spoilt i f).combined = f.combined.modify i (· + 1) := List.append_nil _
  rw [hspoilt, List.modify_eq_take_cons_drop hi]
  refine ⟨f.combined.take i, [f.combined[i]], [f.combined[i] + 1], f.combined.drop (i + 1), ?_, rfl, rfl, by simp,
    fun heq => ?_⟩
  · rw [List.singleton_append, ← List.drop_eq_getElem_cons hi, List.take_append_drop]
  · have hsame : f.combined[i] + 0 = f.combined[i] + 1 := (UInt8.add_zero _).trans (List.cons.inj heq).1
    exact absurd (UInt8.add_right_inj _ |>.mp hsame) (by decide)

/-- The newest of two segments, a byte of its frame changed. -/
theorem bit_rot_is_loud_of_two_segments : ∃ (written : List Frame) (s : JStore) (f : FileData) (w : World JStore),
    written.length = 2 ∧ s.disk.get (segName 2) = some f ∧
    w.st = s.withDisk (s.disk.put (segName 2) (spoilt 40 f)) ∧
    (0 = 0 → original written s = written) ∧
      ((∃ r w', openWith ⟨0, .everyFrame⟩ () w = .ok r () w' ∧ r.frames <+: original written s ∧ Newest s 2 ∧
          (spoilt 40 f).combined.take SEGMENT_HEADER_LEN = f.combined.take SEGMENT_HEADER_LEN) ∨
        ∃ e w', openWith ⟨0, .everyFrame⟩ () w = .err e () w') := by
  have hrun : twoSegments.any (fun p => (p.2.st.disk.get (segName 2)).any fun f => 40 < f.combined.length) = true := by
    decide +kernel
  obtain ⟨⟨j, w⟩, htwo, hfile⟩ := (Option.any_eq_true _ _).mp hrun
  obtain ⟨f, hget, hlong⟩ := (Option.any_eq_true _ _).mp hfile
  obtain ⟨-, written, hlen, hfaultless⟩ := faultless_twoSegments htwo
  have hcalm : ∀ s : JStore, (World.healthy s).Calm := fun s g hg => by cases hg
  exact ⟨written, w.st, f, .healthy _, hlen, hget, rfl, bit_rot_is_loud hfaultless hget
    (burst_spoilt (of_decide_eq_true hlong)) rfl (hcalm _) _⟩

end Ticktape.Journal
