import Ticktape.Journal.Reader
import Ticktape.Runtime.Inputs
import Ticktape.Runtime.Run
import Ticktape.Sim.Simulate

/-!
# What the simulator's recovery finds

A simulated crash is a power loss like any other (`crashDisk_powerLoss`), and the simulated disk injects no
errors. So the recovered node resumes within the history and has applied what is left of it (`wp_reopen`); and
where the shadow agrees with the history, the frames that are read again pass (`wp_checkFrames`) and the
independent replay is the replay of the history (`shadowReplay_eq`).
-/

namespace Ticktape.Sim

open Ticktape.Lib Ticktape.Core Ticktape.Journal Ticktape.Runtime

/-! ## Power loss -/

/-- A bit flipped in what survives. -/
theorem torn_flipBit (tail : Bytes) (keep idx bit : ℕ) (hbit : bit < 8) :
    Torn tail (flipBit idx bit (tail.take keep)) := by
  induction tail generalizing keep idx with
  | nil =>
    rw [List.take_nil, flipBit, List.modify_nil]
    exact .lost []
  | cons b tail ih =>
    cases keep with
    | zero =>
      rw [List.take_zero, flipBit, List.modify_nil]
      exact .lost _
    | succ keep =>
      rw [List.take_succ_cons]
      cases idx with
      | zero =>
        rw [flipBit, List.modify_zero_cons]
        exact .flip ⟨bit, hbit, rfl⟩ tail keep
      | succ idx =>
        rw [flipBit, List.modify_succ_cons]
        exact .keep b (ih keep idx)

theorem torn_crashTail (torn : Bool) (tail : Bytes) (rng : Rng) : Torn tail (crashTail torn tail rng).1 := by
  unfold crashTail
  simp only
  split
  · split
    · exact torn_flipBit _ _ _ _ (Nat.mod_lt _ (by decide))
    · exact Torn.take _ _
  · exact Torn.take _ _

theorem survives_crashFile (torn : Bool) (f : FileData) (rng : Rng) : f.Survives (crashFile torn f rng).1 :=
  ⟨_, torn_crashTail torn f.unsynced rng, rfl⟩

/-- The files that are listed survive, and the others stay as they are. -/
theorem crashFiles_get (torn : Bool) {l : List (FileName × FileData)} (d : Disk FileName) (rng : Rng)
    (hdistinct : l.Pairwise fun p p' => p.1 ≠ p'.1) :
    (∀ k, (∀ f, (k, f) ∉ l) → (crashFiles torn l d rng).1.get k = d.get k) ∧
      ∀ k f, (k, f) ∈ l → ∃ f', (crashFiles torn l d rng).1.get k = some f' ∧ f.Survives f' := by
  induction l generalizing d rng with
  | nil => exact ⟨fun _ _ => rfl, fun _ _ hmem => by cases hmem⟩
  | cons p rest ih =>
    obtain ⟨k, f⟩ := p
    obtain ⟨hhead, hrest⟩ := List.pairwise_cons.mp hdistinct
    obtain ⟨hother, hlisted⟩ := ih (d.put k (crashFile torn f rng).1) (crashFile torn f rng).2 hrest
    constructor
    · intro k' habsent
      have hne : k ≠ k' := by
        rintro rfl
        exact habsent f (List.mem_cons_self ..)
      exact (hother k' fun g hg => habsent g (List.mem_cons_of_mem _ hg)).trans (d.get_put_of_ne _ hne)
    · intro k' f' hmem
      rcases List.mem_cons.mp hmem with heq | hmem
      · cases heq
        have hgone : ∀ g, (k, g) ∉ rest := fun g hg => hhead (k, g) hg rfl
        exact ⟨_, (hother k hgone).trans (d.get_put_self k _), survives_crashFile torn f rng⟩
      · exact hlisted k' f' hmem

/-- **A simulated crash is a power loss.** -/
theorem crashDisk_powerLoss (torn : Bool) (d : Disk FileName) (rng : Rng) :
    d.PowerLoss (crashDisk torn d rng).1 := by
  have hdistinct : d.files.toList.Pairwise fun p p' => p.1 ≠ p'.1 := by
    refine (Std.ExtTreeMap.distinct_keys_toList (t := d.files)).imp ?_
    intro p p' hne heq
    exact hne (by rw [heq]; exact Std.ReflCmp.compare_self)
  obtain ⟨hother, hlisted⟩ := crashFiles_get torn d rng hdistinct
  intro k
  cases hget : d.get k with
  | none =>
    have habsent : ∀ f, (k, f) ∉ d.files.toList := fun f hmem => by
      rw [Disk.get, Std.ExtTreeMap.mem_toList_iff_getElem?_eq_some.mp hmem] at hget
      cases hget
    rw [crashDisk, hother k habsent, hget]
    exact .none
  | some f =>
    obtain ⟨f', hf', hs⟩ := hlisted k f (Std.ExtTreeMap.mem_toList_iff_getElem?_eq_some.mpr hget)
    rw [crashDisk, hf']
    exact .some hs

/-! ## Reopening -/

variable {svc : Service}

/-- An open node that has applied the whole tape. Nothing is said of its state. -/
def OnTape (n : Node svc) (s : JStore) : Prop := ∃ tip, Node.Current (fun _ _ _ => True) tip n s

section OnTape

variable {n : Node svc} {s s' : JStore}

theorem OnTape.level (h : OnTape n s) : n.seq = s.ghost.tape.length := by
  obtain ⟨tip, hcurrent⟩ := h
  exact hcurrent.level

theorem OnTape.journal (h : OnTape n s) : JInv s.ghost.tape n.journal s := by
  obtain ⟨tip, hcurrent⟩ := h
  exact hcurrent.store.journal

theorem OnTape.decodes (h : OnTape n s) (hcodecs : svc.Codecs) : ∀ f ∈ s.ghost.tape, Decodes svc f := by
  obtain ⟨tip, hcurrent⟩ := h
  exact hcurrent.store.decodes hcodecs

/-- The time source is not looked at. -/
theorem OnTape.clocked (h : OnTape n s) (clock : ℕ → UInt64) : OnTape { n with clock := clock } s := by
  obtain ⟨tip, hcurrent⟩ := h
  exact ⟨tip, hcurrent.store, hcurrent.level, hcurrent.live⟩

/-- A tick leaves a node that has applied the whole tape. -/
theorem OnTape.tick (h : OnTape n s) (config : svc.Config) (fuel : ℕ) :
    wp Fate.calm (Node.tick fuel : NProg svc ℕ) (fun _ => OnTape) (fun _ _ _ => True) (fun _ => True) n s := by
  obtain ⟨tip, hcurrent⟩ := h
  exact wp_mono (Node.wp_tick calm_no_fault (show Tracks config _ from Node.tracks_any) fuel hcurrent.inv)
    (fun _ _ _ h => ⟨tip, h⟩) (fun _ _ _ _ => trivial) fun _ _ => trivial

/-- So does a submission. -/
theorem OnTape.submit (h : OnTape n s) (config : svc.Config) (fuel : ℕ) (input : svc.Input) :
    wp Fate.calm (Node.submit fuel input) (fun _ => OnTape) (fun _ _ _ => True) (fun _ => True) n s := by
  obtain ⟨tip, hcurrent⟩ := h
  exact wp_mono (Node.wp_submit calm_no_fault (show Tracks config _ from Node.tracks_any) fuel input hcurrent.inv)
    (fun _ _ _ h => ⟨tip, h⟩) (fun _ _ _ _ => trivial) fun _ _ => trivial

/-- The window variable is not looked at while the journal is open. -/
theorem OnTape.reread {r : Recovered} (h : OnTape n s) (hreread : Reread s r s') : OnTape n s' := by
  obtain ⟨tip, hcurrent⟩ := h
  obtain rfl := hreread.store
  obtain ⟨hjournal, hdecodes, hshelf, htopped, htip, hbehind⟩ := hcurrent.store
  exact ⟨tip, ⟨⟨hjournal.run, hjournal.part, hjournal.last, hjournal.holds⟩, hdecodes, hshelf, htopped, htip,
    hbehind⟩, hcurrent.level, trivial⟩

/-- What a power loss leaves of it. -/
theorem OnTape.loss (h : OnTape n s) (hl : s.PowerLoss s') :
    Node.NLoss (fun _ (_ : svc.State) _ => True) s' ∧ Topped s'.ghost.tape.length s' := by
  obtain ⟨tip, hcurrent⟩ := h
  refine ⟨hcurrent.store.crash.loss hl, fun p f' hget => ?_⟩
  -- the names that survive were there before
  obtain ⟨f, hf, -⟩ := Disk.PowerLoss.of_some hl.1 hget
  rw [hl.2]
  exact hcurrent.store.topped p f hf

end OnTape

section Reopening

variable {μ : Type} {m : μ} {s : JStore} {nodeConfig : NodeConfig} {config : svc.Config} {clock : ℕ → UInt64}

/-- **Reopening**: the node resumes within the history, and has applied what is left of it. -/
theorem wp_reopen (hcodecs : svc.Codecs) (h : Node.NLoss (fun _ (_ : svc.State) _ => True) s)
    (htopped : Topped s.ghost.tape.length s) :
    wp Fate.calm (Node.openWith nodeConfig config clock : Prog μ JStore NodeError (Node svc))
      (fun n m' s' => m' = m ∧ n.seq ≤ s.ghost.tape.length ∧ s'.ghost.tape = s.ghost.tape ∧
        OnTape n (resume s' n.seq)) (fun _ _ _ => True) (fun _ => True) m s := by
  rw [Node.openWith_eq]
  apply wp_seq (wp_mono (Node.wp_openJournal calm_no_fault h _) (fun _ _ _ h => h) (fun _ _ _ _ => trivial)
    fun _ _ => trivial)
  rintro r m₁ s₁ ⟨rfl, hfound, hsame, htape⟩
  have hreliable : Node.Reliable svc r.journal.lastSeq s₁ := by
    cases hsize : s₁.ghost.oversize with
    | false => exact Or.inl ⟨hsize, hcodecs⟩
    | true =>
      rw [← htape] at htopped
      exact Or.inr (Or.inr ⟨hsize, htopped.of_snaps hsame.1⟩)
  apply wp_mono (Node.wp_recoverFrom calm_no_fault Node.tracks_any hfound hreliable)
  · rintro n m₂ s₂ ⟨rfl, fromSeq, hopened⟩
    have hbound : n.seq ≤ s₁.ghost.tape.length := by
      rw [hopened.seq]
      exact Nat.max_le.mpr ⟨hfound.bound, hopened.resuming.bound⟩
    have htape₂ := hopened.seated.tape
    refine ⟨rfl, htape ▸ hbound, htape₂.trans htape, n.seq, hopened.inv hfound, ?_, trivial⟩
    show n.seq = (s₂.ghost.tape.take n.seq).length
    rw [htape₂, List.length_take, Nat.min_eq_left hbound]
  · exact fun _ _ _ _ => trivial
  · exact fun _ _ => trivial

end Reopening

/-! ## The shadow -/

/-- The shadow agrees with a history, frame by frame. -/
def Shadows (expected : List Expected) (frames : List Frame) : Prop :=
  List.Forall₂ (fun exp frame => Expected.agrees frame exp = true) expected frames

/-- What is expected of the frame at a seq. -/
theorem Shadows.at_seq {expected : List Expected} {tape : List Frame} {first : ℕ} (h : Shadows expected tape)
    (hrun : SeqRun first tape) {frame : Frame} (hmem : frame ∈ tape) :
    ∃ exp, expected[frame.seq - first]? = some exp ∧ exp.agrees frame = true := by
  induction h generalizing first with
  | nil => cases hmem
  | @cons exp head expected tape hagrees hrest ih =>
    obtain ⟨hseq, htail⟩ := hrun
    rcases List.mem_cons.mp hmem with rfl | hmem
    · exact ⟨exp, by rw [hseq, Nat.sub_self]; rfl, hagrees⟩
    · obtain ⟨exp', hexp', hagrees'⟩ := ih htail hmem
      have hlater := (htail.bounds hmem).1
      refine ⟨exp', ?_, hagrees'⟩
      rw [show frame.seq - first = frame.seq - (first + 1) + 1 by omega, List.getElem?_cons_succ]
      exact hexp'

theorem Shadows.take {expected : List Expected} {tape : List Frame} (h : Shadows expected tape) (n : ℕ) :
    Shadows (expected.take n) (tape.take n) := List.forall₂_take n h

/-- A service whose steps do not read the time. -/
structure Timeless (svc : Service) : Prop where
  apply : ∀ state seq input (ctx ctx' : Ctx), ctx.seq = ctx'.seq →
    svc.apply state seq input ctx = svc.apply state seq input ctx'
  onTimer : ∀ state id (ctx ctx' : Ctx), ctx.seq = ctx'.seq → svc.onTimer state id ctx = svc.onTimer state id ctx'

section Checks

variable {setup : Setup svc} {fail : String → SimFailure} {F : Fate → Prop} {m : SimState svc} {s : JStore}
  {Q : Unit → SimState svc → JStore → Prop} {E : SimFailure → SimState svc → JStore → Prop}

/-- Frames that are where they should be, and agree with the shadow, pass. -/
theorem wp_checkFrames {expected : List Expected} {recovered first i : ℕ} {frames : List Frame} (hpos : 1 ≤ first)
    (hrun : SeqRun (first + i) frames) (hle : ∀ f ∈ frames, f.seq ≤ recovered)
    (hagree : ∀ f ∈ frames, ∃ exp, expected[f.seq - 1]? = some exp ∧ exp.agrees f = true) (hQ : Q () m s) :
    wp F (checkFrames fail expected recovered first i frames : SProg svc Unit) Q E (fun _ => True) m s := by
  induction frames generalizing i with
  | nil => exact wp_pure hQ
  | cons frame rest ih =>
    obtain ⟨hseq, hrest⟩ := hrun
    obtain ⟨exp, hexp, hagrees⟩ := hagree frame (List.mem_cons_self ..)
    have hbound := hle frame (List.mem_cons_self ..)
    rw [hseq] at hexp hbound
    unfold checkFrames
    apply wp_bind
    unfold addSeqs
    split
    · apply wp_pure
      rw [if_neg (not_not_intro hseq), if_neg (Nat.not_lt_of_le hbound), if_neg (by omega), hexp]
      simp only [hagrees]
      exact ih hrest (fun f hf => hle f (List.mem_cons_of_mem _ hf))
        fun f hf => hagree f (List.mem_cons_of_mem _ hf)
    · exact wp_panic trivial

theorem wp_checkAnchor {recovered last : ℕ} {anchor : Option ℕ} {C : JStore → Prop} (hle : recovered ≤ last)
    (hQ : Q () m s) : wp F (checkAnchor fail recovered last anchor : SProg svc Unit) Q E C m s := by
  unfold checkAnchor
  rw [if_pos hle]
  exact wp_pure hQ

/-- The journal is read to the end of the history. -/
theorem journalLast_of_reread {r : Recovered} {s' : JStore} (hrun : SeqRun 1 s.ghost.tape) (h : Reread s r s') :
    journalLast r = s.ghost.tape.length := by
  have hpos := h.first_pos
  have hle := h.first_le
  have htail := hrun.drop (n := r.firstSeq - 1) (by omega)
  unfold journalLast
  rw [h.frames]
  by_cases hnil : s.ghost.tape.drop (r.firstSeq - 1) = []
  · have hlen := congrArg List.length hnil
    rw [List.length_drop, List.length_nil] at hlen
    rw [hnil]
    show r.firstSeq - 1 = _
    omega
  · have hseq := htail.getLast_seq hnil
    rw [List.length_drop] at hseq
    rw [List.getLast?_eq_some_getLast hnil]
    show (List.getLast _ hnil).seq = _
    omega

/-- **The independent replay** of a shadow that agrees with a history without timer firings is the replay of that
history. -/
theorem shadowReplay_eq (setup : Setup svc) (fail : String → SimFailure) (htimeless : Timeless svc) {i : ℕ}
    (fresh : svc.State) (timers : TimerWheel) {expected : List Expected} {frames : List Frame} (h : Shadows expected frames) (hrun : SeqRun (i + 1) frames)
    (hdec : ∀ f ∈ frames, Decodes svc f) :
    ∃ r, Node.replay ⟨fresh, timers⟩ frames = .ok r ∧ shadowReplay setup fail i fresh expected = pure r.service := by
  induction h generalizing i fresh timers with
  | nil => exact ⟨_, rfl, rfl⟩
  | @cons exp frame expected frames hagrees hrest ih =>
    obtain ⟨hseq, htail⟩ := hrun
    have hrest := fun f hf => hdec f (List.mem_cons_of_mem _ hf)
    cases exp with
    | input bytes =>
      obtain ⟨hkind, rfl⟩ := of_decide_eq_true hagrees
      obtain ⟨input, hinput⟩ : ∃ input, (decodeAll frame.payload : Except CodecError svc.Input) = .ok input := by
        have hdecodes := hdec frame (List.mem_cons_self ..)
        unfold Runtime.Decodes at hdecodes
        rw [hkind] at hdecodes
        exact hdecodes
      have hctx : svc.apply fresh frame.seq input ⟨frame.seq, frame.timestamp⟩ =
          svc.apply fresh (i + 1) input ⟨i + 1, 0⟩ := by
        rw [hseq]
        exact htimeless.apply _ _ _ _ _ rfl
      obtain ⟨r, hreplay, hshadow⟩ := ih (svc.apply fresh (i + 1) input ⟨i + 1, 0⟩).state
        (timers.applyAll (svc.apply fresh (i + 1) input ⟨i + 1, 0⟩).timers (UInt64.ofNat frame.seq)) htail hrest
      refine ⟨r, ?_, ?_⟩
      · rw [Node.replay, Node.replayFrame, hkind]
        simp only [hinput, Node.replayStep, hctx]
        exact hreplay
      · rw [shadowReplay, hinput]
        exact hshadow
    | tick | mark =>
      have hkind := of_decide_eq_true hagrees
      obtain ⟨r, hreplay, hshadow⟩ := ih fresh timers htail hrest
      refine ⟨r, ?_, hshadow⟩
      rw [Node.replay, Node.replayFrame, hkind]
      exact hreplay

end Checks

end Ticktape.Sim
