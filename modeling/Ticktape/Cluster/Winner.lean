import Ticktape.Cluster.Ballots
import Ticktape.Cluster.Persist
import Mathlib.Data.List.Pairwise

/-!
# At most one winner per epoch

A cluster of durable acceptors and any number of candidates. A request of any bid may reach any
acceptor at any time and any number of times; a reply that was sent may reach the bid it answers any
number of times, or never. An acceptor may lose power before any storage call, and be reopened.

The argument: an acceptor grants an epoch at most once, because what it granted is remembered across
every loss (`SiteInv`); two winners of one epoch would share an acceptor, which would have granted it
twice.
-/

namespace Ticktape.Cluster

open Ticktape.Lib Ticktape.Core Ticktape.Journal Ticktape.Cluster.PersistentAcceptor

/-! ## One acceptor and its disk -/

/-- An acceptor's process, if it runs, and its store. -/
structure Site where
  acceptor : Option Acceptor
  store : Store Unit

/-- What a site does without sending a reply. -/
inductive SiteStep : Site → Site → Prop where
  /-- A request fails: a storage call returned an error. -/
  | failed {w w' : World (Store Unit)} {a a' : Acceptor} {e : PersistError} (request : VoteRequest) :
      handle request a w = .err e a' w' → SiteStep ⟨some a, w.st⟩ ⟨some a', w'.st⟩
  /-- Power is lost while a request is handled. -/
  | cut {w w' : World (Store Unit)} {a : Acceptor} {s : Store Unit} (request : VoteRequest) :
      handle request a w = .down w' → w'.st.PowerLoss s → SiteStep ⟨some a, w.st⟩ ⟨none, s⟩
  /-- Power is lost between requests, or while the acceptor is down. -/
  | killed {site : Site} {s : Store Unit} : site.store.PowerLoss s → SiteStep site ⟨none, s⟩
  | reopened {w w' : World (Store Unit)} {a : Acceptor} :
      openAt () w = .ok a () w' → SiteStep ⟨none, w.st⟩ ⟨some a, w'.st⟩
  /-- The state file does not parse, or could not be read. -/
  | refused {w w' : World (Store Unit)} {e : PersistError} :
      openAt () w = .err e () w' → SiteStep ⟨none, w.st⟩ ⟨none, w'.st⟩
  | openingCut {w w' : World (Store Unit)} {s : Store Unit} :
      openAt () w = .down w' → w'.st.PowerLoss s → SiteStep ⟨none, w.st⟩ ⟨none, s⟩
  /-- The co-located replica journals frames, or its journal is cut by a fence. -/
  | observed {a : Acceptor} {s : Store Unit} (seq : ℕ) :
      SiteStep ⟨some a, s⟩ ⟨some (a.observeSeq seq), s⟩
  | reset {a : Acceptor} {s : Store Unit} (seq : ℕ) :
      SiteStep ⟨some a, s⟩ ⟨some (a.resetHighWater seq), s⟩

/-- **The invariant of a site** that has granted the epochs `granted`: neither its process nor its
disk forgets them. -/
structure SiteInv (granted : List UInt64) (site : Site) : Prop where
  disk : Remembers granted site.store
  process : ∀ a, site.acceptor = some a → ∀ e ∈ granted, e ≤ a.promised

section Site

variable {granted : List UInt64} {site site' : Site}

theorem SiteInv.down {s : Store Unit} (h : Remembers granted s) : SiteInv granted ⟨none, s⟩ :=
  ⟨h, fun _ h => by cases h⟩

theorem SiteInv.up {s : Store Unit} {a : Acceptor} (h : Remembers granted s)
    (ha : ∀ e ∈ granted, e ≤ a.promised) : SiteInv granted ⟨some a, s⟩ :=
  ⟨h, fun _ h => by cases h; exact ha⟩

/-- **Step lemma**: no step of a site forgets a grant. -/
theorem SiteStep.inv (hstep : SiteStep site site') (h : SiteInv granted site) :
    SiteInv granted site' := by
  have hany : ∀ {w : World (Store Unit)}, ∀ f ∈ w.fates, (fun _ : Fate => True) f := fun _ _ => trivial
  cases hstep with
  | failed request hrun =>
    obtain ⟨hrem, hle⟩ := wp_err (wp_handle request h.disk (h.process _ rfl)) hany hrun
    exact .up hrem hle
  | cut request hrun hl =>
    have hrem := wp_down (wp_handle request h.disk (h.process _ rfl)) hany hrun
    exact .down (hrem.loss hl)
  | killed hl => exact .down (h.disk.loss hl)
  | reopened hrun =>
    obtain ⟨hst, hle⟩ := wp_ok (wp_openAt h.disk) hany hrun
    exact .up (hst ▸ h.disk) hle
  | refused hrun =>
    have hst := wp_err (wp_openAt h.disk) hany hrun
    exact .down (hst ▸ h.disk)
  | openingCut hrun hl =>
    have hst := wp_down (wp_openAt h.disk) hany hrun
    exact .down (h.disk.loss (hst ▸ hl))
  | @observed a s seq => exact .up h.disk (h.process a rfl)
  | @reset a s seq => exact .up h.disk (h.process a rfl)

/-- **Step lemma**: a reply is a grant above everything granted before, or a rejection. -/
theorem SiteInv.answered {w w' : World (Store Unit)} {a a' : Acceptor} {request : VoteRequest}
    {reply : VoteReply} (h : SiteInv granted ⟨some a, w.st⟩)
    (hrun : handle request a w = .ok reply a' w') :
    (∃ highWater, reply = .grant request.epoch highWater ∧ (∀ e ∈ granted, e < request.epoch) ∧
      SiteInv (granted ++ [request.epoch]) ⟨some a', w'.st⟩) ∨
    ((∃ promised, reply = .reject promised) ∧ SiteInv granted ⟨some a', w'.st⟩) := by
  have hspec := wp_ok (F := fun _ => True) (wp_handle request h.disk (h.process _ rfl))
    (fun _ _ => trivial) hrun
  rcases hspec with ⟨highWater, rfl, hpromised, hlt, hrem⟩ | ⟨hreject, hrem, hle⟩
  · refine Or.inl ⟨highWater, rfl, hlt, .up hrem fun e he => ?_⟩
    rw [hpromised]
    rcases List.mem_append.mp he with hold | hsing
    · exact UInt64.le_of_lt (hlt e hold)
    · rw [List.mem_singleton.mp hsing]
      exact UInt64.le_refl _
  · exact Or.inr ⟨hreject, .up hrem hle⟩

end Site

/-! ## The cluster -/

/-- The acceptors with their disks, and the elections. -/
structure Electorate where
  sites : UInt32 → Site
  ballots : Ballots

/-- Nothing has happened; every disk is empty and no acceptor runs. -/
def Electorate.start : Electorate := ⟨fun _ => ⟨none, ⟨Disk.empty, ()⟩⟩, .start⟩

/-- One step of a cluster of `voters`. -/
inductive Electorate.Step (voters : Finset UInt32) : Electorate → Electorate → Prop where
  /-- A candidate bids for an epoch. -/
  | bid {c : Electorate} (i : ℕ) (epoch : UInt64) : c.ballots.bids i = none →
      Step voters c { c with ballots := c.ballots.propose i epoch voters.card }
  /-- A request reaches an acceptor, which answers. -/
  | answered {c : Electorate} {w w' : World (Store Unit)} {a a' : Acceptor} {b : Bid}
      {reply : VoteReply} (i : ℕ) (r : UInt32) : r ∈ voters → c.sites r = ⟨some a, w.st⟩ →
      c.ballots.bids i = some b → handle b.election.request a w = .ok reply a' w' →
      Step voters c
        ⟨Function.update c.sites r ⟨some a', w'.st⟩, c.ballots.send ⟨i, r, reply⟩⟩
  /-- An acceptor does something that sends no reply. -/
  | site {c : Electorate} {s : Site} (r : UInt32) : SiteStep (c.sites r) s →
      Step voters c { c with sites := Function.update c.sites r s }
  /-- A reply reaches its bid. -/
  | delivered {c : Electorate} {b : Bid} (p : Reply) : p ∈ c.ballots.replies →
      c.ballots.bids p.bid = some b → Step voters c { c with ballots := c.ballots.deliver p b }

/-- The clusters that runs lead to. -/
inductive Electorate.Reachable (voters : Finset UInt32) : Electorate → Prop where
  | start : Reachable voters Electorate.start
  | step {c c' : Electorate} : Reachable voters c → Step voters c c' → Reachable voters c'

/-- The epoch a reply of acceptor `r` grants. -/
def Reply.grants (r : UInt32) (p : Reply) : Option UInt64 :=
  match p.reply with
  | .grant epoch _ => if p.sender = r then some epoch else none
  | .reject _ => none

/-- The epochs that acceptor `r` has granted, in order. -/
def Ballots.granted (b : Ballots) (r : UInt32) : List UInt64 := b.replies.filterMap (·.grants r)

/-- **The invariant of the cluster.** -/
structure Electorate.Inv (voters : Finset UInt32) (c : Electorate) : Prop where
  sites : ∀ r, SiteInv (c.ballots.granted r) (c.sites r)
  increasing : ∀ r, (c.ballots.granted r).Pairwise (· < ·)
  ballots : c.ballots.Inv voters

/-! ## The invariant holds in every run -/

section Run

variable {voters : Finset UInt32} {c c' : Electorate}

theorem granted_send (b : Ballots) (r : UInt32) (p : Reply) :
    (b.send p).granted r = b.granted r ++ (p.grants r).toList := by
  cases h : p.grants r <;> simp [Ballots.granted, Ballots.send, h]

/-- A reply of another acceptor grants nothing for `r`. -/
theorem grants_of_ne {i : ℕ} {r r' : UInt32} {reply : VoteReply} (h : r ≠ r') :
    (⟨i, r, reply⟩ : Reply).grants r' = none := by
  cases reply <;> simp [Reply.grants, h]

theorem granted_send_of_ne (b : Ballots) {i : ℕ} {r r' : UInt32} {reply : VoteReply} (h : r ≠ r') :
    (b.send ⟨i, r, reply⟩).granted r' = b.granted r' := by
  rw [granted_send, grants_of_ne h]
  exact List.append_nil _

theorem Electorate.inv_start : Electorate.Inv voters Electorate.start where
  sites := fun _ => .down remembers_nil
  increasing := fun _ => .nil
  ballots := Ballots.inv_start

theorem Electorate.Inv.answered (h : Electorate.Inv voters c) {w w' : World (Store Unit)}
    {a a' : Acceptor} {b : Bid} {reply : VoteReply} {i : ℕ} {r : UInt32} (hr : r ∈ voters)
    (hsite : c.sites r = ⟨some a, w.st⟩)
    (hrun : handle b.election.request a w = .ok reply a' w') :
    Electorate.Inv voters
      ⟨Function.update c.sites r ⟨some a', w'.st⟩, c.ballots.send ⟨i, r, reply⟩⟩ := by
  have hinv := h.sites r
  rw [hsite] at hinv
  have hspec := hinv.answered hrun
  have hmine : (⟨i, r, reply⟩ : Reply).grants r =
      match reply with | .grant epoch _ => some epoch | .reject _ => none := by
    cases reply <;> simp [Reply.grants]
  refine ⟨fun r' => ?_, fun r' => ?_, h.ballots.send hr⟩
  · show SiteInv _ (Function.update c.sites r ⟨some a', w'.st⟩ r')
    by_cases heq : r = r'
    · subst heq
      rw [Function.update_self, granted_send, hmine]
      rcases hspec with ⟨highWater, rfl, -, hsite'⟩ | ⟨⟨promised, rfl⟩, hsite'⟩
      · exact hsite'
      · simpa using hsite'
    · rw [Function.update_of_ne (Ne.symm heq), granted_send_of_ne _ heq]
      exact h.sites r'
  · by_cases heq : r = r'
    · subst heq
      rw [granted_send, hmine]
      rcases hspec with ⟨highWater, rfl, hlt, -⟩ | ⟨⟨promised, rfl⟩, -⟩
      · -- a new grant is above every earlier one
        refine List.pairwise_append.mpr ⟨h.increasing r, List.pairwise_singleton .., ?_⟩
        intro e he e' he'
        rw [List.mem_singleton.mp he']
        exact hlt e he
      · simpa using h.increasing r
    · rw [granted_send_of_ne _ heq]
      exact h.increasing r'

theorem Electorate.Inv.site (h : Electorate.Inv voters c) {s : Site} {r : UInt32}
    (hstep : SiteStep (c.sites r) s) :
    Electorate.Inv voters { c with sites := Function.update c.sites r s } := by
  refine ⟨fun r' => ?_, h.increasing, h.ballots⟩
  show SiteInv (c.ballots.granted r') (Function.update c.sites r s r')
  by_cases heq : r' = r
  · subst heq
    rw [Function.update_self]
    exact hstep.inv (h.sites r')
  · rw [Function.update_of_ne heq]
    exact h.sites r'

/-- **Run lemma**: the invariant holds in every reachable cluster. -/
theorem Electorate.Reachable.inv (h : Electorate.Reachable voters c) : Electorate.Inv voters c := by
  induction h with
  | start => exact Electorate.inv_start
  | step _ hstep ih =>
    cases hstep with
    | bid i epoch hnone => exact ⟨ih.sites, ih.increasing, ih.ballots.propose i epoch⟩
    | answered i r hr hsite hb hrun => exact ih.answered hr hsite hrun
    | site r hstep => exact ih.site hstep
    | delivered p hp hb => exact ⟨ih.sites, ih.increasing, ih.ballots.deliver hp hb⟩

/-! ## Safety -/

/-- An acceptor grants an epoch to one bid. -/
theorem Electorate.Inv.grant_unique (h : Electorate.Inv voters c) {i j : ℕ} {r : UInt32}
    {epoch : UInt64} {hw hw' : ℕ} (hi : ⟨i, r, .grant epoch hw⟩ ∈ c.ballots.replies)
    (hj : ⟨j, r, .grant epoch hw'⟩ ∈ c.ballots.replies) : i = j := by
  by_contra hne
  have hpair := List.pairwise_filterMap.mp ((h.increasing r).imp fun hlt => UInt64.ne_of_lt hlt)
  have : Std.Symm fun x y : Reply =>
      ∀ u, x.grants r = some u → ∀ v, y.grants r = some v → u ≠ v :=
    ⟨fun x y hxy u hu v hv => (hxy v hv u hu).symm⟩
  have hdiff := hpair.forall hi hj (fun heq => hne (Reply.mk.inj heq).1)
  exact hdiff epoch (by simp [Reply.grants]) epoch (by simp [Reply.grants]) rfl

/-- **Two winners of an epoch are the same bid.** -/
theorem Electorate.Inv.winner_unique (h : Electorate.Inv voters c) {i j : ℕ} {epoch : UInt64}
    {s s' : ℕ} (hi : c.ballots.Backed voters i epoch s) (hj : c.ballots.Backed voters j epoch s') :
    i = j := by
  obtain ⟨a, ha, hmaj, hgrants⟩ := hi
  obtain ⟨b, hb, hmaj', hgrants'⟩ := hj
  obtain ⟨r, hr, hr'⟩ := majority_inter (Nat.le_refl voters.card) ha hb hmaj hmaj'
  obtain ⟨hw, -, hsent⟩ := hgrants r hr
  obtain ⟨hw', -, hsent'⟩ := hgrants' r hr'
  exact h.grant_unique hsent hsent'

/-- **At most one winner per epoch.** In every reachable cluster: no acceptor has granted an epoch
twice; a running acceptor, recovered or not, has promised at least every epoch it granted; two bids
that ever won the same epoch are one bid; and what a winner must sync to is the highest high-water
among the grants it counted. -/
theorem at_most_one_winner (h : Electorate.Reachable voters c) :
    (∀ r, (c.ballots.granted r).Nodup) ∧
    (∀ r a, (c.sites r).acceptor = some a → ∀ e ∈ c.ballots.granted r, e ≤ a.promised) ∧
    (∀ i j epoch s s', c.ballots.HasWon i epoch s → c.ballots.HasWon j epoch s' → i = j) ∧
    (∀ i b epoch syncTo, c.ballots.bids i = some b → b.election.outcome = .won epoch syncTo →
      syncTo = ((Election.grantsFor epoch b.delivered).map Prod.snd).foldl max 0) := by
  have hinv := h.inv
  refine ⟨fun r => (hinv.increasing r).imp fun hlt => UInt64.ne_of_lt hlt,
    fun r => (hinv.sites r).process, fun i j epoch s s' hi hj =>
      hinv.winner_unique (hinv.ballots.backed_of_hasWon hi) (hinv.ballots.backed_of_hasWon hj), ?_⟩
  intro i b epoch syncTo hb hout
  obtain ⟨-, rfl, rfl⟩ := Election.outcome_eq_won.mp hout
  exact (hinv.ballots.bids i b hb).syncTo

/-- An acceptor with an empty disk is opened and grants bid `i` epoch 5. -/
theorem Electorate.Reachable.grant (h : c.Reachable voters) {i : ℕ} {r : UInt32} {b : Bid}
    (hr : r ∈ voters) (hsite : c.sites r = ⟨none, ⟨Disk.empty, ()⟩⟩)
    (hb : c.ballots.bids i = some b) (hepoch : b.election.epoch = 5) :
    ∃ c', Electorate.Reachable voters c' ∧ c'.ballots = c.ballots.send ⟨i, r, .grant 5 0⟩ ∧
      ∀ r', r' ≠ r → c'.sites r' = c.sites r' := by
  have hopen : openAt () (World.healthy (⟨Disk.empty, ()⟩ : Store Unit)) =
      .ok Acceptor.new () (World.healthy ⟨Disk.empty, ()⟩) := rfl
  have hup := Reachable.step h (.site r (hsite ▸ SiteStep.reopened hopen))
  have hreply : ((handle ⟨5⟩ Acceptor.new (World.healthy (⟨Disk.empty, ()⟩ : Store Unit))).returned.map
      (·.1)) = some (.grant 5 0) := by decide +kernel
  obtain ⟨⟨reply, a', w'⟩, hrun, heq⟩ := Option.map_eq_some_iff.mp hreply
  rw [Outcome.returned_eq_some, ← hepoch] at hrun
  have hdone := Reachable.step hup (.answered i r hr (Function.update_self ..) hb hrun)
  refine ⟨_, hdone, by rw [← heq], fun r' hne => ?_⟩
  simp [Function.update_of_ne hne]

end Run

/-- Two of three acceptors grant epoch 5 to bid 0, and it wins. -/
theorem at_most_one_winner_of_run : ∃ c : Electorate, c.ballots.HasWon 0 5 0 ∧
    (∀ r, (c.ballots.granted r).Nodup) ∧
    (∀ r a, (c.sites r).acceptor = some a → ∀ e ∈ c.ballots.granted r, e ≤ a.promised) ∧
    (∀ i j epoch s s', c.ballots.HasWon i epoch s → c.ballots.HasWon j epoch s' → i = j) ∧
    (∀ i b epoch syncTo, c.ballots.bids i = some b → b.election.outcome = .won epoch syncTo →
      syncTo = ((Election.grantsFor epoch b.delivered).map Prod.snd).foldl max 0) := by
  have h₁ : Electorate.Reachable {0, 1, 2} _ := .step .start (.bid 0 5 rfl)
  obtain ⟨c₂, h₂, hballots₂, hsites₂⟩ :=
    h₁.grant (r := 0) (by decide) rfl (Function.update_self ..) rfl
  have hb₂ : c₂.ballots.bids 0 = some ⟨Election.new 5 3, []⟩ := by rw [hballots₂]; rfl
  obtain ⟨c₃, h₃, hballots₃, -⟩ := h₂.grant (r := 1) (by decide) (hsites₂ 1 (by decide)) hb₂ rfl
  have hb₃ : c₃.ballots.bids 0 = some ⟨Election.new 5 3, []⟩ := by rw [hballots₃]; exact hb₂
  -- both grants reach the bid
  have h₄ := Electorate.Reachable.step h₃ (.delivered ⟨0, 0, .grant 5 0⟩
    (by rw [hballots₃, hballots₂]; simp [Ballots.send]) hb₃)
  have h₅ := Electorate.Reachable.step h₄ (.delivered ⟨0, 1, .grant 5 0⟩
    (by simp [Ballots.deliver, hballots₃, Ballots.send])
    (Ballots.deliver_self _ ⟨0, 0, .grant 5 0⟩ _))
  exact ⟨_, Or.inr ⟨_, Ballots.deliver_self _ ⟨0, 1, .grant 5 0⟩ _, by decide⟩,
    at_most_one_winner h₅⟩

end Ticktape.Cluster
