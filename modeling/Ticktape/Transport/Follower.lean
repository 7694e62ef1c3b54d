import Ticktape.Runtime.Publish
import Ticktape.Transport.Replica

/-!
# The leader's stream, fed to a follower

`Caught config n`: a follower that was fed everything the leader `n` published since it was opened
on an empty directory has the leader's state and seq, and has had its states and outputs all along.
Each leader operation keeps this, because each frame it sequences is one the follower applies the
same way.
-/

namespace Ticktape.Transport

open Ticktape.Lib Ticktape.Core Ticktape.Journal Ticktape.Runtime Ticktape.Runtime.Node

variable {svc : Service} {config : svc.Config} {n : Node svc}

/-- The frames published since open. -/
def publishedFrames (n : Node svc) : List Frame := n.ledger.map (·.frame)

/-- The states and outputs of the leader right after each of them. -/
def publishedTrace (n : Node svc) : List (svc.State × List svc.Output) :=
  n.ledger.map fun e => (e.state, e.outputs)

/-- **The simulation relation** between a leader and its follower. -/
structure Caught (config : svc.Config) (n : Node svc) : Prop where
  bus : n.bus = [⟨true, publishedFrames n, 0⟩]
  feed : (Replica.new config).feed (publishedFrames n) =
    some (publishedTrace n, ⟨n.service, n.seq⟩)

/-- Publishing a frame that the follower applies as the leader did. -/
theorem Caught.publish {n' : Node svc} {frame : Frame} {outputs : List svc.Output}
    (h : Caught config n) (hbus : n'.bus = n.bus) (hledger : n'.ledger = n.ledger)
    (happly : Replica.apply ⟨n.service, n.seq⟩ frame = some (.ok outputs, ⟨n'.service, n'.seq⟩)) :
    Caught config (published n' frame outputs) := by
  have hframes : publishedFrames (published n' frame outputs) = publishedFrames n ++ [frame] := by
    simp [publishedFrames, published, hledger]
  constructor
  · rw [hframes]
    simp [published, hbus, h.bus]
  · rw [hframes, Replica.feed_concat h.feed happly]
    simp [publishedTrace, published, hledger]

/-- **Step lemma**: whatever the leader publishes next, the follower applies it as the leader did. -/
theorem publishing_caught (hcodec : svc.Codecs) : Publishing (Caught config) where
  blind := fun _ _ _ h => ⟨h.bus, h.feed⟩
  control := by
    intro n frame h hseq hcontrol
    cases hcontrol with
    | tick hkind => exact h.publish rfl rfl (Replica.apply_control hseq (Or.inl hkind))
    | snapshotMark hkind => exact h.publish rfl rfl (Replica.apply_control hseq (Or.inr hkind))
    | epochChange hkind epoch next hpayload =>
      exact h.publish rfl rfl (Replica.apply_fence hseq hkind hpayload)
  input := fun h hseq hkind hpayload =>
    h.publish rfl rfl (Replica.apply_input hcodec hseq hkind hpayload)
  timer := fun _ h hseq hkind hpayload =>
    h.publish rfl rfl (Replica.apply_timerFired hseq hkind hpayload)

/-! ## Runs of the leader -/

/-- The leaders that runs of `submit`, `tick` and `fence` lead to, from a node that was opened on an
empty directory and subscribed to at once. Every storage call succeeds: each operation returns. -/
inductive Leading (config : svc.Config) : Node svc → Prop where
  | opened {nodeConfig : NodeConfig} {clock : ℕ → UInt64} {w w' w'' : World JStore}
      {n n' : Node svc} :
      w.st.disk = Disk.empty → Node.openWith nodeConfig config clock () w = .ok n () w' →
      Node.subscribe n w' = .ok () n' w'' → Leading config n'
  | submit {w w' : World JStore} {n n' : Node svc} {result : ℕ × List svc.Output}
      (fuel : ℕ) (input : svc.Input) :
      Leading config n → Node.submit fuel input n w = .ok result n' w' → Leading config n'
  | tick {w w' : World JStore} {n n' : Node svc} {seq : ℕ} (fuel : ℕ) :
      Leading config n → Node.tick fuel n w = .ok seq n' w' → Leading config n'
  | fence {w w' : World JStore} {n n' : Node svc} {seq : ℕ} (epoch : UInt64) :
      Leading config n → Node.fence epoch n w = .ok seq n' w' → Leading config n'

/-- **Run lemma**: the follower is caught up after every run. -/
theorem Leading.caught (hcodec : svc.Codecs) (h : Leading config n) : Caught config n := by
  induction h with
  | @opened nodeConfig clock w w' w'' n n' hempty hopen hsubscribe =>
    cases hsubscribe
    have hnames : w.st.disk.names = [] := by rw [hempty]; rfl
    obtain ⟨hservice, hseq, hbus, hledger⟩ :=
      wp_ok (wp_openWith_empty hnames) (fun _ _ => trivial) hopen
    constructor
    · simp [publishedFrames, hbus, hledger, hseq]
    · simp [publishedFrames, publishedTrace, hledger, hservice, hseq, Replica.feed, Replica.new]
  | submit fuel input _ hrun ih =>
    have h := mwp_ok ((publishing_caught hcodec).mwp_submit fuel input ih) hrun
    exact h
  | tick fuel _ hrun ih =>
    have h := mwp_ok ((publishing_caught hcodec).mwp_tick fuel ih) hrun
    exact h
  | fence epoch _ hrun ih =>
    have h := mwp_ok ((publishing_caught hcodec).mwp_fence epoch ih) hrun
    exact h

/-- **A follower computes the leader's state.** Feeding what the leader published since open, in
publication order, to a new follower succeeds on every frame; after the frame with seq `s` the
follower has had the state and returned the outputs that the leader had right after applying seq
`s`; and the follower's seq and state are the leader's now. -/
theorem follower_computes_leader_state (hcodec : svc.Codecs) (h : Leading config n) :
    ∃ sub ∈ n.bus, ∃ replica, sub.received = n.ledger.map (·.frame) ∧
      sub.received.map (·.seq) = List.range' 1 n.seq ∧
      (Replica.new config).feed sub.received =
        some (n.ledger.map fun e => (e.state, e.outputs), replica) ∧
      replica.service = n.service ∧ replica.seq = n.seq := by
  have hcaught := h.caught hcodec
  have hseqs := Replica.feed_seqs hcaught.feed
  refine ⟨_, by rw [hcaught.bus]; exact List.mem_singleton.mpr rfl, _, rfl, ?_, hcaught.feed, rfl, rfl⟩
  have hlen : (publishedFrames n).length = n.seq := by
    have := hseqs.2
    simp only [Replica.new] at this
    omega
  rw [← hlen]
  exact hseqs.1

/-- A leader that snapshots every second frame, after an input, a tick and a fence. -/
def leaderRun := do
  let opening : Prog Unit JStore NodeError (Node doubler) :=
    Node.openWith ⟨⟨64, .never⟩, 1, some 2, 1, none⟩ () fun i => UInt64.ofNat (5 - i)
  let (n₀, _, w₀) ← (opening () (.healthy ⟨Disk.empty, History.fresh⟩)).returned
  let (_, n₀, w₀) ← (Node.subscribe n₀ w₀).returned
  let (_, n₁, w₁) ← (Node.submit 4 (3 : UInt64) n₀ w₀).returned
  let (_, n₂, w₂) ← (Node.tick 4 n₁ w₁).returned
  let (_, n₃, _) ← (Node.fence 9 n₂ w₂).returned
  pure n₃

theorem follower_computes_leader_state_of_run : ∃ n : Node doubler, n.seq = 7 ∧
    ∃ sub ∈ n.bus, ∃ replica, sub.received = n.ledger.map (·.frame) ∧
      sub.received.map (·.seq) = List.range' 1 n.seq ∧
      (Replica.new ()).feed sub.received =
        some (n.ledger.map fun e => (e.state, e.outputs), replica) ∧
      replica.service = n.service ∧ replica.seq = n.seq := by
  have hrun : leaderRun.map (·.seq) = some 7 := by decide +kernel
  obtain ⟨n, hrun, hseq⟩ := Option.map_eq_some_iff.mp hrun
  simp only [leaderRun, bind, Option.bind_eq_some_iff] at hrun
  obtain ⟨⟨_, _, _⟩, hopen, ⟨_, _, _⟩, hsub, ⟨_, _, _⟩, hsubmit, ⟨_, _, _⟩, htick, ⟨_, n₃, _⟩, hfence,
    hpure⟩ := hrun
  cases hpure
  rw [Outcome.returned_eq_some] at hopen hsub hsubmit htick hfence
  have h₀ := Leading.opened rfl hopen hsub
  have h₁ := Leading.submit _ _ h₀ hsubmit
  have h₂ := Leading.tick _ h₁ htick
  have h₃ := Leading.fence _ h₂ hfence
  exact ⟨n₃, hseq, follower_computes_leader_state doubler_codecs h₃⟩

end Ticktape.Transport
