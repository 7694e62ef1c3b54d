import Ticktape.Cluster.Persist
import Ticktape.Server.Fence

/-!
# Grants vouch for the journal

A server (`ticktape-server/src/lib.rs`) through all its roles, with the vote requests that its acceptor
thread answers in between. A grant carries the high-water of the acceptor, which is what the server last
reported to it: a follower reports every frame right after journaling it, a leader never reports, and at
start-up votes are served before the journal is recovered. So a grant is right exactly as far as the
server is a follower between two frames (`grants_vouch`).
-/

namespace Ticktape.Server

open Ticktape.Lib Ticktape.Core Ticktape.Journal Ticktape.Transport Ticktape.Cluster Ticktape.Runtime

/-! ## Roles -/

/-- The journal configuration of a follower. -/
def followerConfig : JournalConfig := ⟨2 ^ 30, .everyFrame⟩

/-- The node configuration of a leader. -/
def leaderConfig : NodeConfig := ⟨⟨2 ^ 30, .everyFrame⟩, 1, some 500, 2, none⟩

variable {svc : Service}

/-- A follower on a recovered journal; from here on the acceptor knows the journal's last seq. -/
def buildFollower (config : svc.Config) (acceptor : Acceptor) (recovered : Recovered) :
    Follower svc where
  reassembler := .new (recovered.journal.lastSeq + 1)
  journal := recovered.frames
  replica := Follower.rebuild (.new config) recovered.frames
  applied := recovered.journal.lastSeq
  acceptor := acceptor.observeSeq recovered.journal.lastSeq
  epoch := 1

/-- On a journal that still has its first frame this is the follower that starts over its frames. -/
theorem buildFollower_eq_openFollower {config : svc.Config} {acceptor : Acceptor} {recovered : Recovered}
    (h : recovered.journal.lastSeq = recovered.frames.length) :
    buildFollower config acceptor recovered = Follower.openFollower config acceptor recovered.frames := by
  simp only [buildFollower, Follower.openFollower, h]

/-- What a server process is doing. -/
inductive Mode (svc : Service) where
  | down
  /-- Votes are served; the journal is not recovered yet. -/
  | starting (acceptor : Acceptor)
  /-- Between two frames. -/
  | follower (f : Follower svc) (journal : Journal)
  /-- `frame` is journaled, and not yet applied and reported. -/
  | journaled (f : Follower svc) (journal : Journal) (frame : Frame)
  /-- Journaling a frame failed. -/
  | halted (f : Follower svc) (journal : Journal)
  | leader (acceptor : Acceptor) (node : Node svc)
  /-- Promotion failed after the follower was given up. -/
  | transitioning (acceptor : Acceptor)

namespace Mode

/-- The acceptor that answers votes. -/
def acceptor : Mode svc → Option Acceptor
  | down => none
  | starting a => some a
  | follower f _ => some f.acceptor
  | journaled f _ _ => some f.acceptor
  | halted f _ => some f.acceptor
  | leader a _ => some a
  | transitioning a => some a

def withAcceptor (a : Acceptor) : Mode svc → Mode svc
  | down => down
  | starting _ => starting a
  | follower f journal => follower { f with acceptor := a } journal
  | journaled f journal frame => journaled { f with acceptor := a } journal frame
  | halted f journal => halted { f with acceptor := a } journal
  | leader _ node => leader a node
  | transitioning _ => transitioning a

/-- The acceptor of a server in the follower role, which alone can be promoted. -/
def promotable : Mode svc → Option Acceptor
  | follower f _ => some f.acceptor
  | halted f _ => some f.acceptor
  | _ => none

end Mode

/-- A grant as it was returned: the high-water it carried, and the last seq that the server's journal
held at that moment. -/
structure Grant where
  highWater : ℕ
  held : ℕ

/-- A server, its directory, and the grants it has returned so far. -/
structure Machine (svc : Service) where
  mode : Mode svc
  store : JStore
  grants : List Grant

/-- The last seq that recovery finds in a directory. -/
def recoveredSeq (s : JStore) : ℕ :=
  match (Journal.openWith followerConfig () (World.healthy s)).returned with
  | some (recovered, _, _) => recovered.journal.lastSeq
  | none => 0

/-- The last seq that the server's journal holds now. -/
def Machine.held (c : Machine svc) : ℕ :=
  match c.mode with
  | .follower _ journal => journal.lastSeq
  | .journaled _ journal _ => journal.lastSeq
  | .halted _ journal => journal.lastSeq
  | .leader _ node => node.journal.lastSeq
  | _ => recoveredSeq c.store

/-- The grants that a reply adds. -/
def Machine.grantsOf (c : Machine svc) : VoteReply → List Grant
  | .grant _ highWater => [⟨highWater, c.held⟩]
  | .reject _ => []

/-- What an operation that came back, with a result or an error, left. -/
def left {μ σ ε α : Type} : Outcome μ σ ε α → Option (μ × World σ)
  | .ok _ m w => some (m, w)
  | .err _ m w => some (m, w)
  | _ => none

/-- What holds however an operation comes back. -/
theorem mwp_left {μ ε α : Type} {p : Prog μ JStore ε α} {R : μ → Prop} {m m' : μ} {w w' : World JStore}
    (h : mwp p (fun _ m' => R m') (fun _ m' => R m') m) (hrun : left (p m w) = some (m', w')) : R m' := by
  cases hout : p m w with
  | ok a m₁ w₁ =>
    rw [hout] at hrun
    cases hrun
    exact mwp_ok h hout
  | err e m₁ w₁ =>
    rw [hout] at hrun
    cases hrun
    exact mwp_err h hout
  | down w₁ =>
    rw [hout] at hrun
    cases hrun
  | spin =>
    rw [hout] at hrun
    cases hrun

/-! ## Steps -/

/-- One step of a server. The acceptor thread answers a request between any two steps of the main
thread, where `serve` allows it. -/
inductive ServerStep (config : svc.Config) (serve : Machine svc → Prop) :
    Machine svc → Machine svc → Prop where
  /-- `open_follower` opens the acceptor and starts to serve votes, -/
  | started {w w' : World JStore} {a : Acceptor} {g : List Grant} :
      PersistentAcceptor.openAt () w = .ok a () w' →
      ServerStep config serve ⟨.down, w.st, g⟩ ⟨.starting a, w'.st, g⟩
  /-- and recovers the journal. -/
  | built {w w' : World JStore} {a : Acceptor} {recovered : Recovered} {g : List Grant} :
      Journal.openWith followerConfig () w = .ok recovered () w' →
      ServerStep config serve ⟨.starting a, w.st, g⟩
        ⟨.follower (buildFollower config a recovered) recovered.journal, w'.st, g⟩
  /-- `pump` polls and gets nothing it needs, -/
  | polled {f : Follower svc} {journal : Journal} {s : JStore} {g : List Grant}
      {result : Except TransportError (Option Frame)} {r : Reassembler} {rest : List Round}
      (rounds : List Round) : Receiver.poll f.reassembler rounds = (result, r, rest) →
      (∀ frame, result = .ok (some frame) → frame.seq ≠ f.applied + 1) →
      ServerStep config serve ⟨.follower f journal, s, g⟩
        ⟨.follower { f with reassembler := r } journal, s, g⟩
  /-- or the next frame, which it journals -/
  | journaled {w w' : World JStore} {f : Follower svc} {journal journal' : Journal} {g : List Grant}
      {frame : Frame} {r : Reassembler} {rest : List Round} (rounds : List Round) :
      Receiver.poll f.reassembler rounds = (.ok (some frame), r, rest) → frame.seq = f.applied + 1 →
      Journal.append frame journal w = .ok () journal' w' →
      ServerStep config serve ⟨.follower f journal, w.st, g⟩
        ⟨.journaled { f with reassembler := r } journal' frame, w'.st, g⟩
  | refused {w w' : World JStore} {f : Follower svc} {journal journal' : Journal} {g : List Grant}
      {frame : Frame} {r : Reassembler} {rest : List Round} {e : JournalError} (rounds : List Round) :
      Receiver.poll f.reassembler rounds = (.ok (some frame), r, rest) → frame.seq = f.applied + 1 →
      Journal.append frame journal w = .err e journal' w' →
      ServerStep config serve ⟨.follower f journal, w.st, g⟩
        ⟨.halted { f with reassembler := r } journal', w'.st, g⟩
  /-- and then applies and reports. -/
  | reported {f : Follower svc} {journal : Journal} {frame : Frame} {s : JStore} {g : List Grant} :
      ServerStep config serve ⟨.journaled f journal frame, s, g⟩
        ⟨.follower (f.onFrame frame) journal, s, g⟩
  /-- `promote` with a won election, or `start_as_leader`: the node is opened, -/
  | promoted {mode : Mode svc} {w w' : World JStore} {a : Acceptor} {node : Node svc} {g : List Grant}
      (clock : ℕ → UInt64) : mode.promotable = some a →
      Node.openWith leaderConfig config clock () w = .ok node () w' →
      ServerStep config serve ⟨mode, w.st, g⟩ ⟨.leader a node, w'.st, g⟩
  | demoted {mode : Mode svc} {w w' : World JStore} {a : Acceptor} {e : NodeError} {g : List Grant}
      (clock : ℕ → UInt64) : mode.promotable = some a →
      Node.openWith leaderConfig config clock () w = .err e () w' →
      ServerStep config serve ⟨mode, w.st, g⟩ ⟨.transitioning a, w'.st, g⟩
  /-- the epoch is fenced, -/
  | fenced {a : Acceptor} {node node' : Node svc} {w w' : World JStore} {g : List Grant}
      (epoch : UInt64) : left (Node.fence epoch node w) = some (node', w') →
      ServerStep config serve ⟨.leader a node, w.st, g⟩ ⟨.leader a node', w'.st, g⟩
  /-- and inputs are submitted. -/
  | submitted {a : Acceptor} {node node' : Node svc} {w w' : World JStore} {g : List Grant}
      (fuel : ℕ) (input : svc.Input) : left (Node.submit fuel input node w) = some (node', w') →
      ServerStep config serve ⟨.leader a node, w.st, g⟩ ⟨.leader a node', w'.st, g⟩
  | voted {c : Machine svc} {a a' : Acceptor} {w w' : World JStore} {reply : VoteReply}
      (request : VoteRequest) : serve c → c.mode.acceptor = some a → w.st = c.store →
      PersistentAcceptor.handle request a w = .ok reply a' w' →
      ServerStep config serve c ⟨c.mode.withAcceptor a', w'.st, c.grants ++ c.grantsOf reply⟩
  /-- The promise could not be made durable. -/
  | voteFailed {c : Machine svc} {a a' : Acceptor} {w w' : World JStore} {e : PersistError}
      (request : VoteRequest) : c.mode.acceptor = some a → w.st = c.store →
      PersistentAcceptor.handle request a w = .err e a' w' →
      ServerStep config serve c ⟨c.mode.withAcceptor a', w'.st, c.grants⟩
  /-- The process ends at any point, and is started again on whatever is then in its directory. -/
  | stopped {c : Machine svc} (s : JStore) : ServerStep config serve c ⟨.down, s, c.grants⟩

/-- The runs of a server. -/
inductive Machine.Reachable (config : svc.Config) (serve : Machine svc → Prop) :
    Machine svc → Prop where
  | start (s : JStore) : Reachable config serve ⟨.down, s, []⟩
  | step {c c' : Machine svc} : Reachable config serve c → ServerStep config serve c c' →
      Reachable config serve c'

/-- **When a grant is right**: the server is a follower between two frames, or it is starting and its
directory holds no frames. -/
def Machine.Settled (c : Machine svc) : Prop :=
  match c.mode with
  | .follower _ _ => True
  | .starting _ => recoveredSeq c.store = 0
  | _ => False

/-! ## What the calls do to the acceptor and to the last seq -/

section Calls

variable {F : Fate → Prop} {γ μ : Type}

/-- A reopened acceptor has seen no frame. -/
theorem wp_openAt_highWater {m : μ} {s : Store γ} :
    wp F (PersistentAcceptor.openAt : Prog μ (Store γ) PersistError Acceptor)
      (fun a _ _ => a.highWater = 0) (fun _ _ _ => True) (fun _ => True) m s := by
  refine wp_bind (wp_attempt (wp_ofFile (fun _ => trivial) (fun _ _ => wp_fail trivial) ?_ ?_))
  · intro f _
    refine wp_bind (wp_ofExcept (fun promised _ => wp_pure ?_) (fun _ _ => trivial))
    split
    · rcases Acceptor.new.handle_cases ⟨promised⟩ with ⟨-, heq⟩ | ⟨-, heq⟩
      · rw [heq]
        rfl
      · rw [heq]
        rfl
    · rfl
  · intro _
    exact wp_pure rfl

theorem frozen_disk {α : Type} (act : Disk FileName → Except IoError α × Disk FileName) :
    Frozen (diskCall act : Io μ γ α) := frozen_call _ _ _

theorem frozen_persist (promised : UInt64) :
    Frozen (PersistentAcceptor.persist promised : Prog μ (Store γ) PersistError Unit) := by
  refine frozen_bind (frozen_bind (frozen_attempt (frozen_disk _)) fun result => ?_) fun _ =>
    frozen_bind (frozen_mapErr (frozen_call _ _ _)) fun _ => frozen_mapErr (frozen_disk _)
  match result with
  | .ok _ => exact frozen_pure _
  | .error .alreadyExists =>
    exact frozen_bind (frozen_mapErr (frozen_disk _)) fun _ => frozen_mapErr (frozen_disk _)
  | .error .notFound => exact frozen_fail _
  | .error .injected => exact frozen_fail _

/-- Answering a request leaves the high-water alone, and a grant carries it. -/
theorem mwp_handle_highWater (request : VoteRequest) (a : Acceptor) :
    mwp (PersistentAcceptor.handle request : Prog Acceptor (Store γ) PersistError VoteReply)
      (fun reply a' => a'.highWater = a.highWater ∧
        ∀ epoch highWater, reply = .grant epoch highWater → highWater = a.highWater)
      (fun _ a' => a'.highWater = a.highWater) a := by
  have hsame : (a.handle request).2.highWater = a.highWater := by
    rcases a.handle_cases request with ⟨-, heq⟩ | ⟨-, heq⟩ <;> rw [heq]
  refine mwp_bind (mwp_mem (mwp_bind (mwp_update ?_)))
  refine mwp_bind (mwp_mono (frozen_when (frozen_persist _) _) ?_ ?_)
  · rintro _ _ rfl
    refine mwp_pure ⟨hsame, fun epoch highWater hreply => ?_⟩
    rcases a.handle_cases request with ⟨-, heq⟩ | ⟨-, heq⟩
    · rw [heq] at hreply
      cases hreply
      rfl
    · rw [heq] at hreply
      cases hreply
  · rintro _ _ rfl
    exact hsame

/-- Syncing does not move the last seq. -/
theorem maintains_lastSeq_sync (k : ℕ) : Maintains (fun j : Journal => j.lastSeq = k) Journal.sync := by
  refine maintains_bind (maintains_bind maintains_mem fun j => ?_) fun _ => ?_
  · cases j.current with
    | none => exact maintains_pure _
    | some seg =>
      exact maintains_when (maintains_bind (frozen_diskCall _).maintains fun _ =>
        maintains_update fun _ h => h)
  · refine maintains_bind (fun _ h _ => wp_instant fun _ => h) fun _ => ?_
    refine maintains_bind (maintains_update fun _ h => h) fun _ => maintains_bind maintains_mem fun _ => ?_
    exact (frozen_note _).maintains

theorem maintains_lastSeq_maybeSync (k : ℕ) :
    Maintains (fun j : Journal => j.lastSeq = k) Journal.maybeSync := by
  refine maintains_bind maintains_mem fun j => ?_
  cases j.config.fsync with
  | everyFrame => exact maintains_lastSeq_sync k
  | micros window =>
    exact maintains_bind (fun _ h _ => wp_instant fun _ => h) fun _ =>
      maintains_when (maintains_lastSeq_sync k)
  | never => exact maintains_pure _

/-- An appended frame is the last one. -/
theorem mwp_append_lastSeq (frame : Frame) (j : Journal) :
    mwp (Journal.append frame) (fun _ j' => j'.lastSeq = frame.seq) (fun _ _ => True) j := by
  refine mwp_bind (mwp_mem (mwp_seq (Node.mwp_nextSeq _) fun expected j₁ _ => ?_))
  split
  · exact mwp_fail trivial
  · refine mwp_bind (mwp_mem (mwp_seq mwp_trivial fun _ j₂ _ => ?_))
    refine mwp_bind (mwp_mem ?_)
    cases j₂.current with
    | none => exact mwp_panic
    | some seg =>
      refine mwp_seq mwp_trivial fun _ j₃ _ => ?_
      refine mwp_seq mwp_trivial fun _ j₄ _ => mwp_bind (mwp_update ?_)
      exact mwp_mono (maintains_lastSeq_maybeSync _ _ rfl) (fun _ _ h => h) (fun _ _ _ => trivial)

end Calls

/-! ## The invariant -/

/-- **What the acceptor knows** in each mode. -/
def Mode.Inv : Mode svc → Prop
  | .starting a => a.highWater = 0
  | .follower f journal => f.applied = journal.lastSeq ∧ f.acceptor.highWater = f.applied
  | .journaled f journal frame =>
    frame.seq = f.applied + 1 ∧ journal.lastSeq = frame.seq ∧ f.acceptor.highWater = f.applied
  | _ => True

/-- Voting does not move the high-water. -/
theorem Mode.Inv.withAcceptor {mode : Mode svc} {a a' : Acceptor} (h : mode.Inv)
    (ha : mode.acceptor = some a) (hsame : a'.highWater = a.highWater) : (mode.withAcceptor a').Inv := by
  cases mode with
  | starting b =>
    cases ha
    exact hsame.trans h
  | follower f journal =>
    cases ha
    exact ⟨h.1, hsame.trans h.2⟩
  | journaled f journal frame =>
    cases ha
    exact ⟨h.1, h.2.1, hsame.trans h.2.2⟩
  | _ => trivial

/-- In a settled mode the high-water is the last seq held. -/
theorem Mode.Inv.highWater {c : Machine svc} {a : Acceptor} (h : c.mode.Inv) (hsettled : c.Settled)
    (ha : c.mode.acceptor = some a) : a.highWater = c.held := by
  obtain ⟨mode, store, grants⟩ := c
  cases mode with
  | starting b =>
    cases ha
    have hempty : recoveredSeq store = 0 := hsettled
    exact Eq.trans h hempty.symm
  | follower f journal =>
    cases ha
    exact h.2.trans h.1
  | _ => exact hsettled.elim

/-- **The invariant of a server.** -/
structure Machine.Inv (c : Machine svc) : Prop where
  mode : c.mode.Inv
  grants : ∀ g ∈ c.grants, g.highWater = g.held

variable {config : svc.Config} {c c' : Machine svc}

/-- **Step lemma.** -/
theorem ServerStep.inv (hstep : ServerStep config Machine.Settled c c') (h : c.Inv) : c'.Inv := by
  obtain ⟨hmode, hgrants⟩ := h
  cases hstep with
  | started hrun =>
    have ha := wp_ok (F := fun _ => True) wp_openAt_highWater (fun _ _ => trivial) hrun
    exact ⟨ha, hgrants⟩
  | built hrun =>
    -- the acceptor of a starting server knows of no frame, and now of all
    have hzero : _ = 0 := hmode
    refine ⟨⟨rfl, ?_⟩, hgrants⟩
    show max _ _ = _
    rw [hzero, Nat.zero_max]
    rfl
  | polled rounds hpoll hother => exact ⟨hmode, hgrants⟩
  | journaled rounds hpoll hseq hrun =>
    have hlast := mwp_ok (mwp_append_lastSeq _ _) hrun
    exact ⟨⟨hseq, hlast, hmode.2⟩, hgrants⟩
  | refused rounds hpoll hseq hrun => exact ⟨trivial, hgrants⟩
  | reported =>
    obtain ⟨hseq, hlast, hhigh⟩ := hmode
    refine ⟨?_, hgrants⟩
    simp only [Follower.onFrame, if_pos hseq, Mode.Inv, Acceptor.observeSeq]
    omega
  | promoted clock hfollower hrun => exact ⟨trivial, hgrants⟩
  | demoted clock hfollower hrun => exact ⟨trivial, hgrants⟩
  | fenced epoch hrun => exact ⟨trivial, hgrants⟩
  | submitted fuel input hrun => exact ⟨trivial, hgrants⟩
  | @voted _ a a' w w' reply request hsettled ha hstore hrun =>
    obtain ⟨hsame, hcarried⟩ := mwp_ok (mwp_handle_highWater request _) hrun
    refine ⟨hmode.withAcceptor ha hsame, fun g hg => ?_⟩
    rcases List.mem_append.mp hg with hold | hnew
    · exact hgrants g hold
    · cases hreply : reply with
      | reject promised =>
        rw [hreply] at hnew
        cases hnew
      | grant epoch highWater =>
        rw [hreply] at hnew
        rw [List.mem_singleton.mp hnew]
        exact (hcarried epoch highWater hreply).trans (hmode.highWater hsettled ha)
  | voteFailed request ha hstore hrun =>
    have hsame := mwp_err (mwp_handle_highWater request _) hrun
    exact ⟨hmode.withAcceptor ha hsame, hgrants⟩
  | stopped s => exact ⟨trivial, hgrants⟩

/-- **Run lemma.** -/
theorem Machine.Reachable.inv (h : c.Reachable config Machine.Settled) : c.Inv := by
  induction h with
  | start s => exact ⟨trivial, fun g hg => by cases hg⟩
  | step _ hstep ih => exact hstep.inv ih

/-- **Grants vouch for the journal**, as long as votes are served only while the server is a follower
between two frames, or starts with no frames: every grant carried the last seq that the server's own
journal held at that moment. -/
theorem grants_vouch (h : c.Reachable config Machine.Settled) :
    ∀ g ∈ c.grants, g.highWater = g.held := h.inv.grants

/-! ## Two runs -/

/-- The journal that recovery finds in an empty directory. -/
def emptyJournal : Journal := ⟨followerConfig, none, 0, 0, 0, false⟩

def emptyWorld : World JStore := .healthy ⟨Disk.empty, History.fresh⟩

/-- A server is opened on an empty directory. -/
theorem Machine.Reachable.opened (serve : Machine doubler → Prop) : Machine.Reachable () serve
    ⟨.follower (buildFollower () .new ⟨emptyJournal, [], 1, false⟩) emptyJournal, emptyWorld.st, []⟩ := by
  have hopen : PersistentAcceptor.openAt () emptyWorld = .ok Acceptor.new () emptyWorld := rfl
  have hrecover : Journal.openWith followerConfig () emptyWorld =
      .ok ⟨emptyJournal, [], 1, false⟩ () emptyWorld := rfl
  exact .step (.step (.start emptyWorld.st) (.started hopen)) (.built hrecover)

/-- A vote that a follower answers after the fence of epoch 1. -/
def voteOfFollower : Option (Journal × World JStore × VoteReply × Acceptor × World JStore) := do
  let (_, journal, w₁) ← (Journal.append (Deployment.fenceFrame 1 1) emptyJournal emptyWorld).returned
  let (reply, a, w₂) ← (PersistentAcceptor.handle ⟨5⟩ ⟨0, 1⟩ w₁).returned
  pure (journal, w₁, reply, a, w₂)

theorem grants_vouch_of_run : ∃ c : Machine doubler, c.grants = [⟨1, 1⟩] ∧
    ∀ g ∈ c.grants, g.highWater = g.held := by
  let frame := Deployment.fenceFrame 1 1
  have hframe : (Receiver.poll (.new 1) [Deployment.datagram [frame]]).1.toOption =
      some (some frame) := by decide +kernel
  obtain ⟨r, rest, hpoll⟩ : ∃ r rest, Receiver.poll (.new 1) [Deployment.datagram [frame]] =
      (.ok (some frame), r, rest) := by
    generalize Receiver.poll (.new 1) [Deployment.datagram [frame]] = polled at hframe
    obtain ⟨result, r, rest⟩ := polled
    cases result with
    | error e => cases hframe
    | ok o => cases hframe; exact ⟨r, rest, rfl⟩
  have hvote : voteOfFollower.map (fun v => (v.1.lastSeq, v.2.2.1)) = some (1, .grant 5 1) := by
    decide +kernel
  obtain ⟨⟨_, w₁, reply, a, w₂⟩, hvote, heq⟩ := Option.map_eq_some_iff.mp hvote
  obtain ⟨hlast, rfl⟩ := Prod.mk.inj heq
  simp only [voteOfFollower, bind, Option.bind_eq_some_iff] at hvote
  obtain ⟨⟨_, journal, _⟩, happend, ⟨_, _, _⟩, hhandle, hpure⟩ := hvote
  cases hpure
  rw [Outcome.returned_eq_some] at happend hhandle
  have h₁ := (Machine.Reachable.opened Machine.Settled).step (.journaled _ hpoll rfl happend)
  have h₂ := h₁.step .reported
  have h₃ := h₂.step (.voted ⟨5⟩ trivial rfl rfl hhandle)
  refine ⟨_, ?_, grants_vouch h₃⟩
  show [(⟨1, journal.lastSeq⟩ : Grant)] = [⟨1, 1⟩]
  rw [hlast]

/-- A vote that a leader answers after the fence of epoch 1. -/
def voteOfLeader : Option (Node doubler × World JStore × Node doubler × World JStore × VoteReply ×
    Acceptor × World JStore) := do
  let opening : Prog Unit JStore NodeError (Node doubler) := Node.openWith leaderConfig () fun _ => 5
  let (node, _, w₁) ← (opening () emptyWorld).returned
  let (_, node', w₂) ← (Node.fence 1 node w₁).returned
  let (reply, a, w₃) ← (PersistentAcceptor.handle ⟨5⟩ .new w₂).returned
  pure (node, w₁, node', w₂, reply, a, w₃)

/-- **A grant that does not vouch.** The first leader of a deployment fences epoch 1 and is then asked
for a vote: its journal holds one frame, and its grant says none. -/
theorem leader_grants_stale : ∃ c : Machine doubler, c.Reachable () (fun _ => True) ∧
    c.grants = [⟨0, 1⟩] ∧ ¬∀ g ∈ c.grants, g.highWater = g.held := by
  have hvote : voteOfLeader.map (fun v => (v.2.2.1.journal.lastSeq, v.2.2.2.2.1)) =
      some (1, .grant 5 0) := by decide +kernel
  obtain ⟨⟨node, w₁, _, w₂, reply, a, w₃⟩, hvote, heq⟩ := Option.map_eq_some_iff.mp hvote
  obtain ⟨hlast, rfl⟩ := Prod.mk.inj heq
  simp only [voteOfLeader, bind, Option.bind_eq_some_iff] at hvote
  obtain ⟨⟨_, _, _⟩, hopen, ⟨_, node', _⟩, hfence, ⟨_, _, _⟩, hhandle, hpure⟩ := hvote
  cases hpure
  rw [Outcome.returned_eq_some] at hopen hfence hhandle
  have h₁ := (Machine.Reachable.opened fun _ => True).step (.promoted (fun _ => 5) rfl hopen)
  have h₂ := h₁.step (.fenced 1 (by rw [hfence]; rfl))
  have h₃ := h₂.step (.voted ⟨5⟩ trivial rfl rfl hhandle)
  have hgrants : [(⟨0, node'.journal.lastSeq⟩ : Grant)] = [⟨0, 1⟩] := by rw [hlast]
  refine ⟨_, h₃, hgrants, fun hall => ?_⟩
  have hzero := hall ⟨0, node'.journal.lastSeq⟩ (List.mem_singleton.mpr rfl)
  rw [hlast] at hzero
  cases hzero

end Ticktape.Server
