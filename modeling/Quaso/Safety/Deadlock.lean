import Quaso.Lib.WaitGraph
import Quaso.Safety.Network

/-!
# Distributed deadlock

The election and the heartbeat loop hold the state lock of their node across
`Client::send`, which has no timeout, and a handler needs that lock to answer.

* `Cluster.Blocks` — a node waits for a reply that a handler of another node owes
  it, and that handler waits for its own node's lock.
* `Cluster.Awaits` — a node has sent a request to another and waits, whether the
  request has been read or not.
* `Cluster.SendOk` — a node sends only to peers whose own tick task is not inside
  `Client::send`.
* `no_deadlock` — in a run of such steps nodes never block each other in a circle.
-/

namespace Quaso

open Relation

variable {n : Nat} {C : ClusterConfig n} {T : Type} {s s' : Cluster C T} {l : Label n T}
  {action : Action T} {effect : Effect T}

namespace Cluster

/-- Node `i` holds its lock and waits on a connection whose handler, at node `j`, waits
for the lock of `j`. -/
def Blocks (s : Cluster C T) (i j : Fin n) : Prop :=
  ∃ cid, (s.nodes i).tick.waitsOn = some cid ∧ (s.nodes j).listener.owes = some cid

/-- Node `i` holds its lock and waits for an answer of node `j`. -/
def Awaits (s : Cluster C T) (i j : Fin n) : Prop :=
  (s.nodes i).tick.waitsFor = some (C.conf j).listenerAddr

/-- The peer to which a step opens a connection. -/
def sendsTo (s : Cluster C T) (l : Label n T) : Option Addr :=
  match l.input, (s.nodes l.node).tick with
  | .act (.advance _), .heartbeat (conn :: _) => some conn
  | .act (.advance _), .election _ (conn :: _) =>
    if (s.nodes l.node).state.electionTimeout < l.env.now then none else some conn
  | _, _ => none

/-- A request goes only to a peer whose own tick task is not inside `Client::send`. -/
def SendOk (s : Cluster C T) (l : Label n T) : Prop :=
  ∀ j, s.sendsTo l = some (C.conf j).listenerAddr → (s.nodes j).tick.waitsFor = none

instance (s : Cluster C T) (l : Label n T) : Decidable (s.SendOk l) :=
  inferInstanceAs (Decidable (∀ _, _ → _))

/-- A node that blocks on a handler of another awaits that other. -/
theorem NetworkSound.awaits (hs : NetworkSound s) {i j : Fin n} (h : s.Blocks i j) :
    s.Awaits i j := by
  obtain ⟨cid, hwaits, howes⟩ := h
  obtain ⟨req, hlistener⟩ := Listener.owes_eq_some.1 howes
  obtain ⟨k, hcarries⟩ := hs.handling j cid req hlistener
  unfold Awaits
  cases htick : (s.nodes i).tick with
  | electionWait q conn d conns =>
    obtain rfl : d = cid := by simpa [htick, Tick.waitsOn] using hwaits
    rw [Tick.waitsFor, ((hs.electionWait i _ _ _ _ htick).unique hcarries).2.1]
  | heartbeatWait conn logSize d conns =>
    obtain rfl : d = cid := by simpa [htick, Tick.waitsOn] using hwaits
    obtain ⟨q, _, hcarries'⟩ := hs.heartbeatWait i _ _ _ _ htick
    rw [Tick.waitsFor, (hcarries'.unique hcarries).2.1]
  | _ =>
    rw [htick] at hwaits
    cases hwaits

/-- A node that awaits another after a step did so before, or the step has sent the
request. -/
theorem Moves.awaits_cases (hm : s.Moves s' l action effect) {i j : Fin n} (h : s'.Awaits i j) :
    s.Awaits i j ∨ (i = l.node ∧ s.sendsTo l = some (C.conf j).listenerAddr) := by
  by_cases hi : i = l.node
  · subst hi
    have hinput : ∀ cid, action = .advance cid → l.input = .act (.advance cid) := by
      rintro cid rfl
      rcases resolve_cases hm.resolved with ⟨hinput, _⟩ | ⟨_, _, _, h, _⟩ |
        ⟨_, _, ⟨_, h, _⟩ | ⟨_, h, _⟩⟩
      · exact hinput
      all_goals cases h
    unfold Awaits at h
    cases htick : (s'.nodes l.node).tick with
    | electionWait req conn cid conns =>
      obtain rfl : conn = _ := by simpa [htick, Tick.waitsFor] using h
      rcases hm.acting.electionWait_cases htick with hold | ⟨rfl, rfl⟩
      · exact Or.inl (by rw [Awaits, hold, Tick.waitsFor])
      · right
        obtain ⟨_, ⟨q, rest, htick₀, htime, _⟩ | ⟨_, _, _, _, hreq⟩⟩ := hm.acting.send_cases
        · rw [sendsTo, hinput cid rfl, htick₀]
          exact ⟨rfl, if_neg htime⟩
        · cases hreq
    | heartbeatWait conn logSize cid conns =>
      obtain rfl : conn = _ := by simpa [htick, Tick.waitsFor] using h
      obtain ⟨_, hold | ⟨req, rfl, _, rfl⟩⟩ := hm.acting.heartbeatWait_cases htick
      · exact Or.inl (by rw [Awaits, hold, Tick.waitsFor])
      · right
        obtain ⟨_, ⟨_, _, _, _, hreq⟩ | ⟨q, rest, htick₀, _⟩⟩ := hm.acting.send_cases
        · cases hreq
        · rw [sendsTo, hinput cid rfl, htick₀]
          exact ⟨rfl, rfl⟩
    | _ =>
      rw [htick] at h
      cases h
  · rw [Awaits, hm.others i hi] at h
    exact Or.inl h

/-- **One step** that sends to no busy peer deadlocks nobody. -/
theorem Moves.not_deadlocked (hm : s.Moves s' l action effect) (hok : s.SendOk l)
    (h : ¬ Deadlocked s.Awaits) : ¬ Deadlocked s'.Awaits := by
  intro hdead
  by_cases hpeer : ∃ j, s.sendsTo l = some (C.conf j).listenerAddr
  · obtain ⟨j, hsend⟩ := hpeer
    -- the peer waits for nobody, so the new edge ends in it
    have hfree : ∀ k, ¬ s.Awaits j k := by
      intro k hk
      rw [Awaits, hok j hsend] at hk
      cases hk
    refine h (hdead.of_add_edge (a := l.node) (b := j) (fun i k hik => ?_) hfree)
    rcases hm.awaits_cases hik with hold | ⟨hi, hsend'⟩
    · exact Or.inl hold
    · rw [hsend] at hsend'
      exact Or.inr ⟨hi, (C.addr_injective (Option.some.inj hsend')).symm⟩
  · refine h (hdead.mono fun i k hik => ?_)
    rcases hm.awaits_cases hik with hold | ⟨_, hsend⟩
    · exact hold
    · exact absurd ⟨k, hsend⟩ hpeer

/-- Along a run of such steps no two nodes await each other. -/
theorem awaits_not_deadlocked (h : (clusterSystem C T).Reachable SendOk s) :
    ¬ Deadlocked s.Awaits := by
  refine h.invariant (I := fun s => ¬ Deadlocked s.Awaits) ?_ ?_
  · rintro s ⟨boot, rfl⟩ ⟨i, _, _, hpath, _⟩
    obtain ⟨j, hj, _⟩ := TransGen.head'_iff.1 hpath
    cases hj
  · intro s l s' _ hfree hok hl
    obtain ⟨action, effect, hm⟩ := step_cases hl
    exact hm.not_deadlocked hok hfree

end Cluster

/-- **No distributed deadlock.**  In a run in which requests go only to peers whose own
tick task is not inside `Client::send`, no two nodes block each other, directly or through
others. -/
theorem no_deadlock (h : (clusterSystem C T).Reachable Cluster.SendOk s) :
    ¬ Deadlocked s.Blocks := by
  have hsound : Cluster.NetworkSound s := Cluster.NetworkSound.of_reachable h
  exact fun hdead => Cluster.awaits_not_deadlocked h (hdead.mono fun _ _ => hsound.awaits)

/-- Node 0 asks node 1 for its vote and waits for the handler. -/
theorem no_deadlock_campaign : ∃ s : Cluster duo Nat, s.Blocks 0 1 ∧ ¬ Deadlocked s.Blocks := by
  obtain ⟨s, hs, hwaits, howes⟩ := System.exec_any (clusterSystem duo Nat)
    Cluster.SendOk (.start₀ duo Nat)
    (campaign 200 0 0 ++ [.atTime 200 0 (.act (.advance 0)), .atTime 200 1 (.deliver 0)])
    (P := fun s => (s.nodes 0).tick.waitsOn = some 0 ∧ (s.nodes 1).listener.owes = some 0)
    (by decide +kernel)
  exact ⟨s, ⟨0, hwaits, howes⟩, no_deadlock ⟨_, Cluster.init_start₀ duo Nat, hs⟩⟩

/-- Both nodes start an election, send each other their vote request and read the
other's. -/
def crossedCampaigns : List (Label 2 Nat) :=
  campaign 200 0 0 ++ campaign 200 0 1 ++
  [.atTime 200 0 (.act (.advance 0)), .atTime 200 1 (.act (.advance 1)),
    .atTime 200 1 (.deliver 0), .atTime 200 0 (.deliver 1)]

/-- Each of the two nodes holds its lock and waits for the other's handler. -/
theorem deadlock_reachable : ¬ ∀ s : Cluster duo Nat,
    (clusterSystem duo Nat).Reachable System.Always s → ¬ Deadlocked s.Blocks := by
  intro hall
  obtain ⟨s, hs, hwaits₀, howes₁, hwaits₁, howes₀⟩ := System.exec_any (clusterSystem duo Nat)
    System.Always (.start₀ duo Nat) crossedCampaigns
    (P := fun s => (s.nodes 0).tick.waitsOn = some 0 ∧ (s.nodes 1).listener.owes = some 0 ∧
      (s.nodes 1).tick.waitsOn = some 1 ∧ (s.nodes 0).listener.owes = some 1) (by decide +kernel)
  exact hall s ⟨_, Cluster.init_start₀ duo Nat, hs⟩
    ⟨0, 1, by decide, .single ⟨0, hwaits₀, howes₁⟩, .single ⟨1, hwaits₁, howes₀⟩⟩

end Quaso
