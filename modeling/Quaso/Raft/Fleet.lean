import Quaso.Raft.Cluster
import Quaso.Raft.Disk

/-!
# A cluster of machines

In a `Cluster` every node runs for ever.  Here each is a process on a machine of its own: it
may die at any moment, also between two file operations of `persist`, and it may be started
again from its file.

* `Fleet` — the machines and every connection opened so far.
* `fleetSystem` — the steps.  At first all machines are off and there are no files.
* `Node.Restarted` — a node before and after something has happened to its process.
* `Fleet.step_cases` — the running nodes step as in a cluster, or start again.
* `Machine.Saved` — a machine whose file holds the state of its node.
* `NodesOk`, `FleetOk` — conditions: nodes keep to one of theirs, and with the second no
  process dies unless its file holds its state.
-/

namespace Quaso

variable {n : Nat} {C : ClusterConfig n} {T : Type}

/-- The machines of a cluster and the connections opened so far. -/
structure Fleet {n : Nat} (C : ClusterConfig n) (T : Type) where
  machines : Fin n → Machine T
  conns : List (Connection n T)

/-- What happens on a machine. -/
inductive FleetInput (T : Type) where
  /-- The node makes a step of its own, or a message arrives. -/
  | node (env : Env) (input : Input T)
  /-- The process is started, saves its state, or dies. -/
  | process (event : Event T)

/-- A step of a fleet: which machine, and what happens there. -/
structure FleetLabel (n : Nat) (T : Type) where
  machine : Fin n
  input : FleetInput T

namespace Fleet

/-- The cluster of the running nodes; a machine that is off counts as a node that has just
been started. -/
def cluster (s : Fleet C T) : Cluster C T where
  nodes := fun i => (s.machines i).node.getD (Node.start (C.conf i) (.atTime 0))
  conns := s.conns

/-- Replace one machine. -/
def setMachine (s : Fleet C T) (i : Fin n) (machine : Machine T) : Fin n → Machine T :=
  fun j => if j = i then machine else s.machines j

@[simp] theorem setMachine_self (s : Fleet C T) (i : Fin n) (machine : Machine T) :
    s.setMachine i machine i = machine := if_pos rfl

theorem setMachine_of_ne (s : Fleet C T) {i j : Fin n} (machine : Machine T) (h : j ≠ i) :
    s.setMachine i machine j = s.machines j := if_neg h

/-- The node of a machine makes the step that its input amounts to. -/
def nodeStep (codec : DiskCodec T) (s : Fleet C T) (i : Fin n) (env : Env) (input : Input T) :
    Option (Fleet C T) :=
  match (s.machines i).node, s.cluster.resolve i input with
  | some m, some action =>
    match m.step (C.conf i) env action, (s.machines i).step codec (C.conf i) (.act env action) with
    | some (_, effect), some machine =>
      some
        { machines := s.setMachine i machine
          conns := Cluster.applyEffect i (Cluster.readInput s.conns input) effect }
    | _, _ => none
  | _, _ => none

/-- One step of a fleet. -/
def step (codec : DiskCodec T) (s : Fleet C T) (l : FleetLabel n T) : Option (Fleet C T) :=
  match l.input with
  | .node env input => s.nodeStep codec l.machine env input
  | .process (.act ..) => none
  | .process event =>
    ((s.machines l.machine).step codec (C.conf l.machine) event).map fun machine =>
      { s with machines := s.setMachine l.machine machine }

/-- A fleet of machines that have never run. -/
def start (C : ClusterConfig n) (T : Type) : Fleet C T where
  machines := fun _ => ⟨none, none, none, none, [], 0⟩
  conns := []

end Fleet

/-- The fleet as a transition system. -/
def fleetSystem (codec : DiskCodec T) (C : ClusterConfig n) :
    System (Fleet C T) (FleetLabel n T) where
  Init := fun s => s = Fleet.start C T
  step := Fleet.step codec

/-! ## One step -/

variable {codec : DiskCodec T} {s s' : Fleet C T} {i : Fin n}

/-- The node of a machine after its step. -/
theorem Machine.node_of_act {conf : Config} {env : Env} {action : Action T} {effect : Effect T}
    {machine machine' : Machine T} {m m' : Node T}
    (h : machine.step codec conf (.act env action) = some machine') (hnode : machine.node = some m)
    (hstep : m.step conf env action = some (m', effect)) : machine'.node = some m' := by
  cases Machine.step_sound h with
  | act _ _ hnode' _ hstep' =>
    obtain rfl := Option.some.inj (hnode'.symm.trans hnode)
    rw [hstep] at hstep'
    cases hstep'
    rfl

/-- A node before and after something has happened to its process: it is where it was, or
at its beginning, with the fresh record or the one in the file. -/
inductive Node.Restarted (codec : DiskCodec T) (file : File) (m m' : Node T) : Prop where
  | same (hstate : m'.state = m.state) (htick : m'.tick = m.tick)
      (hlistener : m'.listener = m.listener) (hdelivered : m'.delivered = m.delivered)
  | back (htick : m'.tick = .idle) (hlistener : m'.listener = .accepting)
      (hrole : m'.state.nodeType = .follower) (hcommit : m'.state.commitedIndex = 0)
      (hdelivered : m'.delivered = [])
      (hloads : m'.state.toPersistentState = .fresh ∨
        PersistentState.initState codec file = some m'.state.toPersistentState)

/-- **What an event does to the node**, unless it is a step of the node. -/
theorem Machine.restarted {conf : Config} {machine machine' : Machine T} {event : Event T}
    (boot : Env) (hact : ∀ env action, event ≠ .act env action)
    (hend : ∀ env, event ≠ .endSave env) (h : machine.step codec conf event = some machine') :
    (machine.node.getD (Node.start conf boot)).Restarted codec machine.file
      (machine'.node.getD (Node.start conf boot)) := by
  cases Machine.step_sound h with
  | act env action => exact absurd rfl (hact env action)
  | beginSave env hnode =>
    rw [hnode]
    exact .same rfl rfl rfl rfl
  | @fileOp image saving saving' file' =>
    obtain ⟨hnode, _⟩ := machine.afterFileOp_fields image file' saving'
    rw [hnode]
    exact .same rfl rfl rfl rfl
  | endSave env => exact absurd rfl (hend env)
  | crash => exact .back rfl rfl rfl rfl rfl (Or.inl rfl)
  | boot env created hnode hloads => exact .back rfl rfl rfl rfl rfl (Or.inr hloads)
  | tornBoot => exact .same rfl rfl rfl rfl

namespace Fleet

theorem cluster_node {m : Node T} (h : (s.machines i).node = some m) : s.cluster.nodes i = m := by
  simp [cluster, h]

/-- One machine changes, and with it its node. -/
theorem cluster_setMachine (s : Fleet C T) (i : Fin n) (machine : Machine T)
    (conns : List (Connection n T)) : (⟨s.setMachine i machine, conns⟩ : Fleet C T).cluster
      = ⟨s.cluster.setNode i (machine.node.getD (Node.start (C.conf i) (.atTime 0))), conns⟩ := by
  unfold cluster
  congr 1
  funext j
  by_cases hj : j = i
  · subst hj
    simp
  · simp only [s.setMachine_of_ne machine hj]
    rw [Cluster.setNode_of_ne _ _ hj]

/-- What the step of a node is. -/
theorem nodeStep_cases {env : Env} {input : Input T}
    (h : s.nodeStep codec i env input = some s') : ∃ m action m' effect machine,
      (s.machines i).node = some m ∧ s.cluster.resolve i input = some action ∧
      m.step (C.conf i) env action = some (m', effect) ∧
      (s.machines i).step codec (C.conf i) (.act env action) = some machine ∧
      machine.node = some m' ∧
      s' = ⟨s.setMachine i machine,
        Cluster.applyEffect i (Cluster.readInput s.conns input) effect⟩ := by
  unfold nodeStep at h
  split at h
  · rename_i m action hnode hresolve
    split at h
    · rename_i m' effect machine hstep hmachine
      exact ⟨m, action, m', effect, machine, hnode, hresolve, hstep, hmachine,
        Machine.node_of_act hmachine hnode hstep, (Option.some.inj h).symm⟩
    · cases h
  · cases h

/-- **The running nodes step as in a cluster.** -/
theorem nodeStep_cluster {env : Env} {input : Input T}
    (h : s.nodeStep codec i env input = some s') :
    (clusterSystem C T).step s.cluster ⟨i, env, input⟩ = some s'.cluster := by
  obtain ⟨m, action, m', effect, machine, hnode, hresolve, hstep, _, hnode', rfl⟩ :=
    nodeStep_cases h
  rw [cluster_setMachine, hnode']
  change s.cluster.step ⟨i, env, input⟩ = _
  simp only [Cluster.step, hresolve, cluster_node hnode, hstep]
  rfl

/-- The end of a save is a step of the node. -/
theorem endSave_cluster {env : Env} {machine : Machine T}
    (h : (s.machines i).step codec (C.conf i) (.endSave env) = some machine) :
    (clusterSystem C T).step s.cluster ⟨i, env, .act .tryPersist⟩
      = some ({ s with machines := s.setMachine i machine } : Fleet C T).cluster := by
  cases Machine.step_sound h with
  | endSave _ hnode _ hstep =>
    obtain rfl := Node.effect_of_tryPersist hstep
    rw [cluster_setMachine]
    change s.cluster.step ⟨i, env, .act .tryPersist⟩ = _
    simp only [Cluster.step, Cluster.resolve, Cluster.isLocal, if_true, cluster_node hnode, hstep]
    rfl

/-- **A step of a fleet** is an event on one machine.  The running nodes make a step of their
cluster, or none of them does more than start again. -/
theorem step_cases {l : FleetLabel n T} (h : (fleetSystem codec C).step s l = some s') :
    ∃ event machine, (s.machines l.machine).step codec (C.conf l.machine) event = some machine ∧
      s'.machines = s.setMachine l.machine machine ∧
      ((∃ env input, (l.input = .node env input ∨ input = .act .tryPersist) ∧
          (clusterSystem C T).step s.cluster ⟨l.machine, env, input⟩ = some s'.cluster) ∨
        s'.conns = s.conns ∧
          ∀ j, (s.cluster.nodes j).Restarted codec (s.machines j).file (s'.cluster.nodes j)) := by
  obtain ⟨i, input⟩ := l
  cases input with
  | node env input =>
    have hcluster := nodeStep_cluster h
    obtain ⟨_, action, _, _, machine, _, _, _, hmachine, _, rfl⟩ := nodeStep_cases h
    exact ⟨.act env action, machine, hmachine, rfl, Or.inl ⟨env, input, Or.inl rfl, hcluster⟩⟩
  | process event =>
    have hprocess : ∀ event machine, (∀ env action, event ≠ .act env action) →
        (∀ env, event ≠ .endSave env) →
        (s.machines i).step codec (C.conf i) event = some machine →
        ∀ j, (s.cluster.nodes j).Restarted codec (s.machines j).file
          (({ s with machines := s.setMachine i machine } : Fleet C T).cluster.nodes j) := by
      intro event machine hact hend hmachine j
      rw [cluster_setMachine]
      change (s.cluster.nodes j).Restarted codec (s.machines j).file (s.cluster.setNode i _ j)
      by_cases hj : j = i
      · subst hj
        rw [Cluster.setNode_self]
        exact Machine.restarted (.atTime 0) hact hend hmachine
      · rw [Cluster.setNode_of_ne _ _ hj]
        exact .same rfl rfl rfl rfl
    cases event with
    | act env action => cases h
    | endSave env =>
      obtain ⟨machine, hmachine, rfl⟩ := Option.map_eq_some_iff.1 h
      exact ⟨_, machine, hmachine, rfl,
        Or.inl ⟨env, _, Or.inr rfl, endSave_cluster hmachine⟩⟩
    | _ =>
      obtain ⟨machine, hmachine, rfl⟩ := Option.map_eq_some_iff.1 h
      exact ⟨_, machine, hmachine, rfl,
        Or.inr ⟨rfl, hprocess _ machine (by simp) (by simp) hmachine⟩⟩

end Fleet

/-! ## When a process may die -/

deriving instance DecidableEq for PersistentState

/-- The file of a machine holds the state of its node, which knows its vote. -/
def Machine.Saved (codec : DiskCodec T) (m : Machine T) : Prop :=
  ∀ node, m.node = some node →
    PersistentState.initState codec m.file = some node.state.toPersistentState ∧
      node.tick.isDenied = false

instance [DecidableEq T] (codec : DiskCodec T) (m : Machine T) : Decidable (m.Saved codec) :=
  match h : m.node with
  | none => .isTrue fun node hnode => by rw [h] at hnode; cases hnode
  | some node =>
    if hsaved : PersistentState.initState codec m.file = some node.state.toPersistentState ∧
        node.tick.isDenied = false then
      .isTrue fun node' hnode => by rw [h] at hnode; cases hnode; exact hsaved
    else .isFalse fun hall => hsaved (hall node h)

/-- The steps of the nodes meet `ok`.  Processes die at any moment. -/
def NodesOk (ok : Node T → Action T → Prop) (s : Fleet C T) (l : FleetLabel n T) : Prop :=
  match l.input with
  | .node env input => Lift ok s.cluster ⟨l.machine, env, input⟩
  | .process _ => True

instance (ok : Node T → Action T → Prop) [∀ m a, Decidable (ok m a)] (s : Fleet C T)
    (l : FleetLabel n T) : Decidable (NodesOk ok s l) :=
  match l with
  | ⟨i, .node env input⟩ => inferInstanceAs (Decidable (Lift ok s.cluster ⟨i, env, input⟩))
  | ⟨_, .process _⟩ => .isTrue trivial

/-- The steps of the nodes meet `ok`, and a process dies only when its file holds its
state. -/
def FleetOk (codec : DiskCodec T) (ok : Node T → Action T → Prop) (s : Fleet C T)
    (l : FleetLabel n T) : Prop :=
  match l.input with
  | .node env input => Lift ok s.cluster ⟨l.machine, env, input⟩
  | .process .crash => (s.machines l.machine).Saved codec
  | .process _ => True

instance [DecidableEq T] (codec : DiskCodec T) (ok : Node T → Action T → Prop)
    [∀ m a, Decidable (ok m a)] (s : Fleet C T) (l : FleetLabel n T) :
    Decidable (FleetOk codec ok s l) :=
  match l with
  | ⟨i, .node env input⟩ => inferInstanceAs (Decidable (Lift ok s.cluster ⟨i, env, input⟩))
  | ⟨i, .process .crash⟩ => inferInstanceAs (Decidable ((s.machines i).Saved codec))
  | ⟨_, .process (.act ..)⟩ | ⟨_, .process (.beginSave _)⟩ | ⟨_, .process (.fileOp _)⟩
  | ⟨_, .process (.endSave _)⟩ | ⟨_, .process (.boot ..)⟩ | ⟨_, .process (.tornBoot _)⟩ =>
    .isTrue trivial

/-- Where no process dies too early the nodes keep to their condition, and to a weaker one. -/
theorem FleetOk.nodesOk {ok ok' : Node T → Action T → Prop} {l : FleetLabel n T}
    (h : FleetOk codec ok s l) (himp : ∀ m action, ok m action → ok' m action) :
    NodesOk ok' s l := by
  obtain ⟨i, input⟩ := l
  cases input with
  | node env input => exact fun action haction => himp _ _ (h action haction)
  | process event => trivial

/-- Steps of nodes, as steps of their machines. -/
def onFleet (ls : List (Label n T)) : List (FleetLabel n T) :=
  ls.map fun l => ⟨l.node, .node l.env l.input⟩

/-- The process of node `i` is started; a missing file can be created. -/
def bootAt (now : Nat) (i : Fin n) : FleetLabel n T := ⟨i, .process (.boot (.atTime now) true)⟩

/-- Node `i` saves its state; one write takes all bytes, at most `count`. -/
def saveAt (now count : Nat) (i : Fin n) : List (FleetLabel n T) :=
  [.beginSave (.atTime now), .fileOp (.remove true), .fileOp (.create true),
    .fileOp (.write count), .fileOp .finish, .endSave (.atTime now)].map fun event =>
      ⟨i, .process event⟩

end Quaso
