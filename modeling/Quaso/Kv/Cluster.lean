import Quaso.Kv.Store
import Quaso.Raft.Cluster

/-!
# A cluster of stores

Every node of a cluster carries a store: `kv/src/main.rs` starts the node, the
handler of the two channels, and a task for every client.  Nodes talk to each
other over the connections of `Quaso.Raft.Cluster`; the stores share nothing
else.

* `StoreCluster` — the stores and the connections; `StoreCluster.step` — a step of
  one store, which may be one of its node.
* `StoreCluster.raft` — the nodes alone, and `StoreCluster.steps_raft`: they make a
  run of `clusterSystem`.
* `StoreCluster.steps_store` — each store by itself makes a run of `storeSystem`.
-/

namespace Quaso

/-- The stores of a cluster, one on each node, and the connections between the nodes. -/
structure StoreCluster {n : Nat} (C : ClusterConfig n) where
  stores : Fin n → KVStore
  conns : List (Connection n Operation)

/-- What happens at a store. -/
inductive StoreInput where
  /-- Its node makes a step of its own, or a message arrives there. -/
  | node (env : Env) (input : Input Operation)
  /-- One of the tasks of the store goes on. -/
  | task (action : StoreAction)

/-- A step of a cluster of stores: which store, and what happens there. -/
structure StoreLabel (n : Nat) where
  node : Fin n
  input : StoreInput

variable {n : Nat} {C : ClusterConfig n}

/-- A store that makes a step of its node has its node after the step. -/
theorem KVStore.raft_of_node {conf : Config} {env : Env} {action : Action Operation}
    {t t' : KVStore} {m : Node Operation} {effect : Effect Operation}
    (h : t.step conf (.node env action) = some t')
    (hm : t.raft.step conf env action = some (m, effect)) : t'.raft = m := by
  unfold step at h
  simp only at h
  split at h
  · cases h
  · rw [hm] at h
    rw [← Option.some.inj h]

namespace StoreCluster

/-- The nodes without their stores. -/
def raft (s : StoreCluster C) : Cluster C Operation where
  nodes := fun i => (s.stores i).raft
  conns := s.conns

/-- Replace one store. -/
def setStore (s : StoreCluster C) (i : Fin n) (store : KVStore) : Fin n → KVStore :=
  fun j => if j = i then store else s.stores j

@[simp] theorem setStore_self (s : StoreCluster C) (i : Fin n) (store : KVStore) :
    s.setStore i store i = store := if_pos rfl

theorem setStore_of_ne (s : StoreCluster C) {i j : Fin n} (store : KVStore) (h : j ≠ i) :
    s.setStore i store j = s.stores j := if_neg h

/-- One step of a cluster of stores. -/
def step (s : StoreCluster C) (l : StoreLabel n) : Option (StoreCluster C) :=
  match l.input with
  | .node env input =>
    match s.raft.resolve l.node input with
    | none => none
    | some action =>
      match (s.stores l.node).raft.step (C.conf l.node) env action with
      | none => none
      | some (_, effect) =>
        ((s.stores l.node).step (C.conf l.node) (.node env action)).map fun store =>
          { stores := s.setStore l.node store
            conns := Cluster.applyEffect l.node (Cluster.readInput s.conns input) effect }
  | .task action =>
    match action with
    | .node _ _ => none
    | action =>
      ((s.stores l.node).step (C.conf l.node) action).map fun store =>
        { s with stores := s.setStore l.node store }

/-- A cluster whose nodes and stores have just been started, without files. -/
def start (C : ClusterConfig n) (boot : Fin n → Env) : StoreCluster C where
  stores := fun i => KVStore.start (C.conf i) (boot i) .fresh
  conns := []

end StoreCluster

/-- The cluster of stores as a transition system. -/
def storeClusterSystem (C : ClusterConfig n) : System (StoreCluster C) (StoreLabel n) where
  Init := fun s => ∃ boot, s = StoreCluster.start C boot
  step := StoreCluster.step

namespace StoreCluster

/-! ## The acting store -/

/-- What the acting store does. -/
def action (s : StoreCluster C) (l : StoreLabel n) : Option StoreAction :=
  match l.input with
  | .node env input => (s.raft.resolve l.node input).map (.node env)
  | .task action => some action

variable {s s' : StoreCluster C} {l : StoreLabel n}

/-- **A step of the cluster is one step of one store.** -/
theorem step_store (h : s.step l = some s') : ∃ action, s.action l = some action ∧
    (s.stores l.node).step (C.conf l.node) action = some (s'.stores l.node) ∧
    ∀ j, j ≠ l.node → s'.stores j = s.stores j := by
  unfold step at h
  unfold action
  split at h
  · rename_i env input hinput
    split at h
    · cases h
    · rename_i action haction
      split at h
      · cases h
      · obtain ⟨store, hstore, rfl⟩ := Option.map_eq_some_iff.1 h
        exact ⟨.node env action, by simp [haction], by simpa using hstore,
          fun j hj => setStore_of_ne s store hj⟩
  · rename_i action hinput
    split at h
    · cases h
    · obtain ⟨store, hstore, rfl⟩ := Option.map_eq_some_iff.1 h
      exact ⟨action, rfl, by simpa using hstore, fun j hj => setStore_of_ne s store hj⟩

/-- Each store makes a run of its own. -/
theorem steps_store {ok : StoreCluster C → StoreLabel n → Prop}
    (h : (storeClusterSystem C).Steps ok s s') (i : Fin n) :
    (storeSystem (C.conf i)).Steps System.Always (s.stores i) (s'.stores i) := by
  refine h.project (f := fun s => s.stores i) fun s l s' _ hl => ?_
  obtain ⟨action, _, hstep, hothers⟩ := step_store hl
  by_cases hi : i = l.node
  · subst hi
    exact Or.inr ⟨action, trivial, hstep⟩
  · exact Or.inl (hothers i hi)

/-! ## The nodes alone -/

/-- The step of the nodes that a step of the stores amounts to, if it is about a node. -/
def raftLabel (s : StoreCluster C) (l : StoreLabel n) : Option (Label n Operation) :=
  match l.input with
  | .node env input => some ⟨l.node, env, input⟩
  | .task (.handleCmd env) =>
    match (s.stores l.node).hand with
    | some (cmd, _) => if cmd.isWrite then some ⟨l.node, env, .act (.appendEntry cmd)⟩ else none
    | none => none
  | .task _ => none

/-- A task is about a node when it appends a write. -/
theorem raftLabel_task {i : Fin n} {action : StoreAction} {l' : Label n Operation}
    (h : l' ∈ s.raftLabel ⟨i, .task action⟩) :
    ∃ env cmd number, action = .handleCmd env ∧ (s.stores i).hand = some (cmd, number) ∧
      cmd.isWrite = true ∧ l' = ⟨i, env, .act (.appendEntry cmd)⟩ := by
  cases action with
  | handleCmd env =>
    cases hhand : (s.stores i).hand with
    | none => simp [raftLabel, hhand] at h
    | some item =>
      obtain ⟨cmd, number⟩ := item
      simp only [raftLabel, hhand, Option.mem_def, Option.ite_none_right_eq_some,
        Option.some.injEq] at h
      exact ⟨env, cmd, number, rfl, rfl, h.1, h.2.symm⟩
  | _ => cases h

/-- A condition on the steps of the nodes, as one on the steps of the stores. -/
def OnNodes (ok : Cluster C Operation → Label n Operation → Prop) (s : StoreCluster C)
    (l : StoreLabel n) : Prop :=
  ∀ l' ∈ s.raftLabel l, ok s.raft l'

instance (ok : Cluster C Operation → Label n Operation → Prop) [∀ s l, Decidable (ok s l)]
    (s : StoreCluster C) (l : StoreLabel n) : Decidable (OnNodes ok s l) :=
  inferInstanceAs (Decidable (∀ l' ∈ s.raftLabel l, ok s.raft l'))

/-- Replacing a store replaces its node. -/
theorem raft_setStore (s : StoreCluster C) (i : Fin n) (store : KVStore)
    (conns : List (Connection n Operation)) :
    raft (⟨s.setStore i store, conns⟩ : StoreCluster C)
      = ⟨s.raft.setNode i store.raft, conns⟩ := by
  have hnodes : (fun j => (s.setStore i store j).raft) = s.raft.setNode i store.raft := by
    funext j
    by_cases hj : j = i
    · subst hj
      simp
    · rw [setStore_of_ne s store hj, Cluster.setNode_of_ne s.raft _ hj]
      rfl
  simp only [raft, hnodes]

/-- **The stores refine their nodes.**  A step of a store is the step of the nodes that
its label names, or it leaves the nodes alone. -/
theorem step_raft (h : s.step l = some s') :
    s'.raft = s.raft ∨ ∃ l' ∈ s.raftLabel l, s.raft.step l' = some s'.raft := by
  unfold step at h
  split at h
  · rename_i env input hinput
    split at h
    · cases h
    · rename_i action haction
      split at h
      · cases h
      · rename_i m effect hm
        obtain ⟨store, hstore, rfl⟩ := Option.map_eq_some_iff.1 h
        have hraft : store.raft = m := KVStore.raft_of_node hstore hm
        have hm' : (s.raft.nodes l.node).step (C.conf l.node) env action = some (m, effect) := hm
        refine Or.inr ⟨⟨l.node, env, input⟩, by simp [raftLabel, hinput], ?_⟩
        simp only [Cluster.step, haction, hm', raft_setStore, hraft]
        rfl
  · rename_i action hinput
    split at h
    · cases h
    · rename_i hnode
      obtain ⟨store, hstore, rfl⟩ := Option.map_eq_some_iff.1 h
      have hsetself : s.raft.setNode l.node (s.raft.nodes l.node) = s.raft.nodes := by
        funext j
        by_cases hj : j = l.node
        · subst hj
          simp
        · exact Cluster.setNode_of_ne s.raft _ hj
      rw [raft_setStore]
      rcases KVStore.raft_cases hstore with hsame | ⟨env, action', _, rfl, _⟩ |
        ⟨env, cmd, number, effect, rfl, hhand, hwrite, hm⟩
      · left
        rw [hsame]
        exact congrArg (Cluster.mk · s.conns) hsetself
      · exact absurd rfl (hnode env action')
      · right
        have hm' : (s.raft.nodes l.node).step (C.conf l.node) env (.appendEntry cmd)
            = some (store.raft, .quiet) := Node.effect_of_appendEntry hm ▸ hm
        refine ⟨⟨l.node, env, .act (.appendEntry cmd)⟩, ?_, ?_⟩
        · simp [raftLabel, hinput, hhand, hwrite]
        · simp only [Cluster.step, Cluster.resolve, Cluster.isLocal, if_true, hm']
          rfl

/-- The nodes of the stores make a run of a cluster. -/
theorem steps_raft {ok : Cluster C Operation → Label n Operation → Prop}
    (h : (storeClusterSystem C).Steps (OnNodes ok) s s') :
    (clusterSystem C Operation).Steps ok s.raft s'.raft := by
  refine h.project (f := raft) fun s l s' hok hl => ?_
  rcases step_raft hl with hsame | ⟨l', hl', hstep⟩
  · exact Or.inl hsame
  · exact Or.inr ⟨l', hok l' hl', hstep⟩

/-- Started stores are stores on started nodes. -/
theorem init_raft (h : (storeClusterSystem C).Init s) :
    (clusterSystem C Operation).Init s.raft := by
  obtain ⟨boot, rfl⟩ := h
  exact ⟨boot, rfl⟩

theorem reachable_raft {ok : Cluster C Operation → Label n Operation → Prop}
    (h : (storeClusterSystem C).Reachable (OnNodes ok) s) :
    (clusterSystem C Operation).Reachable ok s.raft :=
  let ⟨s₀, hs₀, hsteps⟩ := h
  ⟨s₀.raft, init_raft hs₀, steps_raft hsteps⟩

/-! ## A run of two stores -/

/-- A cluster whose nodes and stores have all been started at time 0. -/
def start₀ (C : ClusterConfig n) : StoreCluster C := start C fun _ => .atTime 0

theorem init_start₀ (C : ClusterConfig n) : (storeClusterSystem C).Init (start₀ C) := ⟨_, rfl⟩

end StoreCluster

/-- A step of a node, in a cluster of stores. -/
def Label.onStore (l : Label n Operation) : StoreLabel n := ⟨l.node, .node l.env l.input⟩

/-- Client task 0 of store `i` writes "a" through its leader. -/
def writeThrough (now : Nat) (i : Fin n) : List (StoreLabel n) :=
  ([.command 0 ['s', 'e', 't', ' ', 'a', ' ', 'b'], .put 0, .answer 0 true, .receive,
    .handleCmd (.atTime now)] : List StoreAction).map fun action => ⟨i, .task action⟩

/-- Store `i` applies an entry, and its client task 0 reads "a". -/
def applyAndRead (i : Fin n) : List (StoreLabel n) :=
  ([.apply, .command 0 ['g', 'e', 't', ' ', 'a'], .lookup 0, .answer 0 true] :
    List StoreAction).map fun action => ⟨i, .task action⟩

/-- Of two stores the first leads and takes a write; both apply and read it. -/
def writeAndRead : List (StoreLabel 2) :=
  (elect 200 0 0 1).map Label.onStore ++ writeThrough 202 0 ++
  ([Label.atTime 210 0 (.act .sendHeartbeat)] ++ exchange 210 1 0 1 ++
    commitAfter 210 2 0 [(1, 2)] ++ [Label.atTime 220 0 (.act .sendHeartbeat)] ++
    exchange 220 2 0 1 ++ commitAfter 220 3 0 [(1, 2)]).map Label.onStore ++
  applyAndRead 0 ++ applyAndRead 1

end Quaso
