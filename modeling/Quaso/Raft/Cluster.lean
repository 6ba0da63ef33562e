import Mathlib.Data.Fin.VecNotation
import Mathlib.Data.Fintype.Card
import Mathlib.Data.List.FinRange
import Quaso.Lib.TransitionSystem
import Quaso.Raft.Transitions

/-!
# A cluster of nodes over TCP connections

Every request travels on a connection of its own, which `Client::send` opens:
the request is written, the listener of the addressed node reads it, its handler
runs, and one response comes back.  The network is therefore a list of
connections, and a connection is named by its position in the list.

* `ClusterConfig` — the configurations of the nodes, with the facts that make
  them one cluster as fields.
* `Cluster` — the nodes and every connection opened so far.
* `clusterSystem` — the steps: any node does anything it can do at any time.  A
  request that is never read was lost or is delayed; a response that is never
  read was lost, and the waiting loop may be told so at any time.
* `Cluster.step_cases` — what a step of the cluster is: one step of one node,
  with what it shows to the network.
* `Lift` — a condition on the steps of a node, as one on the steps of a cluster.
-/

namespace Quaso

/-! ## Clusters -/

/-- The configuration of a cluster of `n` nodes: distinct node ids, distinct listener
addresses, and every node connected to exactly the others. -/
structure ClusterConfig (n : Nat) where
  conf : Fin n → Config
  nodeId_injective : Function.Injective fun i => (conf i).nodeId
  addr_injective : Function.Injective fun i => (conf i).listenerAddr
  connections_nodup : ∀ i, (conf i).connections.Nodup
  mem_connections : ∀ i addr,
    addr ∈ (conf i).connections ↔ ∃ j, j ≠ i ∧ (conf j).listenerAddr = addr

/-- The cluster in which every node lists the others in the order of their
numbers. -/
def ClusterConfig.mesh {n : Nat} (nodeId : Fin n → NodeId) (addr : Fin n → Addr)
    (hid : Function.Injective nodeId) (haddr : Function.Injective addr) : ClusterConfig n where
  conf := fun i => ⟨nodeId i, addr i, ((List.finRange n).filter (· ≠ i)).map addr⟩
  nodeId_injective := hid
  addr_injective := haddr
  connections_nodup := fun i => ((List.nodup_finRange n).filter _).map haddr
  mem_connections := by
    intro i a
    simp

namespace ClusterConfig

variable {n : Nat} (C : ClusterConfig n)

/-- A node is not among its own peers. -/
theorem own_addr_notMem (i : Fin n) : (C.conf i).listenerAddr ∉ (C.conf i).connections := by
  intro hmem
  obtain ⟨j, hj, haddr⟩ := (C.mem_connections i _).1 hmem
  exact hj (C.addr_injective haddr)

theorem length_connections (i : Fin n) : (C.conf i).connections.length + 1 = n := by
  have hset : (C.conf i).connections.toFinset
      = (Finset.univ.erase i).image fun j => (C.conf j).listenerAddr := by
    ext a
    simp [C.mem_connections i a]
  have hcard := congrArg Finset.card hset
  rw [List.toFinset_card_of_nodup (C.connections_nodup i),
    Finset.card_image_of_injective _ C.addr_injective, Finset.card_erase_of_mem (Finset.mem_univ i),
    Finset.card_univ, Fintype.card_fin] at hcard
  have := i.pos
  omega

/-- Below `2 ^ 24` nodes a quorum is a majority. -/
theorem lt_two_mul_getQuorumLength (hn : n < 2 ^ 24) (i : Fin n) :
    n < 2 * getQuorumLength (C.conf i) := by
  have hlen := C.length_connections i
  rw [getQuorumLength_of_lt (by omega), hlen]
  omega

end ClusterConfig

/-- A TCP connection that carries one request and at most one response. -/
structure Connection (n : Nat) (T : Type) where
  /-- The node that opened it. -/
  src : Fin n
  /-- The address it was opened to. -/
  dst : Addr
  req : RequestPattern T
  /-- Whether a listener has read the request. -/
  taken : Bool
  /-- The response, once it is written. -/
  resp : Option Response

/-- The nodes of a cluster and the connections opened so far. -/
structure Cluster {n : Nat} (C : ClusterConfig n) (T : Type) where
  nodes : Fin n → Node T
  conns : List (Connection n T)

/-- What happens at a node: something of its own, or a message arrives. -/
inductive Input (T : Type) where
  /-- A step that reads nothing from the network. -/
  | act (action : Action T)
  /-- The listener accepts connection `cid`. -/
  | deliver (cid : Nat)
  /-- The response on connection `cid` reaches the loop that waits for it. -/
  | reply (cid : Nat)

/-- A step of the cluster: which node, what it reads from its clock, and what
happens there. -/
structure Label (n : Nat) (T : Type) where
  node : Fin n
  env : Env
  input : Input T

variable {n : Nat} {C : ClusterConfig n} {T : Type}

namespace Cluster

/-- The actions that need nothing from the network; a new connection takes the
next free position. -/
def isLocal (s : Cluster C T) : Action T → Bool
  | .accept .. => false
  | .appendAnswer (.reply _) => false
  | .voteAnswer (.reply _) => false
  | .advance cid => decide (cid = s.conns.length)
  | _ => true

/-- The action that an input amounts to in the present state of the network. -/
def resolve (s : Cluster C T) (i : Fin n) : Input T → Option (Action T)
  | .act action => if s.isLocal action then some action else none
  | .deliver cid =>
    match s.conns[cid]? with
    | none => none
    | some c =>
      if c.taken = false ∧ c.dst = (C.conf i).listenerAddr then some (.accept cid c.req) else none
  | .reply cid =>
    if (s.nodes i).tick.waitsOn = some cid then
      match s.conns[cid]?.bind Connection.resp with
      | some (.appendEntries resp) => some (.appendAnswer (.reply resp))
      | some (.requestVote resp) => some (.voteAnswer (.reply resp))
      | _ => none
    else none

/-- The network after an input has been read. -/
def readInput (conns : List (Connection n T)) : Input T → List (Connection n T)
  | .deliver cid => conns.modify cid fun c => { c with taken := true }
  | _ => conns

/-- The network after the effect of a step. -/
def applyEffect (i : Fin n) (conns : List (Connection n T)) :
    Effect T → List (Connection n T)
  | .quiet => conns
  | .send dst req => conns ++ [⟨i, dst, req, false, none⟩]
  | .respond cid resp => conns.modify cid fun c => { c with resp := some resp }

/-- Replace one node. -/
def setNode (s : Cluster C T) (i : Fin n) (node : Node T) : Fin n → Node T :=
  fun j => if j = i then node else s.nodes j

@[simp] theorem setNode_self (s : Cluster C T) (i : Fin n) (node : Node T) :
    s.setNode i node i = node := if_pos rfl

theorem setNode_of_ne (s : Cluster C T) {i j : Fin n} (node : Node T) (h : j ≠ i) :
    s.setNode i node j = s.nodes j := if_neg h

/-- One step of the cluster. -/
def step (s : Cluster C T) (l : Label n T) : Option (Cluster C T) :=
  match s.resolve l.node l.input with
  | none => none
  | some action =>
    match (s.nodes l.node).step (C.conf l.node) l.env action with
    | none => none
    | some (node, effect) =>
      some
        { nodes := s.setNode l.node node
          conns := applyEffect l.node (readInput s.conns l.input) effect }

/-- A cluster whose nodes have just been started. -/
def start (C : ClusterConfig n) (T : Type) (boot : Fin n → Env) : Cluster C T where
  nodes := fun i => Node.start (C.conf i) (boot i)
  conns := []

end Cluster

/-- The cluster as a transition system. -/
def clusterSystem (C : ClusterConfig n) (T : Type) : System (Cluster C T) (Label n T) where
  Init := fun s => ∃ boot, s = Cluster.start C T boot
  step := Cluster.step

/-- A step of the cluster, seen from the acting node. -/
structure Cluster.Moves (s s' : Cluster C T) (l : Label n T) (action : Action T)
    (effect : Effect T) : Prop where
  resolved : s.resolve l.node l.input = some action
  /-- The acting node does what its input amounts to. -/
  acting : Node.Step (C.conf l.node) l.env (s.nodes l.node) action (s'.nodes l.node) effect
  /-- The others stay as they are. -/
  others : ∀ j, j ≠ l.node → s'.nodes j = s.nodes j
  /-- The network takes note. -/
  conns : s'.conns = applyEffect l.node (readInput s.conns l.input) effect

/-- **A step of the cluster is one step of one node.** -/
theorem Cluster.step_cases {s s' : Cluster C T} {l : Label n T}
    (h : (clusterSystem C T).step s l = some s') : ∃ action effect, s.Moves s' l action effect := by
  change s.step l = some s' at h
  unfold Cluster.step at h
  split at h
  · cases h
  · rename_i action haction
    split at h
    · cases h
    · rename_i node effect hstep
      obtain rfl := Option.some.inj h
      refine ⟨action, effect, haction, ?_, fun j hj => setNode_of_ne s node hj, rfl⟩
      simpa only [setNode_self] using Node.step_sound hstep

/-- The acting node makes the step of the code. -/
theorem Cluster.Moves.node_step {s s' : Cluster C T} {l : Label n T} {action : Action T}
    {effect : Effect T} (hm : s.Moves s' l action effect)
    (h : (clusterSystem C T).step s l = some s') :
    ∃ effect, (s.nodes l.node).step (C.conf l.node) l.env action
      = some (s'.nodes l.node, effect) := by
  change s.step l = some s' at h
  simp only [Cluster.step, hm.resolved] at h
  split at h
  · cases h
  · rename_i node effect hstep
    obtain rfl := Option.some.inj h
    exact ⟨effect, by simpa only [setNode_self] using hstep⟩

/-- A condition on the steps of a node, as a condition on the steps of a
cluster: the acting node meets it, at the action its input amounts to. -/
def Lift (ok : Node T → Action T → Prop) (s : Cluster C T) (l : Label n T) : Prop :=
  ∀ action, s.resolve l.node l.input = some action → ok (s.nodes l.node) action

instance (ok : Node T → Action T → Prop) [∀ n a, Decidable (ok n a)] (s : Cluster C T)
    (l : Label n T) : Decidable (Lift ok s l) :=
  match h : s.resolve l.node l.input with
  | none => .isTrue fun action ha => by rw [h] at ha; cases ha
  | some action =>
    if hok : ok (s.nodes l.node) action then
      .isTrue fun a ha => by rw [h] at ha; cases ha; exact hok
    else .isFalse fun hall => hok (hall action h)

/-- What every step of every node respects relates the states of each node at
two moments of a run of the cluster. -/
theorem Cluster.steps_node {ok : Node T → Action T → Prop} {R : Node T → Node T → Prop}
    (hrefl : ∀ n, R n n) (htrans : ∀ {a b c}, R a b → R b c → R a c)
    (hstep : ∀ conf env n action n' effect, Node.Step conf env n action n' effect →
      ok n action → R n n')
    {s s' : Cluster C T} (h : (clusterSystem C T).Steps (Lift ok) s s') (i : Fin n) :
    R (s.nodes i) (s'.nodes i) := by
  induction h with
  | refl => exact hrefl _
  | tail _ hnext ih =>
    obtain ⟨l, hok, hl⟩ := hnext
    obtain ⟨action, effect, hm⟩ := Cluster.step_cases hl
    refine htrans ih ?_
    by_cases hi : i = l.node
    · subst hi
      exact hstep _ _ _ _ _ _ hm.acting (hok action hm.resolved)
    · rw [hm.others i hi]
      exact hrefl _

/-- An invariant of the steps of a node holds of every node of a cluster. -/
theorem Cluster.reachable_node {ok : Node T → Action T → Prop} {I : Fin n → Node T → Prop}
    (hinit : ∀ i env, I i (Node.start (C.conf i) env))
    (hstep : ∀ i env n action n' effect, Node.Step (C.conf i) env n action n' effect →
      ok n action → I i n → I i n')
    {s : Cluster C T} (h : (clusterSystem C T).Reachable (Lift ok) s) (i : Fin n) :
    I i (s.nodes i) := by
  revert i
  refine h.invariant (I := fun s => ∀ i, I i (s.nodes i)) ?_ ?_
  · rintro s ⟨boot, rfl⟩ i
    exact hinit i (boot i)
  · intro s l s' _ hI hok hl i
    obtain ⟨action, effect, hm⟩ := Cluster.step_cases hl
    by_cases hi : i = l.node
    · subst hi
      exact hstep _ _ _ _ _ _ hm.acting (hok action hm.resolved) (hI _)
    · rw [hm.others i hi]
      exact hI i

/-! ## Small clusters -/

/-- The nodes of two can be written as numerals. -/
instance instNeZeroDuo : NeZero 2 := ⟨by decide⟩

/-- The nodes of three can be written as numerals. -/
instance instNeZeroTrio : NeZero 3 := ⟨by decide⟩

/-- Two nodes. -/
abbrev duo : ClusterConfig 2 := .mesh (n := 2) ![1, 2] ![ "a", "b"] (by decide) (by decide)

/-- Three nodes. -/
abbrev trio : ClusterConfig 3 :=
  .mesh (n := 3) ![1, 2, 3] ![ "a", "b", "c"] (by decide) (by decide)

/-- A step of a node at a given time. -/
def Label.atTime (now : Nat) (node : Fin n) (input : Input T) : Label n T :=
  ⟨node, .atTime now, input⟩

/-- A cluster whose nodes have all been started at time 0. -/
def Cluster.start₀ (C : ClusterConfig n) (T : Type) : Cluster C T := .start C T fun _ => .atTime 0

theorem Cluster.init_start₀ (C : ClusterConfig n) (T : Type) :
    (clusterSystem C T).Init (.start₀ C T) := ⟨_, rfl⟩

/-- Node `i` sends the next request of its loop on connection `cid`, node `j` handles it
and the response arrives. -/
def exchange (now cid : Nat) (i j : Fin n) : List (Label n T) :=
  [.atTime now i (.act (.advance cid)), .atTime now j (.deliver cid),
    .atTime now j (.act (.handle true)), .atTime now i (.reply cid)]

/-- Node `i` sends the next heartbeat of its loop on connection `cid` and gets no answer. -/
def unanswered (now cid : Nat) (i : Fin n) : List (Label n T) :=
  [.atTime now i (.act (.advance cid)), .atTime now i (.act (.appendAnswer .none))]

/-- Node `i` ends its heartbeat and goes on with the commit rule, as `tick` does. -/
def commitAfter (now cid : Nat) (i : Fin n) (order : List (Nat × Nat)) : List (Label n T) :=
  [.atTime now i (.act (.advance cid)), .atTime now i (.act (.commit order))]

/-- Node `i` becomes a candidate and starts its election; `cid` is the next free
connection. -/
def campaign (now cid : Nat) (i : Fin n) : List (Label n T) :=
  [.atTime now i (.act .transitionCandidate), .atTime now i (.act (.advance cid)),
    .atTime now i (.act (.advance cid))]

/-- Node `i` is elected with the vote of its first peer `j`. -/
def elect (now cid : Nat) (i j : Fin n) : List (Label n T) :=
  campaign now cid i ++ exchange now cid i j ++ [.atTime now i (.act (.advance (cid + 1)))]

end Quaso
