import Quaso.Kv.Replicas
import Quaso.Raft.Bincode
import Quaso.Safety.Stream

/-!
# Stores over byte streams

The nodes of a cluster of stores talk to each other over byte streams; their commands are
`Operation`s of `kv/src/storage/kv.rs`, which bincode writes with everything else.

* `Bincode.operation` — the format of a command.
* `StoreWires` — the stores, and the streams between their nodes.
* `StoreWires.Represents.step` — one step of it is one of the cluster of stores, or none.
* `store_wires_refine` — so every run is one, with the replies that the clients get;
  `wires_consistent` is what that gives for the replies.
-/

namespace Quaso

/-! ## The commands in bincode -/

namespace Bincode

def byte : Codec UInt8 :=
  (Codec.word 1).embed UInt8.ofNat (fun b => some b.toNat) (by
    intro value b h
    obtain rfl := Option.some.inj h
    exact UInt8.ofNat_toNat)

/-- A `String`: its bytes, with their number in front. -/
def text : Codec Text := byte.list.convert fromUtf8 encode fromUtf8_encode

/-- The numbers of the variants of `Operation`. -/
def operationVariant : Operation → Nat
  | .set .. => 0
  | .get _ => 1
  | .delete _ => 2
  | .invalid => 3

def operation : Codec Operation :=
  Codec.variants
    [(text.seq text).embed (fun (key, value) => .set key value)
      (fun | .set key value => some (key, value) | _ => none)
      (by
        rintro _ (_ | _ | _ | _) h <;> cases h
        rfl),
     text.embed .get
      (fun | .get key => some key | _ => none)
      (by
        rintro _ (_ | _ | _ | _) h <;> cases h
        rfl),
     text.embed .delete
      (fun | .delete key => some key | _ => none)
      (by
        rintro _ (_ | _ | _ | _) h <;> cases h
        rfl),
     Codec.unit.embed (fun _ => .invalid)
      (fun | .invalid => some () | _ => none)
      (by
        rintro _ (_ | _ | _ | _) h <;> cases h
        rfl)]
    operationVariant

example : operation.encode (.set ['a'] ['é']) = [0, 0, 0, 0] ++ [1, 0, 0, 0, 0, 0, 0, 0, 97]
    ++ [2, 0, 0, 0, 0, 0, 0, 0, 195, 169] := by decide +kernel

end Bincode

/-! ## Stores and streams -/

/-- The stores of a cluster and the streams between their nodes. -/
structure StoreWires {n : Nat} (C : ClusterConfig n) where
  stores : Fin n → KVStore
  /-- The stream that a listener reads, if it reads one. -/
  reading : Fin n → Option Nat
  streams : List (Stream n)

/-- What happens at a store. -/
inductive StoreWireInput where
  /-- Its node makes a step of its own, or bytes move. -/
  | node (env : Env) (input : WireInput Operation)
  /-- One of the tasks of the store goes on. -/
  | task (action : StoreAction)

/-- A step of a cluster of stores over byte streams. -/
structure StoreWireLabel (n : Nat) where
  node : Fin n
  input : StoreWireInput

variable {n : Nat} {C : ClusterConfig n}

namespace StoreWires

variable (codec : MessageCodec Operation)

/-- The nodes without their stores. -/
def wires (w : StoreWires C) : Wires C Operation where
  nodes := fun i => (w.stores i).raft
  reading := w.reading
  streams := w.streams

/-- Replace one store. -/
def setStore (w : StoreWires C) (i : Fin n) (store : KVStore) : Fin n → KVStore :=
  fun j => if j = i then store else w.stores j

/-- One step: of the network, of a node, or of a task. -/
def step (w : StoreWires C) (l : StoreWireLabel n) : Option (StoreWires C) :=
  match l.input with
  | .node env input =>
    match w.wires.step codec ⟨l.node, env, input⟩ with
    | none => none
    | some moved =>
      match w.wires.resolve codec l.node env input with
      | none => some { w with reading := moved.reading, streams := moved.streams }
      | some action =>
        ((w.stores l.node).step (C.conf l.node) (.node env action)).map fun store =>
          { stores := w.setStore l.node store
            reading := moved.reading
            streams := moved.streams }
  | .task action =>
    match action with
    | .node _ _ => none
    | action =>
      ((w.stores l.node).step (C.conf l.node) action).map fun store =>
        { w with stores := w.setStore l.node store }

/-- A cluster whose nodes and stores have just been started, without files. -/
def start (C : ClusterConfig n) (boot : Fin n → Env) : StoreWires C where
  stores := fun i => KVStore.start (C.conf i) (boot i) .fresh
  reading := fun _ => none
  streams := []

/-- The step of the nodes that a step of the stores amounts to, if it is about a node. -/
def wireLabel (w : StoreWires C) (l : StoreWireLabel n) : Option (WireLabel n Operation) :=
  match l.input with
  | .node env input => some ⟨l.node, env, input⟩
  | .task (.handleCmd env) =>
    match (w.stores l.node).hand with
    | some (cmd, _) => if cmd.isWrite then some ⟨l.node, env, .act (.appendEntry cmd)⟩ else none
    | none => none
  | .task _ => none

/-- A condition on the steps of a node, as one on the steps of the stores. -/
def OnNodes (ok : Node Operation → Action Operation → Prop) (w : StoreWires C)
    (l : StoreWireLabel n) : Prop :=
  ∀ l' ∈ w.wireLabel l, OnWires codec ok w.wires l'

instance (ok : Node Operation → Action Operation → Prop) [∀ m a, Decidable (ok m a)]
    (w : StoreWires C) (l : StoreWireLabel n) : Decidable (OnNodes codec ok w l) :=
  inferInstanceAs (Decidable (∀ l' ∈ w.wireLabel l, OnWires codec ok w.wires l'))

/-- The reply to a `get` that a step writes. -/
def readReply (w : StoreWires C) (l : StoreWireLabel n) : Option (ReadReply n) :=
  match l.input with
  | .task action => (w.stores l.node).readReply l.node action
  | .node .. => none

end StoreWires

/-- The cluster of stores over byte streams as a transition system. -/
def storeWireSystem (codec : MessageCodec Operation) (C : ClusterConfig n) :
    System (StoreWires C) (StoreWireLabel n) where
  Init := fun w => ∃ boot, w = StoreWires.start C boot
  step := StoreWires.step codec

/-! ## What it stands for -/

/-- A cluster of stores over byte streams stands for a cluster of stores. -/
structure StoreWires.Represents (codec : MessageCodec Operation) (w : StoreWires C)
    (s : StoreCluster C) : Prop where
  stores : w.stores = s.stores
  wires : w.wires.Represents codec s.raft

namespace StoreWires

variable {codec : MessageCodec Operation} {w w' : StoreWires C} {s : StoreCluster C}
  {ok : Node Operation → Action Operation → Prop} {l : StoreWireLabel n}

/-- Replacing a store replaces its node. -/
theorem wires_setStore (w : StoreWires C) (i : Fin n) (store : KVStore)
    (reading : Fin n → Option Nat) (streams : List (Stream n)) :
    wires (⟨w.setStore i store, reading, streams⟩ : StoreWires C)
      = ⟨fun j => if j = i then store.raft else w.wires.nodes j, reading, streams⟩ := by
  have hnodes : (fun j => (w.setStore i store j).raft)
      = fun j => if j = i then store.raft else w.wires.nodes j := by
    funext j
    exact apply_ite KVStore.raft (j = i) store (w.stores j)
  simp only [wires, hnodes]


namespace Represents

variable (h : w.Represents codec s)

include h

/-- Bytes move and no node does. -/
theorem transfer {i : Fin n} {traffic : Traffic} {moved : Wires C Operation}
    (ht : w.wires.transfer i traffic = some moved) :
    Represents codec { w with reading := moved.reading, streams := moved.streams } s where
  stores := h.stores
  wires := by
    have hmoved : moved.Represents codec s.raft := h.wires.transfer ht
    have hnodes : moved.nodes = w.wires.nodes := hmoved.nodes.trans h.wires.nodes.symm
    obtain ⟨nodes, reading, streams⟩ := moved
    cases hnodes
    exact hmoved

/-- A store makes the step that its node makes. -/
theorem node {i : Fin n} {env : Env} {input : WireInput Operation} {action : Action Operation}
    {m : Node Operation} {effect : Effect Operation} {store : KVStore}
    (hreach : (storeClusterSystem C).Reachable (StoreCluster.OnNodes (Lift ok)) s)
    (hresolve : w.wires.resolve codec i env input = some action)
    (hstep : (w.wires.nodes i).step (C.conf i) env action = some (m, effect))
    (hstore : (w.stores i).step (C.conf i) (.node env action) = some store) :
    ∃ input' s', s.raft.resolve i input' = some action ∧
      s.step ⟨i, .node env input'⟩ = some s' ∧
      Represents codec
        { stores := w.setStore i store
          reading := (w.wires.moved codec i env input m effect).reading
          streams := (w.wires.moved codec i env input m effect).streams } s' := by
  have hraft := StoreCluster.reachable_raft hreach
  obtain ⟨input', hresolved, hstep', hmoved⟩ :=
    h.wires.moved (.of_reachable hraft) (.of_reachable hraft) hresolve hstep
  have hnode : store.raft = m := KVStore.raft_of_node hstore hstep
  rw [h.stores] at hstore
  refine ⟨input', ⟨s.setStore i store,
    Cluster.applyEffect i (Cluster.readInput s.conns input') effect⟩, hresolved, ?_, ?_, ?_⟩
  · have hstep'' : (s.stores i).raft.step (C.conf i) env action = some (m, effect) := hstep'
    simp only [StoreCluster.step, hresolved, hstep'', hstore, Option.map_some]
  · funext j
    simp only [setStore, StoreCluster.setStore, h.stores]
  · rw [StoreCluster.raft_setStore, hnode, wires_setStore, hnode]
    exact hmoved

/-- A task goes on, and with it perhaps the log. -/
theorem task {i : Fin n} {action : StoreAction} {store : KVStore}
    (hreach : (storeClusterSystem C).Reachable (StoreCluster.OnNodes (Lift ok)) s)
    (hnode : ∀ env action', action ≠ .node env action')
    (hstore : (w.stores i).step (C.conf i) action = some store) :
    Represents codec (⟨w.setStore i store, w.reading, w.streams⟩ : StoreWires C)
      ⟨s.setStore i store, s.conns⟩ where
  stores := by
    funext j
    simp only [setStore, StoreCluster.setStore, h.stores]
  wires := by
    rw [StoreCluster.raft_setStore, wires_setStore]
    rcases KVStore.raft_cases hstore with hsame | ⟨env, action', _, rfl, _⟩ |
      ⟨env, cmd, number, effect, rfl, hhand, hwrite, hm⟩
    · have hwires : (fun j => if j = i then store.raft else w.wires.nodes j) = w.wires.nodes := by
        funext j
        split
        · rename_i hj
          rw [hj, hsame]
          rfl
        · rfl
      have hnodes : s.raft.setNode i store.raft = s.raft.nodes := by
        rw [← h.wires.nodes, ← hwires]
        funext j
        simp only [Cluster.setNode, ← h.wires.nodes]
      rw [hwires, hnodes]
      exact h.wires
    · exact absurd rfl (hnode env action')
    · obtain rfl := Node.effect_of_appendEntry hm
      have hraft := StoreCluster.reachable_raft hreach
      have hresolve : w.wires.resolve codec i env (.act (.appendEntry cmd))
          = some (.appendEntry cmd) := rfl
      obtain ⟨input', hresolved, _, hmoved⟩ :=
        h.wires.moved (.of_reachable hraft) (.of_reachable hraft) hresolve hm
      obtain rfl := Cluster.resolve_appendEntry hresolved
      exact hmoved

/-- What holds of the step of a node over byte streams holds of its step over messages. -/
theorem onNodes_node {env : Env} {input : WireInput Operation} {input' : Input Operation}
    {action : Action Operation} (hinput : l.input = .node env input)
    (hok : OnNodes codec ok w l)
    (hresolve : w.wires.resolve codec l.node env input = some action)
    (hresolved : s.raft.resolve l.node input' = some action) :
    StoreCluster.OnNodes (Lift ok) s ⟨l.node, .node env input'⟩ := by
  intro l' hl' action' haction'
  obtain rfl := Option.some.inj hl'
  obtain rfl := Option.some.inj (hresolved.symm.trans haction')
  have hlabel : ⟨l.node, env, input⟩ ∈ w.wireLabel l := by simp [wireLabel, hinput]
  have hnode := hok _ hlabel action hresolve
  rwa [h.wires.nodes] at hnode

/-- So it does of a task that appends to the log. -/
theorem onNodes_task {action : StoreAction} (hinput : l.input = .task action)
    (hok : OnNodes codec ok w l) :
    StoreCluster.OnNodes (Lift ok) s ⟨l.node, .task action⟩ := by
  intro l' hl' action' haction'
  obtain ⟨env, cmd, number, rfl, hhand, hwrite, rfl⟩ := StoreCluster.raftLabel_task hl'
  obtain rfl := Option.some.inj haction'
  rw [← h.stores] at hhand
  have hlabel : ⟨l.node, env, .act (.appendEntry cmd)⟩ ∈ w.wireLabel l := by
    simp [wireLabel, hinput, hhand, hwrite]
  have hnode := hok _ hlabel (.appendEntry cmd) rfl
  rwa [h.wires.nodes] at hnode

/-- **One step.**  What the stores over byte streams do is a step of the cluster of stores
that writes the same reply, or none. -/
theorem step (hreach : (storeClusterSystem C).Reachable (StoreCluster.OnNodes (Lift ok)) s)
    (hok : OnNodes codec ok w l) (hl : w.step codec l = some w') :
    (w.readReply l = none ∧ w'.Represents codec s) ∨
      ∃ l' s', StoreCluster.OnNodes (Lift ok) s l' ∧ s.step l' = some s' ∧
        s.readReply l' = w.readReply l ∧ w'.Represents codec s' := by
  unfold StoreWires.step at hl
  split at hl
  · rename_i env input hinput
    have hreply : w.readReply l = none := by simp only [StoreWires.readReply, hinput]
    split at hl
    · cases hl
    · rename_i moved hmoved
      rcases Wires.step_cases hmoved with ⟨t, _, hresolve, ht⟩ |
        ⟨action, m, effect, hresolve, hstep, rfl⟩
      · simp only at hresolve
        simp only [hresolve] at hl
        obtain rfl := Option.some.inj hl
        exact Or.inl ⟨hreply, h.transfer ht⟩
      · simp only at hresolve
        simp only [hresolve] at hl
        obtain ⟨store, hstore, rfl⟩ := Option.map_eq_some_iff.1 hl
        obtain ⟨input', s', hresolved, hs', hR⟩ := h.node hreach hresolve hstep hstore
        refine Or.inr ⟨_, s', h.onNodes_node hinput hok hresolve hresolved, hs', ?_, hR⟩
        rw [hreply]
        rfl
  · rename_i action hinput
    split at hl
    · cases hl
    · rename_i hnode
      obtain ⟨store, hstore, rfl⟩ := Option.map_eq_some_iff.1 hl
      have hR := h.task hreach hnode hstore
      rw [h.stores] at hstore
      refine Or.inr ⟨⟨l.node, .task action⟩, _, h.onNodes_task hinput hok, ?_, ?_, hR⟩
      · simp only [StoreCluster.step, hstore, Option.map_some]
      · simp only [StoreCluster.readReply, StoreWires.readReply, hinput, h.stores]

end Represents

/-- A cluster of stores over byte streams that has just been started. -/
theorem Represents.start (boot : Fin n → Env) :
    (StoreWires.start C boot).Represents codec (StoreCluster.start C boot) :=
  ⟨rfl, .start boot⟩

/-- Every run is one of the cluster of stores, with the same replies. -/
theorem Represents.of_reachable {history : List (ReadReply n)}
    (h : ((storeWireSystem codec C).record readReply).Reachable
      (System.OnState (OnNodes codec ok)) (w, history)) :
    ∃ s, ((storeClusterSystem C).record StoreCluster.readReply).Reachable
      (System.OnState (StoreCluster.OnNodes (Lift ok))) (s, history) ∧
        w.Represents codec s := by
  refine h.invariant (I := fun m => ∃ s, ((storeClusterSystem C).record
    StoreCluster.readReply).Reachable (System.OnState (StoreCluster.OnNodes (Lift ok)))
      (s, m.2) ∧ m.1.Represents codec s) ?_ ?_
  · rintro ⟨w, history⟩ ⟨⟨boot, rfl⟩, rfl⟩
    exact ⟨_, ⟨_, ⟨⟨boot, rfl⟩, rfl⟩, .refl _ _ _⟩, .start boot⟩
  · rintro ⟨w, history⟩ l ⟨w', history'⟩ _ ⟨s, hreach, hR⟩ hok hl
    obtain ⟨hl, rfl⟩ := System.record_step hl
    rcases hR.step hreach.of_record hok hl with ⟨hreply, hR'⟩ |
      ⟨l', s', hok', hs', hreply, hR'⟩
    · exact ⟨s, by simpa [hreply] using hreach, hR'⟩
    · refine ⟨s', hreach.step hok' ?_, hR'⟩
      change (s.step l').map _ = _
      rw [hs', Option.map_some, hreply]

end StoreWires

variable {codec : MessageCodec Operation} {w : StoreWires C}

/-- **Stores over byte streams.**  Whatever pieces the messages of the nodes come in, and
wherever they are cut off: what the stores of a cluster come to, and the replies that their
clients get on the way, they come to in a cluster that hands messages over whole, under the
same condition on the steps of the nodes. -/
theorem store_wires_refine {ok : Node Operation → Action Operation → Prop}
    {history : List (ReadReply n)}
    (h : ((storeWireSystem codec C).record StoreWires.readReply).Reachable
      (System.OnState (StoreWires.OnNodes codec ok)) (w, history)) :
    ∃ s, ((storeClusterSystem C).record StoreCluster.readReply).Reachable
      (System.OnState (StoreCluster.OnNodes (Lift ok))) (s, history) ∧
        s.stores = w.stores := by
  obtain ⟨s, hreach, hrepresents⟩ := StoreWires.Represents.of_reachable h
  exact ⟨s, hreach, hrepresents.stores.symm⟩

/-- A step of the nodes, in a cluster of stores. -/
def WireLabel.onStore (l : WireLabel n Operation) : StoreWireLabel n :=
  ⟨l.node, .node l.env l.input⟩

/-- A step of a task, over byte streams. -/
def StoreLabel.onWires (l : StoreLabel n) : Option (StoreWireLabel n) :=
  match l.input with
  | .task action => some ⟨l.node, .task action⟩
  | .node .. => none

/-- Node 0 replicates its one entry, commits it, and tells its follower. -/
def replicateInPieces : List (WireLabel 2 Operation) :=
  [⟨0, .atTime 210, .act .sendHeartbeat⟩] ++ exchangeInPieces 210 1 70 0 1 ++
  [⟨0, .atTime 210, .act (.advance 2)⟩, ⟨0, .atTime 210, .act (.commit [(1, 2)])⟩,
    ⟨0, .atTime 220, .act .sendHeartbeat⟩] ++ exchangeInPieces 220 2 44 0 1

/-- Of two stores the first leads and takes a write; both apply and read it. -/
def writeAndReadInPieces : List (StoreWireLabel 2) :=
  electInPieces.map WireLabel.onStore ++ (writeThrough 202 0).filterMap StoreLabel.onWires ++
  replicateInPieces.map WireLabel.onStore ++
  (applyAndRead 0 ++ applyAndRead 1).filterMap StoreLabel.onWires

/-- The replies of a run in pieces are those of a run over whole messages. -/
theorem store_wires_refine_writeAndReadInPieces : ∃ s history,
    ((storeClusterSystem duo).record StoreCluster.readReply).Reachable
      (System.OnState (StoreCluster.OnNodes (Lift ExtendOk))) (s, history) ∧
    history.map ReadReply.text = [quoted ['b'], quoted ['b']] := by
  obtain ⟨⟨w, history⟩, hw, htexts⟩ := System.exec_any
    ((storeWireSystem (bincode Bincode.operation) duo).record StoreWires.readReply)
    (System.OnState (StoreWires.OnNodes (bincode Bincode.operation) ExtendOk))
    (.start duo fun _ => .atTime 0, []) writeAndReadInPieces
    (P := fun m => m.2.map ReadReply.text = [quoted ['b'], quoted ['b']]) (by decide +kernel)
  obtain ⟨s, hs, _⟩ := store_wires_refine ⟨_, ⟨⟨_, rfl⟩, rfl⟩, hw⟩
  exact ⟨s, history, hs, htexts⟩

/-- **Reads are consistent over byte streams.**  In a run whose steps all meet `ExtendOk`,
with quorums that are majorities, however the messages of the nodes are cut into pieces: there is
one order of writes, made of what clients have put on the channels, such that every reply to
a `get` is what an empty storage answers after a beginning of that order, and the replies
over one connection come from beginnings that do not get shorter. -/
theorem wires_consistent (hquorum : ∀ i, n < 2 * getQuorumLength (C.conf i))
    {history : List (ReadReply n)}
    (h : ((storeWireSystem codec C).record StoreWires.readReply).Reachable
      (System.OnState (StoreWires.OnNodes codec ExtendOk)) (w, history)) :
    ∃ order : List (LogEntry Operation), (∀ e ∈ order, ∃ i, e.value ∈ (w.stores i).put) ∧
      ∃ seen : List (ReadReply n × Nat), seen.map Prod.fst = history ∧
        (∀ p ∈ seen, p.2 ≤ order.length ∧ ReadAt order p.2 p.1.key p.1.text) ∧
        seen.Pairwise fun p p' => p.1.SameClient p'.1 → p.2 ≤ p'.2 := by
  obtain ⟨s, hs, hrepresents⟩ := StoreWires.Represents.of_reachable h
  obtain ⟨seen, hseen, hexplained⟩ := StoreCluster.Seen.of_reachable hquorum hs
  have hreach := hs.of_record
  refine ⟨s.raft.order, fun e he => ?_, seen, hseen, hexplained.explains hquorum hreach⟩
  obtain ⟨i, hput⟩ := StoreCluster.put_of_mem_order (.of_reachable hreach) he
  exact ⟨i, by rw [hrepresents.stores]; exact hput⟩

/-- The clients of both stores read what the first has written. -/
theorem wires_consistent_writeAndReadInPieces : ∃ (history : List (ReadReply 2))
    (order : List (LogEntry Operation)) (seen : List (ReadReply 2 × Nat)),
    history.map ReadReply.text = [quoted ['b'], quoted ['b']] ∧ seen.map Prod.fst = history ∧
      ∀ p ∈ seen, ReadAt order p.2 p.1.key p.1.text := by
  obtain ⟨⟨w, history⟩, hw, htexts⟩ := System.exec_any
    ((storeWireSystem (bincode Bincode.operation) duo).record StoreWires.readReply)
    (System.OnState (StoreWires.OnNodes (bincode Bincode.operation) ExtendOk))
    (.start duo fun _ => .atTime 0, []) writeAndReadInPieces
    (P := fun m => m.2.map ReadReply.text = [quoted ['b'], quoted ['b']]) (by decide +kernel)
  obtain ⟨order, _, seen, hseen, hreplies, _⟩ := wires_consistent
    (duo.lt_two_mul_getQuorumLength (by decide)) ⟨_, ⟨⟨_, rfl⟩, rfl⟩, hw⟩
  exact ⟨history, order, seen, htexts, hseen, fun p hp => (hreplies p hp).2⟩

end Quaso
