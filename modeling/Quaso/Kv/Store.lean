import Quaso.Kv.Command
import Quaso.Raft.Disk

/-!
# The key-value store as a state machine

`KVStore` of `kv/src/storage/kv.rs` runs on top of one node: a `handle_client`
task for every connection, and the task of `generic_handler_interface`, which
takes the commands off the client channel and the committed entries off the
delivery channel.  The tasks share the storage, the client channel with the lock
around its sending end, and the flag `is_leader`.

* `ClientTask` — where a `handle_client` task stands.
* `KVStore.step` — what one `StoreAction` does.  A task runs from one use of
  something shared to the next in one step.
* `KVStore.Step` — the same steps as a relation, one constructor for each thing
  that can happen.

Three fields keep a history: the commands put on the channel, the replies, and
the entries that `append_entry` has appended for them.
-/

namespace Quaso

/-! ## Storage -/

/-- `StorageLayer`. -/
structure StorageLayer where
  map : AList fun _ : Text => Text

namespace StorageLayer

/-- `StorageLayer::init_default`. -/
def initDefault : StorageLayer := ⟨∅⟩

/-- `StorageLayer::get`. -/
def get (self : StorageLayer) (key : Text) : Option Text := self.map.lookup key

/-- `StorageLayer::set`; the entry is modified or inserted. -/
def set (self : StorageLayer) (key value : Text) : StorageLayer := ⟨self.map.insert key value⟩

/-- `StorageLayer::delete`. -/
def delete (self : StorageLayer) (key : Text) : StorageLayer := ⟨self.map.erase key⟩

theorem get_set (self : StorageLayer) (key value key' : Text) :
    (self.set key value).get key' = if key = key' then some value else self.get key' := by
  split
  · rename_i hkey
    subst hkey
    exact AList.lookup_insert _
  · rename_i hkey
    exact AList.lookup_insert_ne (Ne.symm hkey)

theorem get_delete (self : StorageLayer) (key key' : Text) :
    (self.delete key).get key' = if key = key' then none else self.get key' := by
  split
  · rename_i hkey
    subst hkey
    exact AList.lookup_erase _ _
  · rename_i hkey
    exact AList.lookup_erase_ne (Ne.symm hkey)

/-- The storage part of `KVStore::apply`. -/
def apply (self : StorageLayer) (message : LogEntry Operation) : StorageLayer :=
  match message.value with
  | .set key value => self.set key value
  | .delete key => self.delete key
  | .get _ | .invalid => self

end StorageLayer

/-- What `handle_client` answers to a `get`. -/
def getReply (sl : StorageLayer) (key : Text) : Text :=
  match sl.get key with
  | some value => quoted value
  | none => undefinedReply

/-! ## Tasks -/

/-- A reply of `handle_client`. -/
structure Reply where
  op : Operation
  text : Text
  /-- The number of the command among those put on the channel, if it was. -/
  number : Option Nat

/-- Where a `handle_client` task stands. -/
inductive ClientTask where
  /-- At the head of its loop. -/
  | reading
  /-- It has read a `get` and waits for the storage. -/
  | getting (key : Text)
  /-- It has found the flag set and waits for the lock of the client channel. -/
  | queueing (op : Operation)
  /-- It writes its reply. -/
  | answering (reply : Reply)
  /-- It has returned, or panicked. -/
  | closed

/-- A command that `append_entry` has appended. -/
structure Placed where
  op : Operation
  number : Nat
  /-- Its place in the log. -/
  position : Nat

/-- A key-value store on a running node. -/
structure KVStore where
  raft : Node Operation
  storage : StorageLayer
  /-- How many of the entries on the delivery channel have been applied. -/
  applied : Nat
  clients : Nat → ClientTask
  /-- The client task that holds the lock around `client_tx`. -/
  clientTx : Option Nat
  /-- The commands between `client_tx` and `client_rx`, each with its number. -/
  channel : List (Operation × Nat)
  /-- The command that `handle_cmd` has got. -/
  hand : Option (Operation × Nat)
  /-- The commands put on the channel so far. -/
  put : List Operation
  /-- The replies written so far. -/
  replies : List Reply
  /-- The commands that `append_entry` has appended so far. -/
  appended : List Placed

/-- What happens in a store. -/
inductive StoreAction where
  /-- The node makes a step of its own. -/
  | node (env : Env) (action : Action Operation)
  /-- Task `client` reads a command and, for a write, the flag. -/
  | command (client : Nat) (text : Text)
  /-- Task `client` looks up the key of its `get`. -/
  | lookup (client : Nat)
  /-- Task `client` locks the channel and sends its command. -/
  | put (client : Nat)
  /-- Task `client` writes its reply; `written` tells whether it could. -/
  | answer (client : Nat) (written : Bool)
  /-- Task `client` finds its connection closed, or bytes that are no text. -/
  | hangUp (client : Nat)
  /-- `generic_handler_interface` takes a command off the channel. -/
  | receive
  /-- `handle_cmd` runs. -/
  | handleCmd (env : Env)
  /-- `generic_handler_interface` takes an entry off the delivery channel. -/
  | apply

namespace KVStore

/-- A store on a node that has just been started. -/
def start (conf : Config) (env : Env) (persistent : PersistentState Operation) : KVStore where
  raft := Node.boot conf env persistent
  storage := .initDefault
  applied := 0
  clients := fun _ => .reading
  clientTx := none
  channel := []
  hand := none
  put := []
  replies := []
  appended := []

/-- Task `client` goes on at `task`. -/
def setClient (s : KVStore) (client : Nat) (task : ClientTask) : KVStore :=
  { s with clients := Function.update s.clients client task }

/-- After `setClient` a task stands where it was put, and the others where they were. -/
theorem setClient_cases {s : KVStore} {client c : Nat} {task t : ClientTask}
    (h : (s.setClient client task).clients c = t) :
    (c = client ∧ task = t) ∨ (c ≠ client ∧ s.clients c = t) := by
  by_cases hclient : c = client
  · subst hclient
    exact Or.inl ⟨rfl, by simpa [setClient] using h⟩
  · exact Or.inr ⟨hclient, by simpa [setClient, hclient] using h⟩

/-! ## Steps -/

/-- `handle_client` from the command it has read to the next thing it waits for. -/
def handleCommand (s : KVStore) (client : Nat) (text : Text) : KVStore :=
  match Operation.parseCommand text with
  | none => s.setClient client .closed
  | some (.get key) => s.setClient client (.getting key)
  | some op =>
    if s.raft.isLeader then s.setClient client (.queueing op)
    else s.setClient client (.answering ⟨op, notLeaderReply, none⟩)

/-- `KVStore::handle_cmd`; it waits for the state lock if it appends. -/
def handleCmd (conf : Config) (env : Env) (s : KVStore) (cmd : Operation) (number : Nat) :
    Option KVStore :=
  match cmd with
  | .get _ | .invalid => some { s with hand := none }
  | cmd =>
    (s.raft.step conf env (.appendEntry cmd)).map fun (n, _) =>
      { s with
        raft := n
        hand := none
        appended :=
          if s.raft.state.nodeType = .leader then
            s.appended ++ [⟨cmd, number, s.raft.state.log.length⟩]
          else s.appended }

/-- One step of a store. -/
def step (conf : Config) (s : KVStore) : StoreAction → Option KVStore
  | .node env action =>
    match action with
    | .appendEntry _ => none
    | action =>
      (s.raft.step conf env action).map fun (n, _) => { s with raft := n }
  | .command client text =>
    match s.clients client with
    | .reading => some (s.handleCommand client text)
    | _ => none
  | .lookup client =>
    match s.clients client with
    | .getting key =>
      some (s.setClient client (.answering ⟨.get key, getReply s.storage key, none⟩))
    | _ => none
  | .put client =>
    match s.clients client, s.clientTx with
    | .queueing op, none =>
      some { s.setClient client (.answering ⟨op, okReply, some s.put.length⟩) with
        clientTx := some client
        channel := s.channel ++ [(op, s.put.length)]
        put := s.put ++ [op] }
    | _, _ => none
  | .answer client written =>
    match s.clients client with
    | .answering reply =>
      -- only the reply to a `get` is unwrapped
      let task := if written || !reply.op.isGet then .reading else .closed
      some { s.setClient client task with
        clientTx := if reply.number.isSome then none else s.clientTx
        replies := if written then s.replies ++ [reply] else s.replies }
    | _ => none
  | .hangUp client =>
    match s.clients client with
    | .reading => some (s.setClient client .closed)
    | _ => none
  | .receive =>
    match s.hand, s.channel with
    | none, item :: channel => some { s with hand := some item, channel := channel }
    | _, _ => none
  | .handleCmd env =>
    match s.hand with
    | some (cmd, number) => s.handleCmd conf env cmd number
    | none => none
  | .apply =>
    match s.hand, s.raft.delivered[s.applied]? with
    | none, some message =>
      some { s with applied := s.applied + 1, storage := s.storage.apply message.2 }
    | _, _ => none

/-- One step of a store, by what it does. -/
inductive Step (conf : Config) (s : KVStore) : StoreAction → KVStore → Prop
  | node (env : Env) (action : Action Operation) (n : Node Operation) (effect : Effect Operation)
      (haction : ∀ value, action ≠ .appendEntry value)
      (hstep : Node.Step conf env s.raft action n effect) :
      Step conf s (.node env action) { s with raft := n }
  /-- The parser panics. -/
  | abort (client : Nat) (text : Text) (htask : s.clients client = .reading)
      (hparse : Operation.parseCommand text = none) :
      Step conf s (.command client text) (s.setClient client .closed)
  | query (client : Nat) (text key : Text) (htask : s.clients client = .reading)
      (hparse : Operation.parseCommand text = some (.get key)) :
      Step conf s (.command client text) (s.setClient client (.getting key))
  | enqueue (client : Nat) (text : Text) (op : Operation) (htask : s.clients client = .reading)
      (hparse : Operation.parseCommand text = some op) (hop : op.isGet = false)
      (hflag : s.raft.isLeader = true) :
      Step conf s (.command client text) (s.setClient client (.queueing op))
  | refuse (client : Nat) (text : Text) (op : Operation) (htask : s.clients client = .reading)
      (hparse : Operation.parseCommand text = some op) (hop : op.isGet = false)
      (hflag : s.raft.isLeader = false) :
      Step conf s (.command client text)
        (s.setClient client (.answering ⟨op, notLeaderReply, none⟩))
  | lookup (client : Nat) (key : Text) (htask : s.clients client = .getting key) :
      Step conf s (.lookup client)
        (s.setClient client (.answering ⟨.get key, getReply s.storage key, none⟩))
  | put (client : Nat) (op : Operation) (htask : s.clients client = .queueing op)
      (hlock : s.clientTx = none) :
      Step conf s (.put client)
        { s.setClient client (.answering ⟨op, okReply, some s.put.length⟩) with
          clientTx := some client
          channel := s.channel ++ [(op, s.put.length)]
          put := s.put ++ [op] }
  | answer (client : Nat) (written : Bool) (reply : Reply) (task : ClientTask)
      (htask : s.clients client = .answering reply)
      (htask' : task = .reading ∨ task = .closed) :
      Step conf s (.answer client written)
        { s.setClient client task with
          clientTx := if reply.number.isSome then none else s.clientTx
          replies := if written then s.replies ++ [reply] else s.replies }
  | hangUp (client : Nat) (htask : s.clients client = .reading) :
      Step conf s (.hangUp client) (s.setClient client .closed)
  | receive (item : Operation × Nat) (channel : List (Operation × Nat)) (hhand : s.hand = none)
      (hchannel : s.channel = item :: channel) :
      Step conf s .receive { s with hand := some item, channel := channel }
  /-- `handle_cmd` has nothing to append. -/
  | drop (env : Env) (cmd : Operation) (number : Nat) (hhand : s.hand = some (cmd, number))
      (hcmd : cmd.isWrite = false) :
      Step conf s (.handleCmd env) { s with hand := none }
  /-- `append_entry` does nothing on a node that does not lead. -/
  | lose (env : Env) (cmd : Operation) (number : Nat) (hhand : s.hand = some (cmd, number))
      (hcmd : cmd.isWrite = true) (hrole : s.raft.state.nodeType ≠ .leader) :
      Step conf s (.handleCmd env)
        { s with raft := { s.raft with clock := env.now }, hand := none }
  | append (env : Env) (cmd : Operation) (number : Nat) (hhand : s.hand = some (cmd, number))
      (hcmd : cmd.isWrite = true) (hrole : s.raft.state.nodeType = .leader) :
      Step conf s (.handleCmd env)
        { s with
          raft := { s.raft with clock := env.now, state := Raft.appendEntry s.raft.state cmd }
          hand := none
          appended := s.appended ++ [⟨cmd, number, s.raft.state.log.length⟩] }
  | apply (message : Nat × LogEntry Operation) (hhand : s.hand = none)
      (hmessage : s.raft.delivered[s.applied]? = some message) :
      Step conf s .apply
        { s with applied := s.applied + 1, storage := s.storage.apply message.2 }

variable {conf : Config} {s s' : KVStore}

theorem step_command_sound {client : Nat} {text : Text} (htask : s.clients client = .reading) :
    Step conf s (.command client text) (s.handleCommand client text) := by
  unfold handleCommand
  split
  · rename_i hparse
    exact .abort client text htask hparse
  · rename_i key hparse
    exact .query client text key htask hparse
  · rename_i op hop hparse
    have hget : op.isGet = false := by
      cases op with
      | get key => exact (hop key rfl).elim
      | _ => rfl
    split
    · rename_i hflag
      exact .enqueue client text op htask hparse hget hflag
    · rename_i hflag
      exact .refuse client text op htask hparse hget (Bool.eq_false_iff.2 hflag)

theorem step_handleCmd_sound {env : Env} {cmd : Operation} {number : Nat}
    (hhand : s.hand = some (cmd, number)) (h : s.handleCmd conf env cmd number = some s') :
    Step conf s (.handleCmd env) s' := by
  unfold handleCmd at h
  split at h
  · cases h
    exact .drop env _ number hhand rfl
  · cases h
    exact .drop env _ number hhand rfl
  · rename_i hget hinvalid
    have hwrite : cmd.isWrite = true := by
      cases cmd with
      | get key => exact (hget key rfl).elim
      | invalid => exact (hinvalid rfl).elim
      | _ => rfl
    obtain ⟨⟨n, effect⟩, hn, rfl⟩ := Option.map_eq_some_iff.1 h
    cases Node.step_sound hn with
    | appendEntry value hlock =>
      by_cases hrole : s.raft.state.nodeType = .leader
      · simp only [if_pos hrole]
        exact .append env cmd number hhand hwrite hrole
      · simp only [if_neg hrole, Raft.appendEntry_of_not_leader hrole]
        exact .lose env cmd number hhand hwrite hrole
    | skip _ _ haction => simp at haction
    | tickDies _ haction => simp at haction

/-- **What a step can do.** -/
theorem step_sound {l : StoreAction} (h : s.step conf l = some s') : Step conf s l s' := by
  unfold step at h
  split at h
  · split at h
    · cases h
    · rename_i haction
      obtain ⟨⟨n, effect⟩, hn, rfl⟩ := Option.map_eq_some_iff.1 h
      exact .node _ _ n effect haction (Node.step_sound hn)
  · split at h
    · rename_i htask
      cases h
      exact step_command_sound htask
    · cases h
  · split at h
    · rename_i key htask
      cases h
      exact .lookup _ key htask
    · cases h
  · split at h
    · rename_i op htask hlock
      cases h
      exact .put _ op htask hlock
    · cases h
  · split at h
    · rename_i client written _ reply htask
      cases h
      exact .answer client written reply _ htask (by split <;> simp)
    · cases h
  · split at h
    · rename_i htask
      cases h
      exact .hangUp _ htask
    · cases h
  · split at h
    · rename_i item channel hhand hchannel
      cases h
      exact .receive item channel hhand hchannel
    · cases h
  · split at h
    · rename_i cmd number hhand
      exact step_handleCmd_sound hhand h
    · cases h
  · split at h
    · rename_i message hhand hmessage
      cases h
      exact .apply message hhand hmessage
    · cases h

/-- **The node of a store after a step.**  It is left alone, or it makes a step of its own,
or `handle_cmd` appends a write. -/
theorem raft_cases {action : StoreAction} (h : s.step conf action = some s') :
    s'.raft = s.raft ∨
      (∃ env action' effect, action = .node env action' ∧
        s.raft.step conf env action' = some (s'.raft, effect)) ∨
      ∃ env cmd number effect, action = .handleCmd env ∧ s.hand = some (cmd, number) ∧
        cmd.isWrite = true ∧ s.raft.step conf env (.appendEntry cmd) = some (s'.raft, effect) := by
  cases action with
  | node env action =>
    unfold step at h
    simp only at h
    split at h
    · cases h
    · obtain ⟨⟨m, effect⟩, hm, rfl⟩ := Option.map_eq_some_iff.1 h
      exact Or.inr (Or.inl ⟨env, action, effect, rfl, hm⟩)
  | handleCmd env =>
    unfold step at h
    simp only at h
    split at h
    · rename_i cmd number hhand
      unfold handleCmd at h
      split at h
      · exact Or.inl (by rw [← Option.some.inj h])
      · exact Or.inl (by rw [← Option.some.inj h])
      · rename_i hget hinvalid
        have hwrite : cmd.isWrite = true := by
          cases cmd with
          | get key => exact (hget key rfl).elim
          | invalid => exact (hinvalid rfl).elim
          | _ => rfl
        obtain ⟨⟨m, effect⟩, hm, rfl⟩ := Option.map_eq_some_iff.1 h
        exact Or.inr (Or.inr ⟨env, cmd, number, effect, rfl, hhand, hwrite, hm⟩)
    · cases h
  | _ => exact Or.inl (by cases step_sound h <;> rfl)

end KVStore

/-- A client's entry is appended without a word to the network. -/
theorem Node.effect_of_appendEntry {T : Type} {conf : Config} {env : Env} {n n' : Node T}
    {value : T} {effect : Effect T} (h : n.step conf env (.appendEntry value) = some (n', effect)) :
    effect = .quiet := by
  unfold step at h
  split at h
  · cases h
  · simp only [Option.ite_none_left_eq_some] at h
    exact (congrArg Prod.snd (Option.some.inj h.2)).symm

/-- A store in an arbitrary environment, from any file its node starts from. -/
def storeSystem (conf : Config) : System KVStore StoreAction where
  Init := fun s => ∃ env persistent, s = KVStore.start conf env persistent
  step := fun s l => s.step conf l

end Quaso
