import Quaso.Raft.Rpc
import Quaso.Raft.Operations

/-!
# One node as a state machine

A running node is two tasks over one locked `State`: the tick task of
`raft/src/server/state.rs` and the listener task of `Server::start_listener`.
This file cuts both into the sections that run without giving up the lock or
waiting for the network, and makes each section one step.

* `Tick` — where the tick task stands.  Between two operations it is `idle`; the
  loops of `maybe_send_heartbeat` and `handle_candidate_election` hold the lock
  while they wait for a peer; and there are five places where the task has
  dropped the lock in the middle of an operation.
* `Listener` — where the listener task stands.
* `Node.step` — what one `Action` does, `none` when the action cannot happen
  there.  The operations of the tick task may be started in any order; the loop
  of `tick` is one such order.
* `Node.Step` — the same steps as a relation, one constructor for each thing
  that can happen; `Node.step_sound` derives it from `Node.step`.

A panic ends the task it happens in and leaves the state as it is.
-/

namespace Quaso

/-! ## Where the two tasks stand -/

/-- Where the tick task stands. -/
inductive Tick (T : Type) where
  /-- Between two operations. -/
  | idle
  /-- `maybe_send_heartbeat`, at the head of its loop, holding the lock. -/
  | heartbeat (conns : List Addr)
  /-- `maybe_send_heartbeat`, waiting for `conn` on connection `cid`, holding the
  lock; `logSize` is the loop's local variable. -/
  | heartbeatWait (conn : Addr) (logSize : Nat) (cid : Nat) (conns : List Addr)
  /-- `maybe_transition_candidate` has dropped the lock after its check. -/
  | becoming
  /-- `transition_wrapper(Candidate, 1)` is done and the election not begun. -/
  | candidate
  /-- `handle_candidate_election`, at the head of its loop, holding the lock. -/
  | election (req : ElectionVoteRequest) (conns : List Addr)
  /-- `handle_candidate_election`, waiting for `conn` on connection `cid`,
  holding the lock. -/
  | electionWait (req : ElectionVoteRequest) (conn : Addr) (cid : Nat) (conns : List Addr)
  /-- The election has timed out: before `transition_wrapper(Candidate, 1)`. -/
  | timedOut
  /-- A peer has denied: before `transition_to_term(Follower, term)`. -/
  | denied (term : NodeTerm)
  /-- The votes are counted: before `transition_wrapper(Leader, 0)`.  `log` is
  the log at the count, of which the code keeps the length in `next_index`. -/
  | won (req : ElectionVoteRequest) (log : List (LogEntry T))
  /-- The task has panicked. -/
  | dead

/-- Where the listener task stands. -/
inductive Listener (T : Type) where
  /-- Waiting for a connection. -/
  | accepting
  /-- A request has been read and its handler waits for the state lock. -/
  | handling (cid : Nat) (req : RequestPattern T)
  /-- The task has panicked. -/
  | dead

/-- A running node. -/
structure Node (T : Type) where
  /-- What the lock protects. -/
  state : State T
  /-- The shared flag `is_leader`. -/
  isLeader : Bool
  tick : Tick T
  listener : Listener T
  /-- The latest reading of the clock. -/
  clock : Nat
  /-- The entries sent on `deliver_tx` so far, each with the index it was read at. -/
  delivered : List (Nat × LogEntry T)
  /-- The votes cast so far: granted to a candidate, or recorded for itself at the
  start of an election. -/
  cast : List (NodeTerm × NodeId)

variable {T : Type}

/-- The places of the tick task that hold the state lock. -/
def Tick.holdsLock : Tick T → Bool
  | .heartbeat _ | .heartbeatWait .. | .election .. | .electionWait .. => true
  | _ => false

/-- Whether the tick task is between two operations. -/
def Tick.isIdle : Tick T → Bool
  | .idle => true
  | _ => false

theorem Tick.eq_idle {tick : Tick T} (h : tick.isIdle = true) : tick = .idle := by
  cases tick <;> first | rfl | exact absurd h (by simp [Tick.isIdle])

/-- Whether the tick task is between a denial and the installation of its term. -/
def Tick.isDenied : Tick T → Bool
  | .denied _ => true
  | _ => false

/-- The connection on which the tick task waits for a response. -/
def Tick.waitsOn : Tick T → Option Nat
  | .heartbeatWait _ _ cid _ | .electionWait _ _ cid _ => some cid
  | _ => none

/-- The address whose response the tick task waits for. -/
def Tick.waitsFor : Tick T → Option Addr
  | .heartbeatWait conn _ _ _ | .electionWait _ conn _ _ => some conn
  | _ => none

/-- The term for which the tick task collects votes, or has collected them. -/
def Tick.campaign : Tick T → Option NodeTerm
  | .election req _ | .electionWait req _ _ _ | .won req _ => some req.term
  | _ => none

/-- The connection whose request a handler has to answer. -/
def Listener.owes : Listener T → Option Nat
  | .handling cid _ => some cid
  | _ => none

theorem Listener.owes_eq_some {listener : Listener T} {cid : Nat} :
    listener.owes = some cid ↔ ∃ req, listener = .handling cid req := by
  cases listener <;> simp [owes]

/-- What `Client::send` gives back to a loop that waits. -/
inductive Answer (R : Type) where
  /-- A response that decodes. -/
  | reply (resp : R)
  /-- Bytes that do not decode, such as none at all. -/
  | undecodable
  /-- `None`: the connection or the read failed. -/
  | none
  /-- Writing the request failed, on which `send` panics. -/
  | writeFailed

/-- What a node does in one step. -/
inductive Action (T : Type) where
  /-- The tick task calls `try_persist_state`. -/
  | tryPersist
  /-- The tick task calls `maybe_send_heartbeat`. -/
  | sendHeartbeat
  /-- The tick task calls `maybe_commit_log_entries`. -/
  | commit (order : List (Nat × Nat))
  /-- The tick task calls `maybe_transition_candidate`. -/
  | transitionCandidate
  /-- The tick task clears `recieved_leader_heartbeat`. -/
  | clearFlag
  /-- The tick task goes on with the operation it is in; `cid` names the
  connection it opens, if it opens one. -/
  | advance (cid : Nat)
  /-- `Client::send` returns to the heartbeat loop. -/
  | appendAnswer (answer : Answer AppendEntriesResponse)
  /-- `Client::send` returns to the election loop. -/
  | voteAnswer (answer : Answer ElectionVoteResponse)
  /-- The key-value store calls `append_entry`. -/
  | appendEntry (value : T)
  /-- The listener accepts a connection and reads its request. -/
  | accept (cid : Nat) (req : RequestPattern T)
  /-- The handler runs; `written` tells whether the response could be written,
  which the listener unwraps. -/
  | handle (written : Bool)
  /-- The listener panics on bytes that are no request. -/
  | abortListener

/-- What a step shows to the network. -/
inductive Effect (T : Type) where
  | quiet
  /-- A connection is opened and a request written. -/
  | send (dst : Addr) (req : RequestPattern T)
  /-- A response is written on connection `cid`. -/
  | respond (cid : Nat) (resp : Response)

namespace Node

/-- A node that has just been started, without a file to restore. -/
def start (conf : Config) (env : Env) : Node T where
  state := State.new env conf.connections PersistentState.fresh
  isLeader := false
  tick := .idle
  listener := .accepting
  clock := env.now
  delivered := []
  cast := []

/-! ## The sections of the tick task -/

/-- `Raft::try_persist_state`. -/
def tryPersist (env : Env) (n : Node T) : Node T :=
  if n.state.persistTimeout < env.now then
    match n.state.toPersistentState.persist n.state.commitedIndex with
    | none => { n with tick := .dead }
    | some _ => { n with state := { n.state with persistTimeout := env.now + 5000 } }
  else n

/-- The head of `maybe_send_heartbeat`. -/
def sendHeartbeat (conf : Config) (env : Env) (n : Node T) : Node T :=
  if n.state.nodeType ≠ .leader then n
  else if env.now < n.state.heartbeatTimeout then n
  else { n with tick := .heartbeat conf.connections }

/-- `Raft::maybe_commit_log_entries` as a step of the node. -/
def commit (conf : Config) (order : List (Nat × Nat)) (n : Node T) : Node T :=
  let result := Raft.maybeCommitLogEntries conf order n.state
  { n with
    state := result.state
    delivered := n.delivered ++ result.sent
    tick := if result.returned then .idle else .dead }

/-- The head of `maybe_transition_candidate`. -/
def transitionCandidate (env : Env) (n : Node T) : Node T :=
  if n.state.nodeType = .leader then n
  else if n.state.electionTimeout < env.now ∧ n.state.recievedLeaderHeartbeat = false then
    { n with tick := .becoming }
  else n

/-- `Raft::transition_wrapper`. -/
def transitionWrapper (nodeType : NodeRole) (termIncrease : NodeTerm) (n : Node T) : Node T :=
  { n with
    isLeader := decide (nodeType = .leader)
    state := n.state.transition nodeType termIncrease }

/-- `Raft::transition_to_term`. -/
def transitionToTerm (nodeType : NodeRole) (toTerm : NodeTerm) (n : Node T) : Node T :=
  { n with
    isLeader := decide (nodeType = .leader)
    state := n.state.transitionToTerm nodeType toTerm }

/-- The head of `handle_candidate_election`. -/
def startElection (conf : Config) (env : Env) (n : Node T) : Node T :=
  let state := Raft.startElection conf env n.state
  { n with
    state := state
    cast := n.cast ++ [(state.nodeTerm, conf.nodeId)]
    tick := .election (Raft.voteRequest conf state) conf.connections }

/-- The tick task goes on from where it stands. -/
def advance (conf : Config) (env : Env) (cid : Nat) (n : Node T) : Option (Node T × Effect T) :=
  match n.tick with
  | .heartbeat [] =>
    some ({ n with state := Raft.heartbeatEnd conf env n.state, tick := .idle }, .quiet)
  | .heartbeat (conn :: conns) =>
    match Raft.heartbeatRequest conf n.state conn with
    | none => some ({ n with tick := .dead }, .quiet)
    | some req =>
      some ({ n with tick := .heartbeatWait conn n.state.log.length cid conns },
        .send conn (.appendEntries req))
  | .becoming => some ({ n.transitionWrapper .candidate 1 with tick := .candidate }, .quiet)
  | .candidate => some (n.startElection conf env, .quiet)
  | .election _ [] => some ({ n with tick := .idle }, .quiet)
  | .election req (conn :: conns) =>
    if n.state.electionTimeout < env.now then some ({ n with tick := .timedOut }, .quiet)
    else some ({ n with tick := .electionWait req conn cid conns }, .send conn (.requestVote req))
  | .timedOut => some ({ n.transitionWrapper .candidate 1 with tick := .idle }, .quiet)
  | .denied term => some ({ n.transitionToTerm .follower term with tick := .idle }, .quiet)
  | .won _ _ => some ({ n.transitionWrapper .leader 0 with tick := .idle }, .quiet)
  | .idle | .heartbeatWait .. | .electionWait .. | .dead => none

/-- `Client::send` returns to the heartbeat loop; a response that does not
decode is unwrapped. -/
def appendAnswer (answer : Answer AppendEntriesResponse) (n : Node T) : Option (Node T) :=
  match n.tick with
  | .heartbeatWait conn logSize _ conns =>
    match answer with
    | .reply resp =>
      some { n with
        state := Raft.heartbeatResponse n.state conn logSize resp
        tick := .heartbeat conns }
    | .none => some { n with tick := .heartbeat conns }
    | .undecodable | .writeFailed => some { n with tick := .dead }
  | _ => none

/-- `Client::send` returns to the election loop; a response that does not decode
is skipped. -/
def voteAnswer (conf : Config) (answer : Answer ElectionVoteResponse) (n : Node T) :
    Option (Node T) :=
  match n.tick with
  | .electionWait req _ _ conns =>
    match answer with
    | .reply resp =>
      match Raft.countVote conf n.state resp with
      | .next state => some { n with state := state, tick := .election req conns }
      | .denied state term => some { n with state := state, tick := .denied term }
      | .won state => some { n with state := state, tick := .won req state.log }
    | .undecodable | .none => some { n with tick := .election req conns }
    | .writeFailed => some { n with tick := .dead }
  | _ => none

/-! ## The sections of the listener task -/

/-- The end of the listener's loop body: the response is written, or the
failure to write it is unwrapped. -/
def respond (cid : Nat) (written : Bool) (resp : Response) (n : Node T) : Node T × Effect T :=
  if written then ({ n with listener := .accepting }, .respond cid resp)
  else ({ n with listener := .dead }, .quiet)

/-- The listener runs the handler of the request it has read. -/
def handle (conf : Config) (env : Env) (cid : Nat) (req : RequestPattern T) (written : Bool)
    (n : Node T) : Node T × Effect T :=
  match req with
  | .ping req => n.respond cid written (.ping (Server.pingNode conf.nodeId n.state req))
  | .requestVote req =>
    let (state, resp) := Server.requestVote conf.nodeId env n.state req
    let cast := if resp.voteGranted then n.cast ++ [(req.term, req.candidateId)] else n.cast
    { n with state := state, cast := cast }.respond cid written (.requestVote resp)
  | .appendEntries req =>
    let result := Server.appendEntries conf.nodeId env n.state req
    let n := { n with state := result.state, delivered := n.delivered ++ result.sent }
    match result.response with
    | some resp => n.respond cid written (.appendEntries resp)
    | none => ({ n with listener := .dead }, .quiet)

/-! ## Steps -/

/-- Run an operation that the tick task starts from `idle`. -/
def whenIdle (n : Node T) (next : Node T) : Option (Node T × Effect T) :=
  if n.tick.isIdle then some (next, .quiet) else none

/-- One step of a node, at a reading of the clock that is not before the last. -/
def step (conf : Config) (env : Env) (n : Node T) (action : Action T) :
    Option (Node T × Effect T) :=
  if env.now < n.clock then none
  else
    let n := { n with clock := env.now }
    match action with
    | .tryPersist => n.whenIdle (n.tryPersist env)
    | .sendHeartbeat => n.whenIdle (n.sendHeartbeat conf env)
    | .commit order =>
      if order.Perm (Raft.frequencyPairs n.state) then n.whenIdle (n.commit conf order) else none
    | .transitionCandidate => n.whenIdle (n.transitionCandidate env)
    | .clearFlag =>
      n.whenIdle { n with state := { n.state with recievedLeaderHeartbeat := false } }
    | .advance cid => n.advance conf env cid
    | .appendAnswer answer => (n.appendAnswer answer).map fun n => (n, .quiet)
    | .voteAnswer answer => (n.voteAnswer conf answer).map fun n => (n, .quiet)
    | .appendEntry value =>
      if n.tick.holdsLock then none
      else some ({ n with state := Raft.appendEntry n.state value }, .quiet)
    | .accept cid req =>
      match n.listener with
      | .accepting => some ({ n with listener := .handling cid req }, .quiet)
      | _ => none
    | .handle written =>
      if n.tick.holdsLock then none
      else
        match n.listener with
        | .handling cid req => some (n.handle conf env cid req written)
        | _ => none
    | .abortListener => some ({ n with listener := .dead }, .quiet)

end Node
end Quaso
