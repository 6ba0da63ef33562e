import Mathlib.Data.Finset.Card
import Mathlib.Data.List.AList
import Mathlib.Order.Fin.Basic
import Quaso.Lib.Float32

/-!
# The state of a Raft node

The data model of `raft/src/server/log.rs`, `raft/src/server/rpc.rs` and
`raft/src/server/state.rs`: log entries, the three requests with their
responses, the persistent and the volatile half of a node's state, and the
small mutators that the larger operations are built from.

* `NodeTerm` is the `u32` of the source, so raising a term wraps around.
* A `HashMap<String, LogIndex>` is an `IndexMap`, an association list whose
  keys are distinct by construction.
* `LogIndex` is `usize` and a `Nat` here, and so are the clock readings, in
  milliseconds.
* `Instant::now()` and the two random durations are read from an `Env`, which
  carries the ranges the generators draw from.
-/

namespace Quaso

/-! ## Scalars -/

/-- `NodeTerm = u32`. -/
abbrev NodeTerm := Fin (2 ^ 32)

/-- Terms can be written as numerals. -/
instance instNeZeroTerms : NeZero (2 ^ 32) := ⟨by decide⟩

/-- `NodeId = u64`. -/
abbrev NodeId := UInt64

/-- A socket address, as it is written in the configuration. -/
abbrev Addr := String

/-- What one locked section reads from outside: the clock, and the random
durations it would draw. -/
structure Env where
  /-- `Instant::now()`. -/
  now : Nat
  /-- `gen_rand_heartbeat_time()`. -/
  heartbeatTime : Nat
  /-- `gen_rand_election_time()`. -/
  electionTime : Nat
  /-- The heartbeat time is drawn from `5..=10`. -/
  heartbeat_range : 5 ≤ heartbeatTime ∧ heartbeatTime ≤ 10
  /-- The election time is drawn from `150..=300`. -/
  election_range : 150 ≤ electionTime ∧ electionTime ≤ 300

/-- A reading of the clock with the shortest durations. -/
def Env.atTime (now : Nat) : Env := ⟨now, 5, 150, by decide, by decide⟩

/-! ## Configuration -/

/-- The part of `Config` that the consensus layer reads. -/
structure Config where
  /-- `node_id`. -/
  nodeId : NodeId
  /-- `raft.listener_addr`. -/
  listenerAddr : Addr
  /-- `raft.connections`: the addresses of the peers. -/
  connections : List Addr
  deriving DecidableEq, Repr

/-- `Raft::get_quorum_length`, with its detour through `f32`. -/
def getQuorumLength (conf : Config) : Nat :=
  let conns := Float32.roundF32 (conf.connections.length + 1)
  Float32.satI32 (Float32.roundF32 (conns / 2 + 1))

/-- Up to `2 ^ 24` nodes the float arithmetic is exact: a quorum is a strict
majority. -/
theorem getQuorumLength_of_lt {conf : Config} (h : conf.connections.length + 1 < 2 ^ 24) :
    getQuorumLength conf = (conf.connections.length + 1) / 2 + 1 := by
  simp only [getQuorumLength]
  rw [Float32.roundF32_of_lt h, Float32.roundF32_of_lt (by omega), Float32.satI32_of_lt (by omega)]

/-- With a peer, the node's own vote is never a quorum. -/
theorem two_le_getQuorumLength {conf : Config} (h : conf.connections ≠ []) :
    2 ≤ getQuorumLength conf := by
  have hpos := List.length_pos_iff.2 h
  have hconns := Float32.two_le_roundF32 (show 2 ≤ conf.connections.length + 1 by omega)
  have hhalf := Float32.two_le_roundF32
    (show 2 ≤ Float32.roundF32 (conf.connections.length + 1) / 2 + 1 by omega)
  exact le_min hhalf (by decide)

/-! ## Log entries and messages -/

/-- `LogEntry<T>`. -/
structure LogEntry (T : Type) where
  /-- The command. -/
  value : T
  /-- The term of the leader that appended it. -/
  term : NodeTerm
  deriving DecidableEq, Repr

/-- `PingRequest`. -/
structure PingRequest where
  term : NodeTerm
  nodeId : NodeId
  deriving DecidableEq, Repr

/-- `PingResponse`. -/
structure PingResponse where
  term : NodeTerm
  nodeId : NodeId
  deriving DecidableEq, Repr

/-- `ElectionVoteRequest`. -/
structure ElectionVoteRequest where
  term : NodeTerm
  candidateId : NodeId
  lastLogIndex : Nat
  lastLogTerm : NodeTerm
  deriving DecidableEq, Repr

/-- `ElectionVoteResponse`. -/
structure ElectionVoteResponse where
  nodeId : NodeId
  term : NodeTerm
  voteGranted : Bool
  deriving DecidableEq, Repr

/-- `AppendEntriesRequest<T>`. -/
structure AppendEntriesRequest (T : Type) where
  term : NodeTerm
  leaderId : NodeId
  prevLogIndex : Nat
  prevLogTerm : NodeTerm
  entries : List (LogEntry T)
  leaderCommit : Nat
  deriving DecidableEq, Repr

/-- `AppendEntriesResponse`. -/
structure AppendEntriesResponse where
  nodeId : NodeId
  term : NodeTerm
  success : Bool
  deriving DecidableEq, Repr

/-- `RequestPattern<T>`. -/
inductive RequestPattern (T : Type) where
  /-- `PingRPC`. -/
  | ping (req : PingRequest)
  /-- `AppendEntriesRPC`. -/
  | appendEntries (req : AppendEntriesRequest T)
  /-- `RequestVoteRPC`. -/
  | requestVote (req : ElectionVoteRequest)
  deriving DecidableEq, Repr

/-- The response a handler writes back on the connection. -/
inductive Response where
  | ping (resp : PingResponse)
  | appendEntries (resp : AppendEntriesResponse)
  | requestVote (resp : ElectionVoteResponse)
  deriving DecidableEq, Repr

/-! ## Index maps -/

/-- `HashMap<String, LogIndex>`. -/
abbrev IndexMap := AList fun _ : Addr => Nat

/-- The values of an index map, in the order its entries are stored. -/
def IndexMap.values (m : IndexMap) : List Nat := m.entries.map Sigma.snd

/-- Insert the same index for every address of a list. -/
def IndexMap.insertAll (m : IndexMap) (addrs : List Addr) (index : Nat) : IndexMap :=
  addrs.foldl (fun m addr => m.insert addr index) m

@[simp] theorem IndexMap.insertAll_nil (m : IndexMap) (index : Nat) :
    m.insertAll [] index = m := rfl

@[simp] theorem IndexMap.insertAll_cons (m : IndexMap) (a : Addr) (addrs : List Addr)
    (index : Nat) :
    m.insertAll (a :: addrs) index = IndexMap.insertAll (m.insert a index) addrs index := rfl

/-- After `insertAll` the listed addresses have the index and no other key has
changed. -/
theorem IndexMap.lookup_insertAll (m : IndexMap) (addrs : List Addr) (index : Nat)
    (a : Addr) :
    (m.insertAll addrs index).lookup a = if a ∈ addrs then some index else m.lookup a := by
  induction addrs generalizing m with
  | nil => simp
  | cons b addrs ih =>
    rw [insertAll_cons, ih]
    by_cases hmem : a ∈ addrs
    · simp [hmem]
    · by_cases hab : a = b
      · subst hab
        simp [AList.lookup_insert]
      · simp [hmem, hab, AList.lookup_insert_ne]

/-- An index occurs among the values at most as often as there are keys that may have
it. -/
theorem IndexMap.count_values_le {m : IndexMap} {index : Nat} {addrs : Finset Addr}
    (h : ∀ a, m.lookup a = some index → a ∈ addrs) : m.values.count index ≤ addrs.card := by
  have hcount : m.values.count index
      = ((m.entries.filter fun entry => entry.2 == index).map Sigma.fst).length := by
    rw [IndexMap.values, List.count_eq_countP, List.countP_map, List.countP_eq_length_filter,
      List.length_map]
    rfl
  have hnodup : ((m.entries.filter fun entry => entry.2 == index).map Sigma.fst).Nodup :=
    m.nodupKeys.sublist List.filter_sublist
  rw [hcount, ← List.toFinset_card_of_nodup hnodup]
  refine Finset.card_le_card fun a ha => ?_
  obtain ⟨entry, hentry, rfl⟩ := List.mem_map.1 (List.mem_toFinset.1 ha)
  obtain ⟨hmem, heq⟩ := List.mem_filter.1 hentry
  obtain rfl : entry.2 = index := by simpa using heq
  exact h _ (AList.mem_lookup_iff.2 hmem)

/-! ## Node state -/

/-- `NodeRole`. -/
inductive NodeRole where
  | follower
  | candidate
  | leader
  deriving DecidableEq, Repr

/-- `PersistentState<T>`. -/
structure PersistentState (T : Type) where
  nodeTerm : NodeTerm
  votedFor : Option NodeId
  log : List (LogEntry T)

/-- `VolatileState`. -/
structure VolatileState where
  nodeType : NodeRole
  votesRecieved : List NodeId
  commitedIndex : Nat
  nextIndex : IndexMap
  matchIndex : IndexMap
  heartbeatTimeout : Nat
  electionTimeout : Nat
  persistTimeout : Nat

/-- `State<T>`: what a node's lock protects. -/
structure State (T : Type) extends PersistentState T, VolatileState where
  recievedLeaderHeartbeat : Bool

variable {T : Type}

/-- The state `PersistentState::init_state` creates when there is no file. -/
def PersistentState.fresh : PersistentState T := ⟨0, none, []⟩

/-- `VolatileState::init_state`. -/
def VolatileState.initState (env : Env) (conns : List Addr) : VolatileState where
  nodeType := .follower
  votesRecieved := []
  commitedIndex := 0
  nextIndex := IndexMap.insertAll ∅ conns 0
  matchIndex := IndexMap.insertAll ∅ conns 0
  heartbeatTimeout := env.now + env.heartbeatTime
  electionTimeout := env.now + env.electionTime
  persistTimeout := env.now + 5000

/-- The state `Raft::new_from_config` builds around a persistent state. -/
def State.new (env : Env) (conns : List Addr) (persistent : PersistentState T) : State T where
  toPersistentState := persistent
  toVolatileState := VolatileState.initState env conns
  recievedLeaderHeartbeat := false

/-- The record `PersistentState::persist` writes: the committed prefix of the
log.  `none` when the slice is out of range, which panics. -/
def PersistentState.persist (self : PersistentState T) (commitIndex : Nat) :
    Option (PersistentState T) :=
  if 0 < commitIndex then
    if commitIndex ≤ self.log.length then
      some { self with log := self.log.take commitIndex }
    else none
  else some { self with log := [] }

namespace State

/-- `VolatileState::reset_heartbeat_timeout`. -/
def resetHeartbeatTimeout (s : State T) (env : Env) : State T :=
  { s with heartbeatTimeout := env.now + env.heartbeatTime }

/-- `VolatileState::reset_election_timeout`. -/
def resetElectionTimeout (s : State T) (env : Env) : State T :=
  { s with electionTimeout := env.now + env.electionTime }

/-- `State::transition_to_term`. -/
def transitionToTerm (s : State T) (nodeType : NodeRole) (toTerm : NodeTerm) : State T :=
  { s with nodeType := nodeType, nodeTerm := toTerm }

/-- `State::transition`; the addition wraps, as it does in the release build. -/
def transition (s : State T) (nodeType : NodeRole) (termIncrease : NodeTerm) : State T :=
  { s with nodeType := nodeType, nodeTerm := s.nodeTerm + termIncrease }

end State

/-! ## The delivery loop -/

/-- The loop `for i in from..to` that sends `log[i]` on `deliver_tx`, over the
list of its indices.  The Boolean tells whether it ran to its end: an index
outside the log panics, with the entries before it already sent. -/
def deliverEach (log : List (LogEntry T)) : List Nat → List (Nat × LogEntry T) × Bool
  | [] => ([], true)
  | i :: is =>
    match log[i]? with
    | none => ([], false)
    | some entry =>
      let (sent, finished) := deliverEach log is
      ((i, entry) :: sent, finished)

/-- The delivery loop shared by `append_entries` and
`maybe_commit_log_entries`. -/
def deliverRange (log : List (LogEntry T)) (start stop : Nat) :
    List (Nat × LogEntry T) × Bool :=
  deliverEach log (List.range' start (stop - start))

/-- Whatever the loop sends is the log's entry at that index. -/
theorem deliverEach_sound {log : List (LogEntry T)} {is : List Nat}
    {p : Nat × LogEntry T} (h : p ∈ (deliverEach log is).1) :
    p.1 ∈ is ∧ log[p.1]? = some p.2 := by
  induction is with
  | nil => simp [deliverEach] at h
  | cons i is ih =>
    unfold deliverEach at h
    split at h
    · simp at h
    · rename_i entry hentry
      rcases List.mem_cons.1 h with rfl | h
      · exact ⟨List.mem_cons_self, hentry⟩
      · exact ⟨List.mem_cons_of_mem _ (ih h).1, (ih h).2⟩

/-- The loop runs to its end exactly when every index is inside the log. -/
theorem deliverEach_finished_iff {log : List (LogEntry T)} {is : List Nat} :
    (deliverEach log is).2 = true ↔ ∀ i ∈ is, i < log.length := by
  induction is with
  | nil => simp [deliverEach]
  | cons i is ih =>
    rw [deliverEach]
    cases hentry : log[i]? with
    | none => simp [List.getElem?_eq_none_iff.1 hentry]
    | some entry => simp [ih, (List.getElem?_eq_some_iff.1 hentry).1]

theorem deliverRange_sound {log : List (LogEntry T)} {start stop : Nat}
    {p : Nat × LogEntry T} (h : p ∈ (deliverRange log start stop).1) :
    start ≤ p.1 ∧ p.1 < stop ∧ log[p.1]? = some p.2 := by
  obtain ⟨hmem, hget⟩ := deliverEach_sound h
  rw [List.mem_range'_1] at hmem
  exact ⟨hmem.1, by omega, hget⟩

/-- The loop finishes exactly when its end is inside the log. -/
theorem deliverRange_finished_iff {log : List (LogEntry T)} {start stop : Nat}
    (hlt : start < stop) : (deliverRange log start stop).2 = true ↔ stop ≤ log.length := by
  rw [deliverRange, deliverEach_finished_iff]
  simp only [List.mem_range'_1]
  constructor
  · intro h
    have := h (stop - 1) (by omega)
    omega
  · intro hle i hi
    omega

/-- The entries `log[start..stop]`, each with its index. -/
def entriesBetween (log : List (LogEntry T)) (start stop : Nat) : List (Nat × LogEntry T) :=
  (List.range' start (stop - start)).zip ((log.take stop).drop start)

/-- A loop over consecutive indices of the log sends its entries in order. -/
theorem deliverEach_range' {log : List (LogEntry T)} {start count : Nat}
    (hle : start + count ≤ log.length) :
    deliverEach log (List.range' start count)
      = (entriesBetween log start (start + count), true) := by
  unfold entriesBetween
  rw [Nat.add_sub_cancel_left]
  induction count generalizing start with
  | zero => simp [deliverEach]
  | succ count ih =>
    have hlt : start < log.length := by omega
    have hstop : start < (log.take (start + (count + 1))).length := by
      rw [List.length_take]
      omega
    have hle' : start + 1 + count ≤ log.length := by omega
    have ih := ih hle'
    rw [show start + 1 + count = start + (count + 1) by omega] at ih
    rw [List.range'_succ, deliverEach, List.getElem?_eq_getElem hlt,
      List.drop_eq_getElem_cons hstop]
    simp only [ih, List.getElem_take, List.zip_cons_cons]

/-- A loop that ends inside the log sends exactly the entries in between. -/
theorem deliverRange_eq {log : List (LogEntry T)} {start stop : Nat} (hlt : start < stop)
    (hle : stop ≤ log.length) :
    deliverRange log start stop = (entriesBetween log start stop, true) := by
  rw [deliverRange, deliverEach_range' (by omega), show start + (stop - start) = stop by omega]

/-- The entries are numbered consecutively. -/
theorem map_fst_entriesBetween {log : List (LogEntry T)} {start stop : Nat}
    (hle : stop ≤ log.length) :
    (entriesBetween log start stop).map Prod.fst = List.range' start (stop - start) := by
  rw [entriesBetween, List.map_fst_zip]
  rw [List.length_range', List.length_drop, List.length_take]
  omega

/-- The entries are the log's. -/
theorem map_snd_entriesBetween {log : List (LogEntry T)} {start stop : Nat}
    (hle : stop ≤ log.length) :
    (entriesBetween log start stop).map Prod.snd = (log.take stop).drop start := by
  rw [entriesBetween, List.map_snd_zip]
  rw [List.length_range', List.length_drop, List.length_take]
  omega

/-- The loop sends nothing exactly when it starts behind the end of the log. -/
theorem deliverRange_eq_nil_iff {log : List (LogEntry T)} {start stop : Nat}
    (hlt : start < stop) : (deliverRange log start stop).1 = [] ↔ log.length ≤ start := by
  obtain ⟨count, hcount⟩ : ∃ count, stop - start = count + 1 := ⟨stop - start - 1, by omega⟩
  rw [deliverRange, hcount, List.range'_succ, deliverEach]
  cases hentry : log[start]? with
  | none => simp [List.getElem?_eq_none_iff.1 hentry]
  | some entry => simp [(List.getElem?_eq_some_iff.1 hentry).1]

end Quaso
