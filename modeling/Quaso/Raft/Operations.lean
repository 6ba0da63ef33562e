import Quaso.Raft.State

/-!
# The operations of the tick task and of the client

The pieces of `impl Raft` in `raft/src/server/state.rs` that run under the state
lock: `append_entry`, the body of the loop of `maybe_send_heartbeat`, the whole
of `maybe_commit_log_entries`, and the body of the loop of
`handle_candidate_election`.  The loops themselves wait for the network between
two iterations; they are put together in `Quaso.Raft.Node`.

* `heartbeatRequest` — the request built for one peer, `none` when an index is
  out of range; `heartbeatRequest_eq_some` lists the shapes it can have.
* `maybeCommitLogEntries` — the commit rule, over an arbitrary iteration order
  of the frequency map; `commitCandidate_count` says what a commit point is.
* `countVote` — one decoded vote response.
-/

namespace Quaso
namespace Raft

variable {T : Type}

/-! ## Client writes -/

/-- `Raft::append_entry`. -/
def appendEntry (state : State T) (value : T) : State T :=
  if state.nodeType ≠ .leader then state
  else { state with log := state.log ++ [⟨value, state.nodeTerm⟩] }

/-! ## Heartbeats -/

/-- The request that the loop of `maybe_send_heartbeat` builds for one peer;
`none` when the slicing panics. -/
def heartbeatRequest (conf : Config) (state : State T) (conn : Addr) :
    Option (AppendEntriesRequest T) :=
  let request (prevLogIndex : Nat) (prevLogTerm : NodeTerm) (entries : List (LogEntry T)) :
      AppendEntriesRequest T :=
    { term := state.nodeTerm
      leaderId := conf.nodeId
      prevLogIndex, prevLogTerm, entries
      leaderCommit := state.commitedIndex }
  if 0 < state.log.length then
    match state.nextIndex.lookup conn with
    | none => some (request 0 0 [])
    | some nextIndex =>
      if 2 ≤ nextIndex then
        let prevLogIndex := nextIndex - 1
        let logIndex := prevLogIndex - 1
        match state.log[logIndex]? with
        | none => none
        | some entry => some (request prevLogIndex entry.term (state.log.drop prevLogIndex))
      else if nextIndex = 1 then some (request 0 0 state.log)
      else some (request 0 0 [])
  else some (request 0 0 [])

/-- What the loop of `maybe_send_heartbeat` records for a decoded response;
`logSize` is the length of the log when the request was built. -/
def heartbeatResponse (state : State T) (conn : Addr) (logSize : Nat)
    (resp : AppendEntriesResponse) : State T :=
  if resp.success then
    let state := { state with nextIndex := state.nextIndex.insert conn (logSize + 1) }
    if 0 < logSize then { state with matchIndex := state.matchIndex.insert conn logSize }
    else state
  else
    match state.nextIndex.lookup conn with
    | none => state
    | some nextIndex =>
      if 1 < nextIndex then
        { state with nextIndex := state.nextIndex.insert conn (nextIndex - 1) }
      else state

/-- What `maybe_send_heartbeat` does after its loop: the node's own entries in
the two maps, and the next timeout. -/
def heartbeatEnd (conf : Config) (env : Env) (state : State T) : State T :=
  let logSize := state.log.length
  let state := { state with nextIndex := state.nextIndex.insert conf.listenerAddr (logSize + 1) }
  let state := { state with matchIndex := state.matchIndex.insert conf.listenerAddr logSize }
  state.resetHeartbeatTimeout env

/-- The request announces the prefix of some initial part `base` of the log and
carries the rest of it.  The part is the whole log, except for a peer without a
usable next index. -/
theorem heartbeatRequest_eq_some {conf : Config} {state : State T} {conn : Addr}
    {req : AppendEntriesRequest T} (h : heartbeatRequest conf state conn = some req) :
    req.term = state.nodeTerm ∧ req.leaderId = conf.nodeId ∧
      req.leaderCommit = state.commitedIndex ∧
      ∃ base, (base = state.log ∨ base = [] ∧ ∀ next, state.nextIndex.lookup conn = some next →
          next = 0) ∧
        req.prevLogIndex ≤ base.length ∧ req.entries = base.drop req.prevLogIndex ∧
        (0 < req.prevLogIndex → ∃ entry, base[req.prevLogIndex - 1]? = some entry ∧
          entry.term = req.prevLogTerm) := by
  unfold heartbeatRequest at h
  simp only at h
  split at h
  · rename_i hpos
    split at h
    · rename_i hnone
      obtain rfl := Option.some.inj h
      exact ⟨rfl, rfl, rfl, [], Or.inr ⟨rfl, by simp [hnone]⟩, by simp⟩
    · rename_i next hnext
      split at h
      · rename_i htwo
        split at h
        · cases h
        · rename_i entry hentry
          obtain rfl := Option.some.inj h
          have hlt := (List.getElem?_eq_some_iff.1 hentry).1
          exact ⟨rfl, rfl, rfl, state.log, Or.inl rfl, by simp only; omega, rfl,
            fun _ => ⟨entry, hentry, rfl⟩⟩
      · split at h
        · obtain rfl := Option.some.inj h
          exact ⟨rfl, rfl, rfl, state.log, Or.inl rfl, by simp⟩
        · rename_i htwo hone
          obtain rfl := Option.some.inj h
          have hzero : next = 0 := by omega
          exact ⟨rfl, rfl, rfl, [], Or.inr ⟨rfl, by simp [hnext, hzero]⟩, by simp⟩
  · rename_i hpos
    obtain rfl := Option.some.inj h
    have hnil : state.log = [] := List.eq_nil_of_length_eq_zero (by omega)
    exact ⟨rfl, rfl, rfl, state.log, Or.inl rfl, by simp [hnil]⟩

/-- The request at a next index with entries before it. -/
theorem heartbeatRequest_of_succ (conf : Config) {state : State T} {conn : Addr} {prev : Nat}
    {entry : LogEntry T} (hnext : state.nextIndex.lookup conn = some (prev + 2))
    (hentry : state.log[prev]? = some entry) :
    heartbeatRequest conf state conn = some
      { term := state.nodeTerm
        leaderId := conf.nodeId
        prevLogIndex := prev + 1
        prevLogTerm := entry.term
        entries := state.log.drop (prev + 1)
        leaderCommit := state.commitedIndex } := by
  have hlt := (List.getElem?_eq_some_iff.1 hentry).1
  simp [heartbeatRequest, hnext, hentry, show 0 < state.log.length by omega]

/-- The request at the first next index. -/
theorem heartbeatRequest_of_one (conf : Config) {state : State T} {conn : Addr}
    (hnext : state.nextIndex.lookup conn = some 1) :
    heartbeatRequest conf state conn = some
      { term := state.nodeTerm
        leaderId := conf.nodeId
        prevLogIndex := 0
        prevLogTerm := 0
        entries := state.log
        leaderCommit := state.commitedIndex } := by
  by_cases hpos : 0 < state.log.length
  · simp [heartbeatRequest, hnext, hpos]
  · have hnil : state.log = [] := List.eq_nil_of_length_eq_zero (by omega)
    simp [heartbeatRequest, hnil]

section Frame

variable (conf : Config) (env : Env) (state : State T) (conn : Addr) (logSize : Nat)
  (resp : AppendEntriesResponse)

/-- A response only moves the two maps. -/
theorem heartbeatResponse_eq : ∃ nextIndex matchIndex,
    heartbeatResponse state conn logSize resp =
      { state with nextIndex := nextIndex, matchIndex := matchIndex } := by
  unfold heartbeatResponse
  split
  · split <;> exact ⟨_, _, rfl⟩
  · split
    · exact ⟨_, _, rfl⟩
    · split <;> exact ⟨_, _, rfl⟩

@[simp] theorem heartbeatResponse_toPersistentState :
    (heartbeatResponse state conn logSize resp).toPersistentState = state.toPersistentState := by
  obtain ⟨_, _, h⟩ := heartbeatResponse_eq state conn logSize resp
  rw [h]

@[simp] theorem heartbeatResponse_nodeType :
    (heartbeatResponse state conn logSize resp).nodeType = state.nodeType := by
  obtain ⟨_, _, h⟩ := heartbeatResponse_eq state conn logSize resp
  rw [h]

@[simp] theorem heartbeatResponse_commitedIndex :
    (heartbeatResponse state conn logSize resp).commitedIndex = state.commitedIndex := by
  obtain ⟨_, _, h⟩ := heartbeatResponse_eq state conn logSize resp
  rw [h]

@[simp] theorem heartbeatEnd_toPersistentState :
    (heartbeatEnd conf env state).toPersistentState = state.toPersistentState := rfl

@[simp] theorem heartbeatEnd_nodeType :
    (heartbeatEnd conf env state).nodeType = state.nodeType := rfl

@[simp] theorem heartbeatEnd_commitedIndex :
    (heartbeatEnd conf env state).commitedIndex = state.commitedIndex := rfl

end Frame

/-- A next index stays in any range that holds the end of the confirmed log and is closed
under stepping back. -/
theorem heartbeatResponse_nextIndex {P : Nat → Prop} {state : State T} {a : Addr} (conn : Addr)
    (logSize : Nat) (resp : AppendEntriesResponse) (htop : P (logSize + 1))
    (hback : ∀ next, 1 < next → P next → P (next - 1))
    (h : ∃ next, state.nextIndex.lookup a = some next ∧ P next) :
    ∃ next, (heartbeatResponse state conn logSize resp).nextIndex.lookup a = some next ∧
      P next := by
  have hinsert : ∀ index, P index →
      ∃ next, (state.nextIndex.insert conn index).lookup a = some next ∧ P next := by
    intro index hindex
    by_cases ha : a = conn
    · subst ha
      exact ⟨index, AList.lookup_insert _, hindex⟩
    · rw [AList.lookup_insert_ne ha]
      exact h
  unfold heartbeatResponse
  split
  · split
    · exact hinsert _ htop
    · exact hinsert _ htop
  · split
    · exact h
    · rename_i next hnext
      split
      · rename_i hlt
        obtain ⟨index, hlookup, hindex⟩ := h
        by_cases ha : a = conn
        · subst ha
          obtain rfl : next = index := Option.some.inj (hnext.symm.trans hlookup)
          exact ⟨_, AList.lookup_insert _, hback next hlt hindex⟩
        · exact ⟨index, (AList.lookup_insert_ne ha).trans hlookup, hindex⟩
      · exact h

/-- A match index is an old one, or the length of the log that was confirmed. -/
theorem heartbeatResponse_matchIndex {state : State T} {conn : Addr} {logSize : Nat}
    {resp : AppendEntriesResponse} {a : Addr} {index : Nat}
    (h : (heartbeatResponse state conn logSize resp).matchIndex.lookup a = some index) :
    state.matchIndex.lookup a = some index ∨
      (resp.success = true ∧ a = conn ∧ index = logSize) := by
  unfold heartbeatResponse at h
  split at h
  · rename_i hsuccess
    split at h
    · by_cases ha : a = conn
      · subst ha
        rw [AList.lookup_insert] at h
        exact Or.inr ⟨hsuccess, rfl, (Option.some.inj h).symm⟩
      · rw [AList.lookup_insert_ne ha] at h
        exact Or.inl h
    · exact Or.inl h
  · split at h
    · exact Or.inl h
    · split at h <;> exact Or.inl h

/-! ## The commit rule -/

/-- The frequency map of `maybe_commit_log_entries`, as its fold builds it. -/
def matchFrequencies (vals : List Nat) : AList fun _ : Nat => Nat :=
  vals.foldl (fun map val =>
    map.insert val (match map.lookup val with
      | some freq => freq + 1
      | none => 1)) ∅

/-- The last of the pairs with the greatest count, as `Iterator::max_by` picks it. -/
def maxByCount (pairs : List (Nat × Nat)) : Option (Nat × Nat) :=
  pairs.foldl (fun best pair =>
    match best with
    | none => some pair
    | some b => if Float32.wrapI32 pair.2 < Float32.wrapI32 b.2 then some b else some pair) none

/-- The commit point that `maybe_commit_log_entries` computes when the
frequency map is iterated in the given order. -/
def commitCandidate (quorumLen : Nat) (order : List (Nat × Nat)) : Option (Nat × Nat) :=
  maxByCount (order.filter fun pair => decide ((quorumLen : Int) ≤ Float32.wrapI32 pair.2))

/-- The entries of the frequency map, in stored order. -/
def frequencyPairs (state : State T) : List (Nat × Nat) :=
  (matchFrequencies state.matchIndex.values).entries.map fun entry => (entry.1, entry.2)

/-- What a call of `maybe_commit_log_entries` leaves behind. -/
structure CommitResult (T : Type) where
  /-- The state when the lock is released. -/
  state : State T
  /-- The entries sent on `deliver_tx`, each with the index it was read at. -/
  sent : List (Nat × LogEntry T)
  /-- Whether the call returned, and did not panic on an index. -/
  returned : Bool

/-- `Raft::maybe_commit_log_entries`.  A hash map is iterated in an unspecified
order; `order` is that order, a permutation of `frequencyPairs`. -/
def maybeCommitLogEntries (conf : Config) (order : List (Nat × Nat)) (state : State T) :
    CommitResult T :=
  if state.nodeType ≠ .leader then ⟨state, [], true⟩
  else
    match commitCandidate (getQuorumLength conf) order with
    | none => ⟨state, [], true⟩
    | some (minMatchIndex, _) =>
      if state.commitedIndex < minMatchIndex then
        let (sent, finished) := deliverRange state.log state.commitedIndex minMatchIndex
        if finished then ⟨{ state with commitedIndex := minMatchIndex }, sent, true⟩
        else ⟨state, sent, false⟩
      else ⟨state, [], true⟩

theorem lookup_matchFrequencies_aux (vals : List Nat) (map : AList fun _ : Nat => Nat) (v : Nat) :
    (vals.foldl (fun map val => map.insert val (match map.lookup val with
      | some freq => freq + 1
      | none => 1)) map).lookup v =
      if v ∈ vals then some ((map.lookup v).getD 0 + vals.count v) else map.lookup v := by
  induction vals generalizing map with
  | nil => simp
  | cons w vals ih =>
    rw [List.foldl_cons, ih]
    by_cases hvw : v = w
    · subst hvw
      rw [AList.lookup_insert, if_pos List.mem_cons_self, List.count_cons_self]
      have hcount : v ∉ vals → vals.count v = 0 := List.count_eq_zero_of_not_mem
      cases map.lookup v <;> by_cases hmem : v ∈ vals <;> simp [hmem, hcount] <;> omega
    · have hne : (w == v) = false := by simpa using fun h => hvw h.symm
      simp [hvw, AList.lookup_insert_ne hvw, List.count_cons, hne]

/-- The fold counts occurrences. -/
theorem lookup_matchFrequencies (vals : List Nat) (v : Nat) :
    (matchFrequencies vals).lookup v = if v ∈ vals then some (vals.count v) else none := by
  unfold matchFrequencies
  rw [lookup_matchFrequencies_aux]
  simp

theorem maxByCount_mem {pairs : List (Nat × Nat)} {pair : Nat × Nat}
    (h : maxByCount pairs = some pair) : pair ∈ pairs := by
  have key : ∀ (pairs : List (Nat × Nat)) (best : Option (Nat × Nat)),
      pairs.foldl (fun best pair =>
        match best with
        | none => some pair
        | some b => if Float32.wrapI32 pair.2 < Float32.wrapI32 b.2 then some b else some pair) best
        = some pair → best = some pair ∨ pair ∈ pairs := by
    intro pairs
    induction pairs with
    | nil => intro best h; exact Or.inl h
    | cons p pairs ih =>
      intro best h
      rcases ih _ h with hbest | hmem
      · cases best with
        | none => exact Or.inr (by simp [Option.some.inj hbest])
        | some b =>
          simp only at hbest
          split at hbest
          · exact Or.inl hbest
          · exact Or.inr (by simp [Option.some.inj hbest])
      · exact Or.inr (List.mem_cons_of_mem _ hmem)
  rcases key pairs none h with h | h
  · cases h
  · exact h

/-- **A commit point is a match index that a quorum of the map's values equals.** -/
theorem commitCandidate_count {conf : Config} {state : State T} {order : List (Nat × Nat)}
    {index freq : Nat} (horder : order.Perm (frequencyPairs state))
    (h : commitCandidate (getQuorumLength conf) order = some (index, freq)) :
    index ∈ state.matchIndex.values ∧
      getQuorumLength conf ≤ state.matchIndex.values.count index := by
  obtain ⟨hmem, hquorum⟩ := List.mem_filter.1 (maxByCount_mem h)
  have hmem : (index, freq) ∈ frequencyPairs state := horder.mem_iff.1 hmem
  obtain ⟨⟨i, f⟩, hentry, hpair⟩ := List.mem_map.1 hmem
  obtain ⟨rfl, rfl⟩ : i = index ∧ f = freq := by simpa using hpair
  have hlookup := AList.mem_lookup_iff.2 hentry
  rw [Option.mem_def, lookup_matchFrequencies] at hlookup
  split at hlookup
  · rename_i hval
    refine ⟨hval, ?_⟩
    rw [Option.some.inj hlookup]
    have hle := Float32.wrapI32_le f
    have hq : (getQuorumLength conf : Int) ≤ Float32.wrapI32 f := by simpa using hquorum
    omega
  · cases hlookup

/-- **What `maybe_commit_log_entries` can do.**  Either nothing but, when it
panics, sending entries; or it moves the commit index of a leader up to a commit
point, having sent the log's entries in between. -/
theorem maybeCommitLogEntries_cases (conf : Config) (order : List (Nat × Nat)) (state : State T) :
    ((maybeCommitLogEntries conf order state).state = state ∨
      ∃ index freq, commitCandidate (getQuorumLength conf) order = some (index, freq) ∧
        state.nodeType = .leader ∧ state.commitedIndex < index ∧ index ≤ state.log.length ∧
        (maybeCommitLogEntries conf order state).state = { state with commitedIndex := index }) ∧
    ∀ p ∈ (maybeCommitLogEntries conf order state).sent, state.nodeType = .leader ∧
      ∃ index freq, commitCandidate (getQuorumLength conf) order = some (index, freq) ∧
        p.1 < index ∧ state.log[p.1]? = some p.2 := by
  unfold maybeCommitLogEntries
  by_cases hrole : state.nodeType ≠ .leader
  · rw [if_pos hrole]
    simp
  · rw [if_neg hrole]
    have hleader : state.nodeType = .leader := not_not.1 hrole
    cases hcand : commitCandidate (getQuorumLength conf) order with
    | none => simp
    | some pair =>
      obtain ⟨index, freq⟩ := pair
      simp only
      by_cases hlt : state.commitedIndex < index
      · rw [if_pos hlt]
        have hsent : ∀ p ∈ (deliverRange state.log state.commitedIndex index).1,
            state.nodeType = .leader ∧ ∃ i f, some (index, freq) = some (i, f) ∧ p.1 < i ∧
              state.log[p.1]? = some p.2 := fun p hp =>
          have hsound := deliverRange_sound hp
          ⟨hleader, index, freq, rfl, hsound.2.1, hsound.2.2⟩
        by_cases hfin : (deliverRange state.log state.commitedIndex index).2 = true
        · rw [if_pos hfin]
          have hle := (deliverRange_finished_iff hlt).1 hfin
          exact ⟨Or.inr ⟨index, freq, rfl, hleader, hlt, hle, rfl⟩, hsent⟩
        · rw [if_neg hfin]
          exact ⟨Or.inl rfl, hsent⟩
      · rw [if_neg hlt]
        simp

section CommitFrame

variable (conf : Config) (order : List (Nat × Nat)) (state : State T)

/-- Only the commit index moves. -/
theorem maybeCommitLogEntries_eq : ∃ commit,
    (maybeCommitLogEntries conf order state).state = { state with commitedIndex := commit } := by
  rcases (maybeCommitLogEntries_cases conf order state).1 with h | ⟨index, _, _, _, _, _, h⟩
  · exact ⟨_, h⟩
  · exact ⟨index, h⟩

@[simp] theorem maybeCommitLogEntries_toPersistentState :
    (maybeCommitLogEntries conf order state).state.toPersistentState
      = state.toPersistentState := by
  obtain ⟨_, h⟩ := maybeCommitLogEntries_eq conf order state
  rw [h]

@[simp] theorem maybeCommitLogEntries_nodeType :
    (maybeCommitLogEntries conf order state).state.nodeType = state.nodeType := by
  obtain ⟨_, h⟩ := maybeCommitLogEntries_eq conf order state
  rw [h]

@[simp] theorem maybeCommitLogEntries_nextIndex :
    (maybeCommitLogEntries conf order state).state.nextIndex = state.nextIndex := by
  obtain ⟨_, h⟩ := maybeCommitLogEntries_eq conf order state
  rw [h]

@[simp] theorem maybeCommitLogEntries_matchIndex :
    (maybeCommitLogEntries conf order state).state.matchIndex = state.matchIndex := by
  obtain ⟨_, h⟩ := maybeCommitLogEntries_eq conf order state
  rw [h]

end CommitFrame

/-! ## Elections -/

/-- What `handle_candidate_election` writes before its loop. -/
def startElection (conf : Config) (env : Env) (state : State T) : State T :=
  let state := state.resetElectionTimeout env
  let state := { state with votesRecieved := [conf.nodeId] }
  { state with votedFor := some conf.nodeId }

/-- The vote request of an election. -/
def voteRequest (conf : Config) (state : State T) : ElectionVoteRequest :=
  match state.log.getLast? with
  | some lastLogEntry =>
    { candidateId := conf.nodeId
      term := state.nodeTerm
      lastLogIndex := state.log.length
      lastLogTerm := lastLogEntry.term }
  | none =>
    { candidateId := conf.nodeId
      term := state.nodeTerm
      lastLogIndex := 0
      lastLogTerm := 0 }

@[simp] theorem voteRequest_term (conf : Config) (state : State T) :
    (voteRequest conf state).term = state.nodeTerm := by
  unfold voteRequest
  split <;> rfl

@[simp] theorem voteRequest_candidateId (conf : Config) (state : State T) :
    (voteRequest conf state).candidateId = conf.nodeId := by
  unfold voteRequest
  split <;> rfl

/-- How the loop of `handle_candidate_election` goes on after a decoded
response. -/
inductive ElectionMove (T : Type) where
  /-- To the next peer. -/
  | next (state : State T)
  /-- Out of the loop, to `transition_to_term(Follower, term)`. -/
  | denied (state : State T) (term : NodeTerm)
  /-- Out of the loop, to `transition_wrapper(Leader, 0)`. -/
  | won (state : State T)

/-- What the election writes when the votes reach the quorum. -/
def initLeaderState (conf : Config) (state : State T) : State T :=
  { state with
    nextIndex := IndexMap.insertAll ∅ conf.connections (state.log.length + 1)
    matchIndex := IndexMap.insertAll ∅ conf.connections 0 }

/-- The quorum test at the end of the loop body. -/
def testQuorum (conf : Config) (state : State T) : ElectionMove T :=
  if getQuorumLength conf ≤ state.votesRecieved.length then .won (initLeaderState conf state)
  else .next state

/-- One decoded response in the loop of `handle_candidate_election`. -/
def countVote (conf : Config) (state : State T) (resp : ElectionVoteResponse) : ElectionMove T :=
  if resp.voteGranted then
    testQuorum conf { state with votesRecieved := state.votesRecieved ++ [resp.nodeId] }
  else if state.nodeTerm ≤ resp.term then .denied { state with votedFor := none } resp.term
  else testQuorum conf state

/-- The votes after one response that is not a denial. -/
def CountsTo (resp : ElectionVoteResponse) (before after : List NodeId) : Prop :=
  after = before ∨ (resp.voteGranted = true ∧ after = before ++ [resp.nodeId])

theorem countVote_cases (conf : Config) (state : State T) (resp : ElectionVoteResponse) :
    (resp.voteGranted = false ∧ state.nodeTerm ≤ resp.term ∧
      countVote conf state resp = .denied { state with votedFor := none } resp.term) ∨
    ∃ votes, CountsTo resp state.votesRecieved votes ∧
      countVote conf state resp = testQuorum conf { state with votesRecieved := votes } := by
  unfold countVote
  split
  · rename_i hgrant
    exact Or.inr ⟨_, Or.inr ⟨hgrant, rfl⟩, rfl⟩
  · rename_i hgrant
    split
    · rename_i hterm
      exact Or.inl ⟨by simpa using hgrant, hterm, rfl⟩
    · exact Or.inr ⟨_, Or.inl rfl, rfl⟩

/-- The loop goes on with the votes counted and nothing else written. -/
theorem countVote_eq_next {conf : Config} {state state' : State T} {resp : ElectionVoteResponse}
    (h : countVote conf state resp = .next state') :
    ∃ votes, CountsTo resp state.votesRecieved votes ∧
      state' = { state with votesRecieved := votes } := by
  rcases countVote_cases conf state resp with ⟨_, _, hdenied⟩ | ⟨votes, hvotes, heq⟩
  · rw [hdenied] at h
    cases h
  · rw [heq] at h
    unfold testQuorum at h
    split at h
    · cases h
    · cases h
      exact ⟨votes, hvotes, rfl⟩

/-- The election is won with at least a quorum of votes, and both maps are
initialised from the log. -/
theorem countVote_eq_won {conf : Config} {state state' : State T} {resp : ElectionVoteResponse}
    (h : countVote conf state resp = .won state') :
    ∃ votes, CountsTo resp state.votesRecieved votes ∧ getQuorumLength conf ≤ votes.length ∧
      state' = initLeaderState conf { state with votesRecieved := votes } := by
  rcases countVote_cases conf state resp with ⟨_, _, hdenied⟩ | ⟨votes, hvotes, heq⟩
  · rw [hdenied] at h
    cases h
  · rw [heq] at h
    unfold testQuorum at h
    split at h
    · rename_i hquorum
      cases h
      exact ⟨votes, hvotes, hquorum, rfl⟩
    · cases h

/-- A denial forgets the node's vote. -/
theorem countVote_eq_denied {conf : Config} {state state' : State T} {resp : ElectionVoteResponse}
    {term : NodeTerm} (h : countVote conf state resp = .denied state' term) :
    resp.voteGranted = false ∧ state.nodeTerm ≤ resp.term ∧ term = resp.term ∧
      state' = { state with votedFor := none } := by
  rcases countVote_cases conf state resp with ⟨hgrant, hterm, heq⟩ | ⟨votes, _, heq⟩
  · rw [heq] at h
    cases h
    exact ⟨hgrant, hterm, rfl, rfl⟩
  · rw [heq] at h
    unfold testQuorum at h
    split at h <;> cases h

@[simp] theorem appendEntry_nodeTerm (state : State T) (value : T) :
    (appendEntry state value).nodeTerm = state.nodeTerm := by
  unfold appendEntry
  split <;> rfl

@[simp] theorem appendEntry_votedFor (state : State T) (value : T) :
    (appendEntry state value).votedFor = state.votedFor := by
  unfold appendEntry
  split <;> rfl

@[simp] theorem appendEntry_toVolatileState (state : State T) (value : T) :
    (appendEntry state value).toVolatileState = state.toVolatileState := by
  unfold appendEntry
  split <;> rfl

/-- A leader appends at the end. -/
theorem appendEntry_of_leader {state : State T} (hrole : state.nodeType = .leader) (value : T) :
    appendEntry state value = { state with log := state.log ++ [⟨value, state.nodeTerm⟩] } := by
  rw [appendEntry, if_neg (not_not.2 hrole)]

/-- Any other node does nothing. -/
theorem appendEntry_of_not_leader {state : State T} (hrole : state.nodeType ≠ .leader)
    (value : T) : appendEntry state value = state := if_pos hrole

end Raft
end Quaso
