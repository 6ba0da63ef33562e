import Quaso.Raft.State

/-!
# The RPC handlers

`Server::ping_node`, `Server::request_vote` and `Server::append_entries` of
`raft/src/server/rpc.rs`.  A handler takes the state lock on entry and keeps it
to its end, so it is a function of the state it finds.

* `requestVote` — with `grants`, the exact condition under which it grants, and
  `requestVote_eq`: it grants and writes, or it refuses and writes nothing.
* `appendEntries` — a call can also panic, on an index out of range; the tokio
  lock is then released with the state as the call left it, so the result
  carries a state and the entries already sent in every case.  `accepts` is the
  exact condition under which the checks let the request through, and
  `appendEntries_of_accepts`, `appendEntries_of_not_accepts` say what follows.
-/

namespace Quaso

variable {T : Type}

/-! ## Vote requests -/

namespace Server

/-- `Server::ping_node`. -/
def pingNode (nodeId : NodeId) (state : State T) (_req : PingRequest) : PingResponse where
  term := state.nodeTerm
  nodeId := nodeId

/-- The comparison of the two logs in `request_vote`: what `grant` is once the
two early exits are passed. -/
def logGrants (state : State T) (req : ElectionVoteRequest) : Bool :=
  match state.log.getLast? with
  | some voterLastEntry =>
    if req.lastLogTerm < voterLastEntry.term then false
    else if voterLastEntry.term < req.lastLogTerm then true
    else decide (state.log.length ≤ req.lastLogIndex)
  -- an empty log grants only to the first candidate the node ever meets
  | none => state.votedFor.isNone

/-- The second early exit: the node has voted for another candidate. -/
def votedForOther (state : State T) (req : ElectionVoteRequest) : Bool :=
  !([some req.candidateId, none].contains state.votedFor)

/-- What `request_vote` writes when it grants. -/
def grantVote (env : Env) (state : State T) (req : ElectionVoteRequest) : State T :=
  let state := { state with votedFor := some req.candidateId }
  let state := state.transitionToTerm .follower req.term
  let state := state.resetElectionTimeout env
  { state with recievedLeaderHeartbeat := true }

/-- `Server::request_vote`. -/
def requestVote (nodeId : NodeId) (env : Env) (state : State T) (req : ElectionVoteRequest) :
    State T × ElectionVoteResponse :=
  if req.term < state.nodeTerm then
    (state, ⟨nodeId, state.nodeTerm, false⟩)
  else if votedForOther state req = true ∧ req.term = state.nodeTerm then
    (state, ⟨nodeId, state.nodeTerm, false⟩)
  else
    let grant := logGrants state req
    let state := if grant then grantVote env state req else state
    (state, ⟨nodeId, state.nodeTerm, grant⟩)

/-- The condition under which `request_vote` grants. -/
def grants (state : State T) (req : ElectionVoteRequest) : Bool :=
  !decide (req.term < state.nodeTerm) &&
    !(votedForOther state req && decide (req.term = state.nodeTerm)) && logGrants state req

theorem grants_iff {state : State T} {req : ElectionVoteRequest} :
    grants state req = true ↔ state.nodeTerm ≤ req.term ∧
      (req.term = state.nodeTerm → votedForOther state req = false) ∧
      logGrants state req = true := by
  unfold grants
  simp only [Bool.and_eq_true, Bool.not_eq_true', decide_eq_false_iff_not, not_lt, and_assoc]
  refine and_congr_right fun _ => and_congr_left fun _ => ?_
  cases votedForOther state req <;> simp

theorem votedForOther_eq_false {state : State T} {req : ElectionVoteRequest} :
    votedForOther state req = false ↔
      state.votedFor = none ∨ state.votedFor = some req.candidateId := by
  unfold votedForOther
  cases state.votedFor <;> simp

/-- A node with entries grants to a log that ends later, or in the same term and is not
shorter. -/
theorem logGrants_iff {state : State T} {req : ElectionVoteRequest} {entry : LogEntry T}
    (hlast : state.log.getLast? = some entry) :
    logGrants state req = true ↔ entry.term < req.lastLogTerm ∨
      (entry.term = req.lastLogTerm ∧ state.log.length ≤ req.lastLogIndex) := by
  unfold logGrants
  simp only [hlast]
  rcases lt_trichotomy req.lastLogTerm entry.term with hlt | heq | hgt
  · simp [hlt, hlt.le, hlt.ne']
  · simp [heq]
  · simp [hgt, hgt.le]

/-- **`request_vote` grants and writes, or refuses and writes nothing.** -/
theorem requestVote_eq (nodeId : NodeId) (env : Env) (state : State T)
    (req : ElectionVoteRequest) :
    requestVote nodeId env state req =
      if grants state req then (grantVote env state req, ⟨nodeId, req.term, true⟩)
      else (state, ⟨nodeId, state.nodeTerm, false⟩) := by
  unfold requestVote grants
  by_cases hterm : req.term < state.nodeTerm
  · simp [hterm]
  · by_cases hvoted : votedForOther state req = true ∧ req.term = state.nodeTerm
    · simp [hvoted]
    · have hpass : (votedForOther state req && decide (req.term = state.nodeTerm)) = false := by
        simpa using hvoted
      rw [if_neg hterm, if_neg hvoted, hpass]
      cases hgrant : logGrants state req with
      | false => simp
      | true => simp [hterm, grantVote, State.transitionToTerm, State.resetElectionTimeout]

section GrantVote

variable (env : Env) (state : State T) (req : ElectionVoteRequest)

@[simp] theorem grantVote_nodeTerm : (grantVote env state req).nodeTerm = req.term := rfl

@[simp] theorem grantVote_votedFor :
    (grantVote env state req).votedFor = some req.candidateId := rfl

@[simp] theorem grantVote_nodeType : (grantVote env state req).nodeType = .follower := rfl

@[simp] theorem grantVote_log : (grantVote env state req).log = state.log := rfl

@[simp] theorem grantVote_commitedIndex :
    (grantVote env state req).commitedIndex = state.commitedIndex := rfl

@[simp] theorem grantVote_votesRecieved :
    (grantVote env state req).votesRecieved = state.votesRecieved := rfl

@[simp] theorem grantVote_nextIndex :
    (grantVote env state req).nextIndex = state.nextIndex := rfl

@[simp] theorem grantVote_matchIndex :
    (grantVote env state req).matchIndex = state.matchIndex := rfl

end GrantVote

/-! ## Append requests -/

/-- The verdict of the checks on `prev_log_index` and `prev_log_term`. -/
inductive PrevLogCheck where
  | passes
  | rejects
  | panics
  deriving DecidableEq, Repr

/-- The three checks on the log in `append_entries`.  `log[prev_log_index - 1]`
is evaluated whenever the log is not empty and `prev_log_index` is within it;
at `prev_log_index = 0` the subtraction underflows and the call panics. -/
def checkPrevLog (log : List (LogEntry T)) (prevLogIndex : Nat) (prevLogTerm : NodeTerm) :
    PrevLogCheck :=
  if 0 < log.length then
    if prevLogIndex ≤ log.length then
      match prevLogIndex with
      | 0 => .panics
      | index + 1 =>
        match log[index]? with
        | none => .panics
        | some entry => if entry.term ≠ prevLogTerm then .rejects else .passes
    else .rejects
  else if log.length < prevLogIndex then .rejects
  else .passes

/-- How `append_entries` merges the new entries into the log: it compares sizes,
truncates one entry too far, and otherwise always extends at the end. -/
def spliceEntries (log : List (LogEntry T)) (prevLogIndex : Nat)
    (entries : List (LogEntry T)) : List (LogEntry T) :=
  if entries.length + prevLogIndex < log.length then
    log.take (prevLogIndex - 1) ++ entries
  else log ++ entries

/-- A heartbeat at the end of the log changes nothing. -/
@[simp] theorem spliceEntries_nil (log : List (LogEntry T)) :
    spliceEntries log log.length [] = log := by
  simp [spliceEntries]

/-- The merge of the new entries keeps the beginning of the log, unless it truncates
there. -/
theorem take_spliceEntries {log entries : List (LogEntry T)} {prevLogIndex k : Nat}
    (hle : k ≤ log.length)
    (hcut : entries.length + prevLogIndex < log.length → k ≤ prevLogIndex - 1) :
    k ≤ (spliceEntries log prevLogIndex entries).length ∧
      (spliceEntries log prevLogIndex entries).take k = log.take k := by
  unfold spliceEntries
  split
  · rename_i hlt
    have hbelow := hcut hlt
    have hkept : k ≤ (log.take (prevLogIndex - 1)).length := by
      rw [List.length_take]
      omega
    rw [List.take_append_of_le_length hkept, List.take_take, List.length_append]
    exact ⟨by omega, by congr 1; omega⟩
  · rw [List.take_append_of_le_length hle, List.length_append]
    exact ⟨by omega, rfl⟩

/-- What `append_entries` writes between its checks and its delivery loop. -/
def acceptEntries (env : Env) (state : State T) (req : AppendEntriesRequest T) : State T :=
  let state :=
    if state.nodeTerm < req.term then
      { state.transitionToTerm .follower req.term with votedFor := some req.leaderId }
    else state
  let state := { state with recievedLeaderHeartbeat := true }
  let state := state.resetElectionTimeout env
  let state := state.transitionToTerm .follower req.term
  { state with log := spliceEntries state.log req.prevLogIndex req.entries }

/-- What a call of `append_entries` leaves behind. -/
structure AppendResult (T : Type) where
  /-- The state when the lock is released. -/
  state : State T
  /-- The entries sent on `deliver_tx`, each with the index it was read at. -/
  sent : List (Nat × LogEntry T)
  /-- The response, or `none` when the call panicked. -/
  response : Option AppendEntriesResponse

/-- `Server::append_entries`. -/
def appendEntries (nodeId : NodeId) (env : Env) (state : State T)
    (req : AppendEntriesRequest T) : AppendResult T :=
  let refuse : AppendEntriesResponse := ⟨nodeId, state.nodeTerm, false⟩
  if req.term < state.nodeTerm ∧ state.nodeType = .leader then ⟨state, [], some refuse⟩
  else
    match checkPrevLog state.log req.prevLogIndex req.prevLogTerm with
    | .panics => ⟨state, [], none⟩
    | .rejects => ⟨state, [], some refuse⟩
    | .passes =>
      let state := acceptEntries env state req
      let accept : AppendEntriesResponse := ⟨nodeId, state.nodeTerm, true⟩
      if state.commitedIndex < req.leaderCommit then
        let (sent, finished) := deliverRange state.log state.commitedIndex req.leaderCommit
        if finished then
          ⟨{ state with commitedIndex := req.leaderCommit }, sent, some accept⟩
        else ⟨state, sent, none⟩
      else ⟨state, [], some accept⟩

/-- The condition under which the checks of `append_entries` let a request
through to the part that writes. -/
def accepts (state : State T) (req : AppendEntriesRequest T) : Bool :=
  !(decide (req.term < state.nodeTerm) && decide (state.nodeType = .leader)) &&
    decide (checkPrevLog state.log req.prevLogIndex req.prevLogTerm = .passes)

theorem accepts_iff {state : State T} {req : AppendEntriesRequest T} :
    accepts state req = true ↔ ¬ (req.term < state.nodeTerm ∧ state.nodeType = .leader) ∧
      checkPrevLog state.log req.prevLogIndex req.prevLogTerm = .passes := by
  unfold accepts
  rw [Bool.and_eq_true, Bool.not_eq_true', decide_eq_true_eq, Bool.and_eq_false_iff,
    decide_eq_false_iff_not, decide_eq_false_iff_not, not_and_or]

/-- The checks pass on an empty log with nothing before the entries, or on a log
that holds the announced entry. -/
theorem checkPrevLog_eq_passes {log : List (LogEntry T)} {index : Nat} {term : NodeTerm} :
    checkPrevLog log index term = .passes ↔ (log = [] ∧ index = 0) ∨
      (0 < index ∧ ∃ entry, log[index - 1]? = some entry ∧ entry.term = term) := by
  unfold checkPrevLog
  cases log with
  | nil => cases index <;> simp
  | cons e log =>
    cases index with
    | zero => simp
    | succ index =>
      by_cases hle : index + 1 ≤ (e :: log).length
      · rw [if_pos (by simp), if_pos hle, Nat.add_sub_cancel]
        cases hget : (e :: log)[index]? with
        | none => simp [hget]
        | some entry => by_cases hterm : entry.term = term <;> simp [hget, hterm]
      · have hnone : (e :: log)[index]? = none := List.getElem?_eq_none (by omega)
        rw [if_pos (by simp), if_neg hle, Nat.add_sub_cancel, hnone]
        simp

section AcceptEntries

variable (env : Env) (state : State T) (req : AppendEntriesRequest T)

@[simp] theorem acceptEntries_nodeTerm : (acceptEntries env state req).nodeTerm = req.term := rfl

@[simp] theorem acceptEntries_nodeType :
    (acceptEntries env state req).nodeType = .follower := rfl

@[simp] theorem acceptEntries_votedFor : (acceptEntries env state req).votedFor =
    if state.nodeTerm < req.term then some req.leaderId else state.votedFor := by
  unfold acceptEntries
  split <;> rfl

@[simp] theorem acceptEntries_log : (acceptEntries env state req).log =
    spliceEntries state.log req.prevLogIndex req.entries := by
  unfold acceptEntries
  split <;> rfl

@[simp] theorem acceptEntries_commitedIndex :
    (acceptEntries env state req).commitedIndex = state.commitedIndex := by
  unfold acceptEntries
  split <;> rfl

@[simp] theorem acceptEntries_votesRecieved :
    (acceptEntries env state req).votesRecieved = state.votesRecieved := by
  unfold acceptEntries
  split <;> rfl

@[simp] theorem acceptEntries_nextIndex :
    (acceptEntries env state req).nextIndex = state.nextIndex := by
  unfold acceptEntries
  split <;> rfl

@[simp] theorem acceptEntries_matchIndex :
    (acceptEntries env state req).matchIndex = state.matchIndex := by
  unfold acceptEntries
  split <;> rfl

end AcceptEntries

/-- A request that the checks stop changes nothing and delivers nothing. -/
theorem appendEntries_of_not_accepts (nodeId : NodeId) (env : Env) {state : State T}
    {req : AppendEntriesRequest T} (h : accepts state req = false) :
    (appendEntries nodeId env state req).state = state ∧
      (appendEntries nodeId env state req).sent = [] ∧
      ∀ resp, (appendEntries nodeId env state req).response = some resp →
        resp = ⟨nodeId, state.nodeTerm, false⟩ := by
  by_cases hterm : req.term < state.nodeTerm ∧ state.nodeType = .leader
  · have heq : appendEntries nodeId env state req
        = ⟨state, [], some ⟨nodeId, state.nodeTerm, false⟩⟩ := by
      unfold appendEntries
      rw [if_pos hterm]
    rw [heq]
    simp
  · unfold appendEntries
    rw [if_neg hterm]
    cases hcheck : checkPrevLog state.log req.prevLogIndex req.prevLogTerm with
    | panics => simp
    | rejects => simp
    | passes => simp [accepts, hterm, hcheck] at h

/-- **The delivery part of `append_entries`.**  Once the checks are passed, the
state is the accepted one with a commit index that is the old one or, if the
loop could read every entry below it, the leader's; only entries of the new log
between the two are sent. -/
theorem appendEntries_of_accepts (nodeId : NodeId) (env : Env) {state : State T}
    {req : AppendEntriesRequest T} (h : accepts state req = true) :
    ∃ commit sent response,
      appendEntries nodeId env state req =
        ⟨{ acceptEntries env state req with commitedIndex := commit }, sent, response⟩ ∧
      (commit = state.commitedIndex ∨
        (state.commitedIndex < req.leaderCommit ∧ commit = req.leaderCommit ∧
          commit ≤ (acceptEntries env state req).log.length)) ∧
      (∀ p ∈ sent, state.commitedIndex ≤ p.1 ∧ p.1 < req.leaderCommit ∧
        (acceptEntries env state req).log[p.1]? = some p.2) ∧
      (∀ resp, response = some resp → resp = ⟨nodeId, req.term, true⟩) := by
  obtain ⟨hterm, hcheck⟩ := accepts_iff.1 h
  unfold appendEntries
  rw [if_neg hterm, hcheck]
  simp only
  by_cases hcommit : (acceptEntries env state req).commitedIndex < req.leaderCommit
  · rw [if_pos hcommit]
    have hlt : state.commitedIndex < req.leaderCommit := by simpa using hcommit
    by_cases hfin : (deliverRange (acceptEntries env state req).log
        (acceptEntries env state req).commitedIndex req.leaderCommit).2 = true
    · rw [if_pos hfin]
      refine ⟨_, _, _, rfl, Or.inr ⟨hlt, rfl, (deliverRange_finished_iff hcommit).1 hfin⟩, ?_, ?_⟩
      · intro p hp
        simpa using deliverRange_sound hp
      · intro resp hresp
        simpa using hresp.symm
    · rw [if_neg hfin]
      refine ⟨(acceptEntries env state req).commitedIndex, _, none, rfl, Or.inl (by simp), ?_, ?_⟩
      · intro p hp
        simpa using deliverRange_sound hp
      · intro resp hresp
        cases hresp
  · rw [if_neg hcommit]
    refine ⟨(acceptEntries env state req).commitedIndex, [], _, rfl, Or.inl (by simp), by simp, ?_⟩
    · intro resp hresp
      simpa using hresp.symm

end Server
end Quaso
