import Quaso.Lib.TransitionSystem
import Quaso.Raft.Node

/-!
# What a step of a node can do

`Node.step` is a program; proofs about it want to know what a step can have
done.  `Node.Step` lists it once, with one constructor for each thing that can
happen, and `Node.step_sound` derives it from the program.  Every invariant of
the development is a case analysis over `Node.Step`.
-/

namespace Quaso
namespace Node

variable {T : Type}

/-- The listener's end of a handled request: it goes on, or it has panicked. -/
inductive Responds (T : Type) (cid : Nat) (resp : Response) : Listener T → Effect T → Prop
  | written : Responds T cid resp .accepting (.respond cid resp)
  | failed : Responds T cid resp .dead .quiet

/-- One step of a node, by what it does. -/
inductive Step (conf : Config) (env : Env) (n : Node T) : Action T → Node T → Effect T → Prop
  /-- An operation of the tick task finds nothing to do. -/
  | skip (action : Action T) (htick : n.tick = .idle)
      (haction : action = .tryPersist ∨ action = .sendHeartbeat ∨ action = .transitionCandidate) :
      Step conf env n action { n with clock := env.now } .quiet
  | persist (htick : n.tick = .idle) :
      Step conf env n .tryPersist
        { n with
          clock := env.now
          state := { n.state with persistTimeout := env.now + 5000 } } .quiet
  | clearFlag (htick : n.tick = .idle) :
      Step conf env n .clearFlag
        { n with
          clock := env.now
          state := { n.state with recievedLeaderHeartbeat := false } } .quiet
  /-- The tick task panics outside the delivery loop. -/
  | tickDies (action : Action T)
      (haction : action = .tryPersist ∨ (∃ cid, action = .advance cid) ∨
        action = .appendAnswer .undecodable ∨ action = .appendAnswer .writeFailed ∨
        action = .voteAnswer .writeFailed)
      (htick : n.tick = .idle ∨ n.tick.holdsLock = true) :
      Step conf env n action { n with clock := env.now, tick := .dead } .quiet
  | heartbeatStart (htick : n.tick = .idle) (hrole : n.state.nodeType = .leader)
      (htime : ¬ env.now < n.state.heartbeatTimeout) :
      Step conf env n .sendHeartbeat
        { n with clock := env.now, tick := .heartbeat conf.connections } .quiet
  | heartbeatSend (cid : Nat) (conn : Addr) (conns : List Addr) (req : AppendEntriesRequest T)
      (htick : n.tick = .heartbeat (conn :: conns))
      (hreq : Raft.heartbeatRequest conf n.state conn = some req) :
      Step conf env n (.advance cid)
        { n with
          clock := env.now
          tick := .heartbeatWait conn n.state.log.length cid conns }
        (.send conn (.appendEntries req))
  | heartbeatReply (conn : Addr) (logSize cid : Nat) (conns : List Addr)
      (resp : AppendEntriesResponse) (htick : n.tick = .heartbeatWait conn logSize cid conns) :
      Step conf env n (.appendAnswer (.reply resp))
        { n with
          clock := env.now
          state := Raft.heartbeatResponse n.state conn logSize resp
          tick := .heartbeat conns } .quiet
  | heartbeatNone (conn : Addr) (logSize cid : Nat) (conns : List Addr)
      (htick : n.tick = .heartbeatWait conn logSize cid conns) :
      Step conf env n (.appendAnswer .none)
        { n with clock := env.now, tick := .heartbeat conns } .quiet
  | heartbeatEnd (cid : Nat) (htick : n.tick = .heartbeat []) :
      Step conf env n (.advance cid)
        { n with
          clock := env.now
          state := Raft.heartbeatEnd conf env n.state
          tick := .idle } .quiet
  | commit (order : List (Nat × Nat)) (tick : Tick T) (htick : n.tick = .idle)
      (htick' : tick = .idle ∨ tick = .dead)
      (horder : order.Perm (Raft.frequencyPairs n.state)) :
      Step conf env n (.commit order)
        { n with
          clock := env.now
          state := (Raft.maybeCommitLogEntries conf order n.state).state
          delivered := n.delivered ++ (Raft.maybeCommitLogEntries conf order n.state).sent
          tick := tick } .quiet
  | becoming (htick : n.tick = .idle) (hrole : n.state.nodeType ≠ .leader)
      (htime : n.state.electionTimeout < env.now)
      (hflag : n.state.recievedLeaderHeartbeat = false) :
      Step conf env n .transitionCandidate { n with clock := env.now, tick := .becoming } .quiet
  | becomeCandidate (cid : Nat) (htick : n.tick = .becoming) :
      Step conf env n (.advance cid)
        { n with
          clock := env.now
          isLeader := false
          state := n.state.transition .candidate 1
          tick := .candidate } .quiet
  | electionStart (cid : Nat) (htick : n.tick = .candidate) :
      Step conf env n (.advance cid)
        { n with
          clock := env.now
          state := Raft.startElection conf env n.state
          cast := n.cast ++ [(n.state.nodeTerm, conf.nodeId)]
          tick := .election (Raft.voteRequest conf n.state) conf.connections } .quiet
  | electionEnd (cid : Nat) (req : ElectionVoteRequest) (htick : n.tick = .election req []) :
      Step conf env n (.advance cid) { n with clock := env.now, tick := .idle } .quiet
  | electionTimeout (cid : Nat) (req : ElectionVoteRequest) (conn : Addr) (conns : List Addr)
      (htick : n.tick = .election req (conn :: conns))
      (htime : n.state.electionTimeout < env.now) :
      Step conf env n (.advance cid) { n with clock := env.now, tick := .timedOut } .quiet
  | electionSend (cid : Nat) (req : ElectionVoteRequest) (conn : Addr) (conns : List Addr)
      (htick : n.tick = .election req (conn :: conns))
      (htime : ¬ n.state.electionTimeout < env.now) :
      Step conf env n (.advance cid)
        { n with clock := env.now, tick := .electionWait req conn cid conns }
        (.send conn (.requestVote req))
  | electionNext (req : ElectionVoteRequest) (conn : Addr) (cid : Nat) (conns : List Addr)
      (resp : ElectionVoteResponse) (state : State T)
      (htick : n.tick = .electionWait req conn cid conns)
      (hcount : Raft.countVote conf n.state resp = .next state) :
      Step conf env n (.voteAnswer (.reply resp))
        { n with clock := env.now, state := state, tick := .election req conns } .quiet
  | electionDenied (req : ElectionVoteRequest) (conn : Addr) (cid : Nat) (conns : List Addr)
      (resp : ElectionVoteResponse) (htick : n.tick = .electionWait req conn cid conns)
      (hgrant : resp.voteGranted = false) (hterm : n.state.nodeTerm ≤ resp.term) :
      Step conf env n (.voteAnswer (.reply resp))
        { n with
          clock := env.now
          state := { n.state with votedFor := none }
          tick := .denied resp.term } .quiet
  | electionWon (req : ElectionVoteRequest) (conn : Addr) (cid : Nat) (conns : List Addr)
      (resp : ElectionVoteResponse) (state : State T)
      (htick : n.tick = .electionWait req conn cid conns)
      (hcount : Raft.countVote conf n.state resp = .won state) :
      Step conf env n (.voteAnswer (.reply resp))
        { n with clock := env.now, state := state, tick := .won req state.log } .quiet
  | electionSkip (req : ElectionVoteRequest) (conn : Addr) (cid : Nat) (conns : List Addr)
      (answer : Answer ElectionVoteResponse) (hanswer : answer = .none ∨ answer = .undecodable)
      (htick : n.tick = .electionWait req conn cid conns) :
      Step conf env n (.voteAnswer answer)
        { n with clock := env.now, tick := .election req conns } .quiet
  | timedOut (cid : Nat) (htick : n.tick = .timedOut) :
      Step conf env n (.advance cid)
        { n with
          clock := env.now
          isLeader := false
          state := n.state.transition .candidate 1
          tick := .idle } .quiet
  | settle (cid : Nat) (term : NodeTerm) (htick : n.tick = .denied term) :
      Step conf env n (.advance cid)
        { n with
          clock := env.now
          isLeader := false
          state := n.state.transitionToTerm .follower term
          tick := .idle } .quiet
  | takeLead (cid : Nat) (req : ElectionVoteRequest) (log : List (LogEntry T))
      (htick : n.tick = .won req log) :
      Step conf env n (.advance cid)
        { n with
          clock := env.now
          isLeader := true
          state := n.state.transition .leader 0
          tick := .idle } .quiet
  | appendEntry (value : T) (hlock : n.tick.holdsLock = false) :
      Step conf env n (.appendEntry value)
        { n with clock := env.now, state := Raft.appendEntry n.state value } .quiet
  | accept (cid : Nat) (req : RequestPattern T) (hlistener : n.listener = .accepting) :
      Step conf env n (.accept cid req)
        { n with clock := env.now, listener := .handling cid req } .quiet
  | abortListener :
      Step conf env n .abortListener { n with clock := env.now, listener := .dead } .quiet
  | handlePing (written : Bool) (cid : Nat) (req : PingRequest) (listener : Listener T)
      (effect : Effect T) (hlock : n.tick.holdsLock = false)
      (hlistener : n.listener = .handling cid (.ping req))
      (hresp : Responds T cid (.ping (Server.pingNode conf.nodeId n.state req)) listener effect) :
      Step conf env n (.handle written)
        { n with clock := env.now, listener := listener } effect
  | handleRefuse (written : Bool) (cid : Nat) (req : ElectionVoteRequest) (listener : Listener T)
      (effect : Effect T) (hlock : n.tick.holdsLock = false)
      (hlistener : n.listener = .handling cid (.requestVote req))
      (hgrant : Server.grants n.state req = false)
      (hresp : Responds T cid (.requestVote ⟨conf.nodeId, n.state.nodeTerm, false⟩)
        listener effect) :
      Step conf env n (.handle written)
        { n with clock := env.now, listener := listener } effect
  | handleGrant (written : Bool) (cid : Nat) (req : ElectionVoteRequest) (listener : Listener T)
      (effect : Effect T) (hlock : n.tick.holdsLock = false)
      (hlistener : n.listener = .handling cid (.requestVote req))
      (hgrant : Server.grants n.state req = true)
      (hresp : Responds T cid (.requestVote ⟨conf.nodeId, req.term, true⟩) listener effect) :
      Step conf env n (.handle written)
        { n with
          clock := env.now
          state := Server.grantVote env n.state req
          cast := n.cast ++ [(req.term, req.candidateId)]
          listener := listener } effect
  /-- `append_entries` stops at its checks; without a response it has panicked. -/
  | handleReject (written : Bool) (cid : Nat) (req : AppendEntriesRequest T)
      (listener : Listener T) (effect : Effect T) (hlock : n.tick.holdsLock = false)
      (hlistener : n.listener = .handling cid (.appendEntries req))
      (haccept : Server.accepts n.state req = false)
      (hresp : Responds T cid (.appendEntries ⟨conf.nodeId, n.state.nodeTerm, false⟩)
        listener effect) :
      Step conf env n (.handle written)
        { n with clock := env.now, listener := listener } effect
  /-- `append_entries` writes; without a response it has panicked while it
  delivered. -/
  | handleAppend (written : Bool) (cid : Nat) (req : AppendEntriesRequest T)
      (commit : Nat) (sent : List (Nat × LogEntry T)) (listener : Listener T) (effect : Effect T)
      (hlock : n.tick.holdsLock = false)
      (hlistener : n.listener = .handling cid (.appendEntries req))
      (haccept : Server.accepts n.state req = true)
      (hcommit : commit = n.state.commitedIndex ∨ (n.state.commitedIndex < req.leaderCommit ∧
        commit = req.leaderCommit ∧ commit ≤ (Server.acceptEntries env n.state req).log.length))
      (hsent : ∀ p ∈ sent, n.state.commitedIndex ≤ p.1 ∧ p.1 < req.leaderCommit ∧
        (Server.acceptEntries env n.state req).log[p.1]? = some p.2)
      (hresp : Responds T cid (.appendEntries ⟨conf.nodeId, req.term, true⟩) listener effect) :
      Step conf env n (.handle written)
        { n with
          clock := env.now
          state := { Server.acceptEntries env n.state req with commitedIndex := commit }
          delivered := n.delivered ++ sent
          listener := listener } effect

/-- The request whose handler a step runs. -/
def handled (n : Node T) : Action T → Option (RequestPattern T)
  | .handle _ =>
    match n.listener with
    | .handling _ req => some req
    | _ => none
  | _ => none

/-- A handler runs at a request that the listener has read. -/
theorem handled_eq_some {n : Node T} {action : Action T} {req : RequestPattern T}
    (h : n.handled action = some req) :
    ∃ written cid, action = .handle written ∧ n.listener = .handling cid req := by
  unfold handled at h
  split at h
  · split at h
    · rename_i cid _ hlistener
      exact ⟨_, cid, rfl, Option.some.inj h ▸ hlistener⟩
    · cases h
  · cases h

/-- An operation that finds nothing to do runs no handler. -/
theorem handled_of_skip {n : Node T} {action : Action T}
    (haction : action = .tryPersist ∨ action = .sendHeartbeat ∨ action = .transitionCandidate) :
    n.handled action = none := by
  rcases haction with rfl | rfl | rfl <;> rfl

/-- An operation in which the tick task panics runs no handler. -/
theorem handled_of_tickDies {n : Node T} {action : Action T}
    (haction : action = .tryPersist ∨ (∃ cid, action = .advance cid) ∨
      action = .appendAnswer .undecodable ∨ action = .appendAnswer .writeFailed ∨
      action = .voteAnswer .writeFailed) :
    n.handled action = none := by
  rcases haction with rfl | ⟨cid, rfl⟩ | rfl | rfl | rfl <;> rfl

/-- The end of the listener's loop body, as a case of `Responds`. -/
theorem responds_respond (cid : Nat) (written : Bool) (resp : Response) (n : Node T) :
    ∃ listener effect, n.respond cid written resp = ({ n with listener := listener }, effect) ∧
      Responds T cid resp listener effect := by
  unfold respond
  cases written with
  | true => exact ⟨_, _, rfl, .written⟩
  | false => exact ⟨_, _, rfl, .failed⟩

variable {conf : Config} {env : Env} {n n' : Node T} {effect : Effect T}

theorem step_handle_sound {cid : Nat} {req : RequestPattern T} {written : Bool}
    (hlock : n.tick.holdsLock = false) (hlistener : n.listener = .handling cid req)
    (h : { n with clock := env.now }.handle conf env cid req written = (n', effect)) :
    Step conf env n (.handle written) n' effect := by
  cases req with
  | ping req =>
    obtain ⟨listener, e, heq, hresp⟩ := responds_respond cid written
      (.ping (Server.pingNode conf.nodeId n.state req)) { n with clock := env.now }
    obtain ⟨rfl, rfl⟩ := Prod.mk.inj (h.symm.trans heq)
    exact .handlePing written cid req listener _ hlock hlistener hresp
  | requestVote req =>
    unfold handle at h
    simp only [Server.requestVote_eq] at h
    cases hgrant : Server.grants n.state req with
    | false =>
      simp only [hgrant, Bool.false_eq_true, if_false] at h
      obtain ⟨listener, e, heq, hresp⟩ := responds_respond cid written
        (.requestVote ⟨conf.nodeId, n.state.nodeTerm, false⟩) { n with clock := env.now }
      obtain ⟨rfl, rfl⟩ := Prod.mk.inj (h.symm.trans heq)
      exact .handleRefuse written cid req listener _ hlock hlistener hgrant hresp
    | true =>
      simp only [hgrant, if_true] at h
      obtain ⟨listener, e, heq, hresp⟩ := responds_respond cid written
        (.requestVote ⟨conf.nodeId, req.term, true⟩)
        { n with
          clock := env.now
          state := Server.grantVote env n.state req
          cast := n.cast ++ [(req.term, req.candidateId)] }
      obtain ⟨rfl, rfl⟩ := Prod.mk.inj (h.symm.trans heq)
      exact .handleGrant written cid req listener _ hlock hlistener hgrant hresp
  | appendEntries req =>
    unfold handle at h
    simp only at h
    cases haccept : Server.accepts n.state req with
    | false =>
      obtain ⟨hstate, hsent, hresponse⟩ :=
        Server.appendEntries_of_not_accepts conf.nodeId env haccept
      simp only [hstate, hsent, List.append_nil] at h
      split at h
      · rename_i resp hresp
        obtain rfl := hresponse resp hresp
        obtain ⟨listener, e, heq, hresp⟩ := responds_respond cid written
          (.appendEntries ⟨conf.nodeId, n.state.nodeTerm, false⟩) { n with clock := env.now }
        obtain ⟨rfl, rfl⟩ := Prod.mk.inj (h.symm.trans heq)
        exact .handleReject written cid req listener _ hlock hlistener haccept hresp
      · obtain ⟨rfl, rfl⟩ := Prod.mk.inj h.symm
        exact .handleReject written cid req .dead _ hlock hlistener haccept .failed
    | true =>
      obtain ⟨commit, sent, response, heq, hcommit, hsent, hresponse⟩ :=
        Server.appendEntries_of_accepts conf.nodeId env haccept
      simp only [heq] at h
      split at h
      · rename_i resp
        obtain rfl := hresponse resp rfl
        obtain ⟨listener, e, heq, hresp⟩ := responds_respond cid written
          (.appendEntries ⟨conf.nodeId, req.term, true⟩)
          { n with
            clock := env.now
            state := { Server.acceptEntries env n.state req with commitedIndex := commit }
            delivered := n.delivered ++ sent }
        obtain ⟨rfl, rfl⟩ := Prod.mk.inj (h.symm.trans heq)
        exact .handleAppend written cid req commit sent listener _ hlock hlistener haccept
          hcommit hsent hresp
      · obtain ⟨rfl, rfl⟩ := Prod.mk.inj h.symm
        exact .handleAppend written cid req commit sent .dead _ hlock hlistener haccept
          hcommit hsent .failed

theorem step_advance_sound {cid : Nat}
    (h : { n with clock := env.now }.advance conf env cid = some (n', effect)) :
    Step conf env n (.advance cid) n' effect := by
  unfold advance at h
  simp only at h
  split at h
  · rename_i htick
    cases h
    exact .heartbeatEnd cid htick
  · rename_i conn conns htick
    split at h
    · cases h
      exact .tickDies _ (by simp) (Or.inr (by rw [htick]; rfl))
    · rename_i req hreq
      cases h
      exact .heartbeatSend cid conn conns req htick hreq
  · rename_i htick
    cases h
    exact .becomeCandidate cid htick
  · rename_i htick
    cases h
    exact .electionStart cid htick
  · rename_i req htick
    cases h
    exact .electionEnd cid req htick
  · rename_i req conn conns htick
    split at h
    · rename_i htime
      cases h
      exact .electionTimeout cid req conn conns htick htime
    · rename_i htime
      cases h
      exact .electionSend cid req conn conns htick htime
  · rename_i htick
    cases h
    exact .timedOut cid htick
  · rename_i term htick
    cases h
    exact .settle cid term htick
  · rename_i req log htick
    cases h
    exact .takeLead cid req log htick
  all_goals cases h

theorem step_appendAnswer_sound {answer : Answer AppendEntriesResponse}
    (h : { n with clock := env.now }.appendAnswer answer = some n') :
    Step conf env n (.appendAnswer answer) n' .quiet := by
  unfold appendAnswer at h
  simp only at h
  split at h
  · rename_i conn logSize cid conns htick
    have hlock : n.tick.holdsLock = true := by rw [htick]; rfl
    split at h
    · cases h
      exact .heartbeatReply conn logSize cid conns _ htick
    · cases h
      exact .heartbeatNone conn logSize cid conns htick
    · cases h
      exact .tickDies _ (by simp) (Or.inr hlock)
    · cases h
      exact .tickDies _ (by simp) (Or.inr hlock)
  · cases h

theorem step_voteAnswer_sound {answer : Answer ElectionVoteResponse}
    (h : { n with clock := env.now }.voteAnswer conf answer = some n') :
    Step conf env n (.voteAnswer answer) n' .quiet := by
  unfold voteAnswer at h
  simp only at h
  split at h
  · rename_i req conn cid conns htick
    have hlock : n.tick.holdsLock = true := by rw [htick]; rfl
    split at h
    · split at h
      · rename_i state hcount
        cases h
        exact .electionNext req conn cid conns _ state htick hcount
      · rename_i state term hcount
        obtain ⟨hgrant, hterm, rfl, rfl⟩ := Raft.countVote_eq_denied hcount
        cases h
        exact .electionDenied req conn cid conns _ htick hgrant hterm
      · rename_i state hcount
        cases h
        exact .electionWon req conn cid conns _ state htick hcount
    · cases h
      exact .electionSkip req conn cid conns _ (by simp) htick
    · cases h
      exact .electionSkip req conn cid conns _ (by simp) htick
    · cases h
      exact .tickDies _ (by simp) (Or.inr hlock)
  · cases h

/-- **Every step of the program is one of the listed steps.** -/
theorem step_sound {action : Action T} (h : n.step conf env action = some (n', effect)) :
    Step conf env n action n' effect := by
  unfold step at h
  split at h
  · cases h
  · cases action with
    | tryPersist =>
      simp only [whenIdle, tryPersist, Option.ite_none_right_eq_some, Option.some.injEq,
        Prod.mk.injEq] at h
      obtain ⟨hidle, rfl, rfl⟩ := h
      have htick := Tick.eq_idle hidle
      split
      · split
        · exact .tickDies _ (by simp) (Or.inl htick)
        · exact .persist htick
      · exact .skip _ htick (by simp)
    | sendHeartbeat =>
      simp only [whenIdle, sendHeartbeat, Option.ite_none_right_eq_some, Option.some.injEq,
        Prod.mk.injEq] at h
      obtain ⟨hidle, rfl, rfl⟩ := h
      have htick := Tick.eq_idle hidle
      split
      · exact .skip _ htick (by simp)
      · rename_i hrole
        split
        · exact .skip _ htick (by simp)
        · rename_i htime
          exact .heartbeatStart htick (not_not.1 hrole) htime
    | commit order =>
      simp only [whenIdle, Option.ite_none_right_eq_some, Option.some.injEq,
        Prod.mk.injEq] at h
      obtain ⟨horder, hidle, rfl, rfl⟩ := h
      refine .commit order _ (Tick.eq_idle hidle) ?_ horder
      split <;> simp
    | transitionCandidate =>
      simp only [whenIdle, transitionCandidate, Option.ite_none_right_eq_some, Option.some.injEq,
        Prod.mk.injEq] at h
      obtain ⟨hidle, rfl, rfl⟩ := h
      have htick := Tick.eq_idle hidle
      split
      · exact .skip _ htick (by simp)
      · rename_i hrole
        split
        · rename_i htime
          exact .becoming htick hrole htime.1 htime.2
        · exact .skip _ htick (by simp)
    | clearFlag =>
      simp only [whenIdle, Option.ite_none_right_eq_some, Option.some.injEq,
        Prod.mk.injEq] at h
      obtain ⟨hidle, rfl, rfl⟩ := h
      exact .clearFlag (Tick.eq_idle hidle)
    | advance cid => exact step_advance_sound h
    | appendAnswer answer =>
      simp only [Option.map_eq_some_iff, Prod.mk.injEq] at h
      obtain ⟨m, hm, rfl, rfl⟩ := h
      exact step_appendAnswer_sound hm
    | voteAnswer answer =>
      simp only [Option.map_eq_some_iff, Prod.mk.injEq] at h
      obtain ⟨m, hm, rfl, rfl⟩ := h
      exact step_voteAnswer_sound hm
    | appendEntry value =>
      simp only [Option.ite_none_left_eq_some, Option.some.injEq, Prod.mk.injEq,
        Bool.not_eq_true] at h
      obtain ⟨hlock, rfl, rfl⟩ := h
      exact .appendEntry value hlock
    | accept cid req =>
      simp only at h
      split at h
      · rename_i hlistener
        cases h
        exact .accept cid req hlistener
      · cases h
    | handle written =>
      simp only [Option.ite_none_left_eq_some, Bool.not_eq_true] at h
      obtain ⟨hlock, h⟩ := h
      split at h
      · rename_i cid req hlistener
        exact step_handle_sound hlock hlistener (Option.some.inj h)
      · cases h
    | abortListener =>
      cases h
      exact .abortListener

/-- The clock of a node is the time of its last step. -/
theorem Step.clock_eq {action : Action T} (h : Step conf env n action n' effect) :
    n'.clock = env.now := by
  cases h <;> rfl

/-- The clock does not go back. -/
theorem clock_le_of_step {action : Action T} (h : n.step conf env action = some (n', effect)) :
    n.clock ≤ env.now := by
  unfold step at h
  exact not_lt.1 (Option.ite_none_left_eq_some.1 h).1

/-- A save sends nothing. -/
theorem effect_of_tryPersist (h : n.step conf env .tryPersist = some (n', effect)) :
    effect = .quiet := by
  unfold step at h
  have hidle := (Option.ite_none_left_eq_some.1 h).2
  have heq := (Option.ite_none_right_eq_some.1 hidle).2
  cases heq
  rfl

/-! ## What a step does to the log -/

/-- The effect of a step on the log, the commit index and the deliveries. -/
inductive LogMove (conf : Config) (env : Env) (n : Node T) (action : Action T) (n' : Node T) :
    Prop
  | keep (hlog : n'.state.log = n.state.log)
      (hcommit : n'.state.commitedIndex = n.state.commitedIndex)
      (hdelivered : n'.delivered = n.delivered)
  /-- A leader appends a client's entry. -/
  | append (value : T) (hrole : n.state.nodeType = .leader)
      (hstate : n'.state = { n.state with log := n.state.log ++ [⟨value, n.state.nodeTerm⟩] })
      (hdelivered : n'.delivered = n.delivered)
  /-- A leader commits. -/
  | commit (order : List (Nat × Nat)) (haction : action = .commit order)
      (horder : order.Perm (Raft.frequencyPairs n.state))
      (hstate : n'.state = (Raft.maybeCommitLogEntries conf order n.state).state)
      (hdelivered :
        n'.delivered = n.delivered ++ (Raft.maybeCommitLogEntries conf order n.state).sent)
  /-- A handler accepts an append request. -/
  | accept (cid : Nat) (req : AppendEntriesRequest T) (commit : Nat)
      (sent : List (Nat × LogEntry T)) (hlock : n.tick.holdsLock = false)
      (hlistener : n.listener = .handling cid (.appendEntries req))
      (hhandled : n.handled action = some (.appendEntries req))
      (haccept : Server.accepts n.state req = true)
      (hstate : n'.state = { Server.acceptEntries env n.state req with commitedIndex := commit })
      (hcommit : commit = n.state.commitedIndex ∨ (n.state.commitedIndex < req.leaderCommit ∧
        commit = req.leaderCommit ∧ commit ≤ n'.state.log.length))
      (hdelivered : n'.delivered = n.delivered ++ sent)
      (hsent : ∀ p ∈ sent, n.state.commitedIndex ≤ p.1 ∧ p.1 < req.leaderCommit ∧
        n'.state.log[p.1]? = some p.2)

theorem Step.logMove {action : Action T} (h : Step conf env n action n' effect) :
    LogMove conf env n action n' := by
  cases h with
  | commit order tick htick htick' horder => exact .commit order rfl horder rfl rfl
  | appendEntry value hlock =>
    by_cases hrole : n.state.nodeType = .leader
    · exact .append value hrole (Raft.appendEntry_of_leader hrole value) rfl
    · exact .keep (by rw [Raft.appendEntry_of_not_leader hrole]) (by simp) rfl
  | handleAppend written cid req commit sent listener effect hlock hlistener haccept hcommit
      hsent =>
    exact .accept cid req commit sent hlock hlistener (by simp [handled, hlistener]) haccept rfl
      hcommit rfl hsent
  | electionNext req conn cid conns resp state htick hcount =>
    obtain ⟨votes, _, rfl⟩ := Raft.countVote_eq_next hcount
    exact .keep rfl rfl rfl
  | electionWon req conn cid conns resp state htick hcount =>
    obtain ⟨votes, _, _, rfl⟩ := Raft.countVote_eq_won hcount
    exact .keep rfl rfl rfl
  | handleGrant => exact .keep rfl (by simp) rfl
  | heartbeatReply | heartbeatEnd => exact .keep (by simp) (by simp) rfl
  | _ => exact .keep rfl rfl rfl

/-- **What a step keeps of the log.**  The beginning of the log stays, unless an accepted
request, whose term is then the node's, truncates the log there. -/
theorem Step.take_log {action : Action T} (h : Step conf env n action n' effect) {k : Nat}
    (hle : k ≤ n.state.log.length)
    (hcut : ∀ req, n.handled action = some (.appendEntries req) →
      Server.accepts n.state req = true → n'.state.nodeTerm = req.term →
      req.entries.length + req.prevLogIndex < n.state.log.length → k ≤ req.prevLogIndex - 1) :
    k ≤ n'.state.log.length ∧ n'.state.log.take k = n.state.log.take k := by
  cases h.logMove with
  | keep hlog => exact ⟨hlog ▸ hle, by rw [hlog]⟩
  | append value hrole hstate =>
    rw [hstate, List.take_append_of_le_length hle, List.length_append]
    exact ⟨by omega, rfl⟩
  | commit order haction horder hstate =>
    rw [hstate]
    simpa using hle
  | accept cid req commit sent hlock hlistener hhandled haccept hstate =>
    have hlog : n'.state.log = Server.spliceEntries n.state.log req.prevLogIndex req.entries := by
      rw [hstate]
      exact Server.acceptEntries_log env n.state req
    rw [hlog]
    exact Server.take_spliceEntries hle (hcut req hhandled haccept (by rw [hstate]; rfl))

/-- A call of `maybe_commit_log_entries` that moves the commit index has found a commit
point inside the leader's log. -/
theorem Step.commit_cases {order : List (Nat × Nat)} (h : Step conf env n (.commit order) n' effect)
    (hcommit : n.state.commitedIndex < n'.state.commitedIndex) : ∃ index freq,
    Raft.commitCandidate (getQuorumLength conf) order = some (index, freq) ∧
      order.Perm (Raft.frequencyPairs n.state) ∧ n.state.nodeType = .leader ∧
      n.state.commitedIndex < index ∧ index ≤ n.state.log.length ∧
      n'.state = { n.state with commitedIndex := index } := by
  cases h.logMove with
  | keep hlog hsame => omega
  | append value hrole hstate =>
    rw [hstate] at hcommit
    exact absurd hcommit (lt_irrefl _)
  | commit order' haction horder hstate =>
    cases haction
    rcases (Raft.maybeCommitLogEntries_cases conf order n.state).1 with
      hsame | ⟨index, freq, hcand, hrole, hlt, hle, hnew⟩
    · rw [hstate, hsame] at hcommit
      exact absurd hcommit (lt_irrefl _)
    · exact ⟨index, freq, hcand, horder, hrole, hlt, hle, hstate.trans hnew⟩
  | accept cid req commit sent hlock hlistener hhandled => cases hhandled

/-- The log of a node that leads after a step has only grown. -/
theorem Step.leader_log_isPrefix {action : Action T} (h : Step conf env n action n' effect)
    (hrole : n'.state.nodeType = .leader) : n.state.log <+: n'.state.log := by
  cases h.logMove with
  | keep hlog => exact hlog ▸ List.prefix_rfl
  | append value _ hstate =>
    rw [hstate]
    exact List.prefix_append _ _
  | commit order haction horder hstate =>
    rw [hstate]
    simp
  | accept cid req commit sent hlock hlistener hhandled haccept hstate =>
    rw [hstate] at hrole
    simp at hrole

/-! ## What a step does to votes and roles -/

/-- Votes that are cast stay cast. -/
theorem Step.cast_isPrefix {action : Action T} (h : Step conf env n action n' effect) :
    n.cast <+: n'.cast := by
  cases h with
  | electionStart | handleGrant => exact List.prefix_append _ _
  | _ => exact List.prefix_rfl

/-- A vote was cast before the step, or it is the node's own, or it has just been
granted. -/
theorem Step.vote_cases {action : Action T} (h : Step conf env n action n' effect)
    {t : NodeTerm} {c : NodeId} (hcast : (t, c) ∈ n'.cast) :
    (t, c) ∈ n.cast ∨ c = conf.nodeId ∨ ∃ cid req, n.listener = .handling cid (.requestVote req) ∧
      Server.grants n.state req = true ∧ t = req.term ∧ c = req.candidateId ∧
      n'.state.log = n.state.log := by
  cases h with
  | electionStart cid htick =>
    rcases List.mem_append.1 hcast with hold | hnew
    · exact Or.inl hold
    · exact Or.inr (Or.inl (by simpa using congrArg Prod.snd (List.mem_singleton.1 hnew)))
  | handleGrant written cid req listener effect hlock hlistener hgrant =>
    rcases List.mem_append.1 hcast with hold | hnew
    · exact Or.inl hold
    · obtain ⟨rfl, rfl⟩ := Prod.mk.inj (List.mem_singleton.1 hnew)
      exact Or.inr (Or.inr ⟨cid, req, hlistener, hgrant, rfl, rfl, rfl⟩)
  | _ => exact Or.inl hcast

/-- A leader was the leader of the same term before the step, or it has just taken the
role after an election. -/
theorem Step.leader_cases {action : Action T} (h : Step conf env n action n' effect)
    (hrole : n'.state.nodeType = .leader) :
    (n.state.nodeType = .leader ∧ n'.state.nodeTerm = n.state.nodeTerm) ∨
      ∃ req log, n.tick = .won req log ∧ n'.tick = .idle ∧
        n'.state = { n.state with nodeType := .leader } := by
  cases h with
  | takeLead cid req log htick =>
    exact Or.inr ⟨req, log, htick, rfl, by simp [State.transition]⟩
  | becomeCandidate | timedOut | settle => cases hrole
  | handleGrant | handleAppend => simp at hrole
  | heartbeatReply | heartbeatEnd | commit | appendEntry =>
    exact Or.inl ⟨by simpa using hrole, by simp⟩
  | electionStart => exact Or.inl ⟨hrole, rfl⟩
  | electionNext req conn cid conns resp state htick hcount =>
    obtain ⟨votes, _, rfl⟩ := Raft.countVote_eq_next hcount
    exact Or.inl ⟨hrole, rfl⟩
  | electionWon req conn cid conns resp state htick hcount =>
    obtain ⟨votes, _, _, rfl⟩ := Raft.countVote_eq_won hcount
    exact Or.inl ⟨hrole, rfl⟩
  | _ => exact Or.inl ⟨hrole, rfl⟩

theorem Step.leader_nodeTerm {action : Action T} (h : Step conf env n action n' effect)
    (hrole : n'.state.nodeType = .leader) : n'.state.nodeTerm = n.state.nodeTerm := by
  rcases h.leader_cases hrole with ⟨_, hterm⟩ | ⟨_, _, _, _, hstate⟩
  · exact hterm
  · rw [hstate]

/-- A tick task that campaigns after a step campaigned for that term before, or it has
just started the election of its present term. -/
theorem Step.campaign_cases {action : Action T} (h : Step conf env n action n' effect)
    {t : NodeTerm} (hcampaign : n'.tick.campaign = some t) :
    n.tick.campaign = some t ∨
      (n.tick = .candidate ∧ t = n.state.nodeTerm ∧ (t, conf.nodeId) ∈ n'.cast) := by
  cases h with
  | electionStart cid htick =>
    obtain rfl : t = n.state.nodeTerm := by simpa [Tick.campaign, eq_comm] using hcampaign
    exact Or.inr ⟨htick, rfl, by simp⟩
  | electionSend cid req conn conns htick | electionSkip req conn cid conns answer hanswer htick
  | electionNext req conn cid conns resp state htick hcount
  | electionWon req conn cid conns resp state htick hcount =>
    exact Or.inl (by rw [htick]; exact hcampaign)
  | commit order tick htick htick' => rcases htick' with rfl | rfl <;> cases hcampaign
  | _ => first | exact Or.inl hcampaign | cases hcampaign

/-! ## What a step has to do with the network -/

/-- A step after which the election loop waits has just sent the request, or it waited
before. -/
theorem Step.electionWait_cases {action : Action T} (h : Step conf env n action n' effect)
    {req : ElectionVoteRequest} {conn : Addr} {cid : Nat} {conns : List Addr}
    (htick : n'.tick = .electionWait req conn cid conns) :
    n.tick = .electionWait req conn cid conns ∨
      (action = .advance cid ∧ effect = .send conn (.requestVote req)) := by
  cases h with
  | electionSend d req' conn' conns' =>
    cases htick
    exact Or.inr ⟨rfl, rfl⟩
  | commit order tick htick₀ htick' => rcases htick' with rfl | rfl <;> cases htick
  | _ => first | exact Or.inl htick | cases htick

/-- A step after which the heartbeat loop waits has just sent the request, or it waited
before; the state is untouched. -/
theorem Step.heartbeatWait_cases {action : Action T} (h : Step conf env n action n' effect)
    {conn : Addr} {logSize cid : Nat} {conns : List Addr}
    (htick : n'.tick = .heartbeatWait conn logSize cid conns) :
    n'.state = n.state ∧ (n.tick = .heartbeatWait conn logSize cid conns ∨
      ∃ req, action = .advance cid ∧ Raft.heartbeatRequest conf n.state conn = some req ∧
        effect = .send conn (.appendEntries req)) := by
  cases h with
  | heartbeatSend d conn' conns' req htick₀ hreq =>
    cases htick
    exact ⟨rfl, Or.inr ⟨req, rfl, hreq, rfl⟩⟩
  | commit order tick htick₀ htick' => rcases htick' with rfl | rfl <;> cases htick
  | persist htick₀ | clearFlag htick₀ =>
    rw [htick₀] at htick
    cases htick
  -- while the loop waits it holds the lock, so nothing else can write
  | appendEntry value hlock =>
    rw [show n.tick = _ from htick] at hlock
    cases hlock
  | handleGrant written d req listener effect hlock
  | handleAppend written d req commit sent listener effect hlock =>
    rw [show n.tick = _ from htick] at hlock
    cases hlock
  | _ => first | exact ⟨rfl, Or.inl htick⟩ | cases htick

/-- A listener that handles a request after a step handled it before, or has just
read it. -/
theorem Step.handling_cases {action : Action T} (h : Step conf env n action n' effect)
    {cid : Nat} {req : RequestPattern T} (hlistener : n'.listener = .handling cid req) :
    n.listener = .handling cid req ∨ action = .accept cid req := by
  cases h with
  | accept d req' hlistener₀ =>
    cases hlistener
    exact Or.inr rfl
  | handlePing written d req' listener effect hlock hlistener₀ hresp
  | handleRefuse written d req' listener effect hlock hlistener₀ hgrant hresp
  | handleGrant written d req' listener effect hlock hlistener₀ hgrant hresp
  | handleReject written d req' listener effect hlock hlistener₀ haccept hresp
  | handleAppend written d req' commit sent listener effect hlock hlistener₀ haccept hcommit hsent
      hresp =>
    cases hresp <;> cases hlistener
  | abortListener => cases hlistener
  | _ => exact Or.inl hlistener

/-- What a step sends: the vote request of its election, or the append request it has
just built. -/
theorem Step.send_cases {action : Action T} {dst : Addr} {req : RequestPattern T}
    (h : Step conf env n action n' (.send dst req)) : n'.state = n.state ∧
      ((∃ q conns, n.tick = .election q (dst :: conns) ∧
          ¬ n.state.electionTimeout < env.now ∧ req = .requestVote q) ∨
        ∃ q conns, n.tick = .heartbeat (dst :: conns) ∧
          Raft.heartbeatRequest conf n.state dst = some q ∧ req = .appendEntries q) := by
  cases h with
  | heartbeatSend cid conn conns q htick hreq =>
    exact ⟨rfl, Or.inr ⟨q, conns, htick, hreq, rfl⟩⟩
  | electionSend cid q conn conns htick htime =>
    exact ⟨rfl, Or.inl ⟨q, conns, htick, htime, rfl⟩⟩
  | handlePing written d req' listener effect hlock hlistener₀ hresp => cases hresp
  | handleRefuse written d req' listener effect hlock hlistener₀ hgrant hresp => cases hresp
  | handleGrant written d req' listener effect hlock hlistener₀ hgrant hresp => cases hresp
  | handleReject written d req' listener effect hlock hlistener₀ haccept hresp => cases hresp
  | handleAppend written d req' commit sent listener effect hlock hlistener₀ haccept hcommit hsent
      hresp => cases hresp

/-- A vote that a step grants on a connection is one that `request_vote` grants, and it is
cast. -/
theorem Step.granted {action : Action T} {cid : Nat} {resp : ElectionVoteResponse}
    (h : Step conf env n action n' (.respond cid (.requestVote resp)))
    (hgrant : resp.voteGranted = true) : ∃ req,
      n.listener = .handling cid (.requestVote req) ∧
      n.handled action = some (.requestVote req) ∧ Server.grants n.state req = true ∧
      n.tick.holdsLock = false ∧ n'.tick = n.tick ∧ (req.term, req.candidateId) ∈ n'.cast := by
  cases h with
  | handleGrant written d req listener effect hlock hlistener hgrants hresp =>
    cases hresp
    exact ⟨req, hlistener, by simp [handled, hlistener], hgrants, hlock, rfl, by simp⟩
  | handlePing written d req listener effect hlock hlistener hresp => cases hresp
  | handleRefuse written d req listener effect hlock hlistener hgrants hresp =>
    cases hresp
    cases hgrant
  | handleReject written d req listener effect hlock hlistener haccept hresp => cases hresp
  | handleAppend written d req commit sent listener effect hlock hlistener haccept hcommit hsent
      hresp => cases hresp

/-- An append request that a step confirms on a connection has been accepted. -/
theorem Step.confirmed {action : Action T} {cid : Nat} {resp : AppendEntriesResponse}
    (h : Step conf env n action n' (.respond cid (.appendEntries resp)))
    (hsuccess : resp.success = true) : ∃ req commit,
      n.listener = .handling cid (.appendEntries req) ∧
      n.handled action = some (.appendEntries req) ∧ Server.accepts n.state req = true ∧
      n'.state = { Server.acceptEntries env n.state req with commitedIndex := commit } ∧
      n'.cast = n.cast := by
  cases h with
  | handleAppend written d req commit sent listener effect hlock hlistener haccept hcommit hsent
      hresp =>
    cases hresp
    exact ⟨req, commit, hlistener, by simp [handled, hlistener], haccept, rfl, rfl⟩
  | handlePing written d req listener effect hlock hlistener hresp => cases hresp
  | handleRefuse written d req listener effect hlock hlistener hgrants hresp => cases hresp
  | handleGrant written d req listener effect hlock hlistener hgrants hresp => cases hresp
  | handleReject written d req listener effect hlock hlistener haccept hresp =>
    cases hresp
    cases hsuccess

end Node

/-! ## A node on its own -/

/-- A node in an arbitrary environment: any request may reach its listener at
any time, and any answer may reach its loops. -/
def nodeSystem (conf : Config) (T : Type) : System (Node T) (Env × Action T) where
  Init := fun n => ∃ env, n = Node.start conf env
  step := fun n l => (n.step conf l.1 l.2).map Prod.fst

/-- A condition on the actions of a node, as one on the labels of its system. -/
def OnAction (ok : Node T → Action T → Prop) (n : Node T) (l : Env × Action T) : Prop := ok n l.2

instance (ok : Node T → Action T → Prop) [∀ n a, Decidable (ok n a)] (n : Node T)
    (l : Env × Action T) : Decidable (OnAction ok n l) :=
  inferInstanceAs (Decidable (ok n l.2))

theorem nodeSystem_step {conf : Config} {n n' : Node T} {l : Env × Action T}
    (h : (nodeSystem conf T).step n l = some n') :
    ∃ effect, Node.Step conf l.1 n l.2 n' effect := by
  obtain ⟨⟨m, effect⟩, hstep, rfl⟩ := Option.map_eq_some_iff.1 h
  exact ⟨effect, Node.step_sound hstep⟩

end Quaso
