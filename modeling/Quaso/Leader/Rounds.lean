import Quaso.Raft.Transitions

/-!
# Whole rounds

`handle_candidate_election` and `maybe_send_heartbeat` ask one peer after the other
and wait for each, with the state locked.  Here both are functions of what the peers
answer.

* `Raft.electionLoop`, `Raft.handleCandidateElection` — an election, with the replies it
  has decoded.
* `Raft.heartbeatLoop`, `Raft.maybeSendHeartbeat` — a round of heartbeats.
* `Node.steps_election`, `Node.steps_heartbeat` — a node that steps through its loops
  with these answers ends in the same state.
-/

namespace Quaso

variable {T : Type}

/-- One turn of the election loop: the clock at its head, what `Client::send` gives
back, and the clock when it does. -/
structure Poll where
  now : Nat
  received : Nat
  answer : Answer ElectionVoteResponse
  le_received : now ≤ received := by decide

/-- The turns come one after the other, none before `clock`. -/
def InOrder : Nat → List Poll → Prop
  | _, [] => True
  | clock, poll :: polls => clock ≤ poll.now ∧ InOrder poll.received polls

theorem InOrder.le_now {clock : Nat} {polls : List Poll} (h : InOrder clock polls) {poll : Poll}
    (hpoll : poll ∈ polls) : clock ≤ poll.now := by
  induction polls generalizing clock with
  | nil => cases hpoll
  | cons first polls ih =>
    obtain ⟨hle, hrest⟩ := h
    rcases List.mem_cons.1 hpoll with rfl | hpoll
    · exact hle
    · calc clock ≤ first.now := hle
        _ ≤ first.received := first.le_received
        _ ≤ poll.now := ih hrest hpoll

namespace Raft

/-! ## An election -/

/-- How the loop of `handle_candidate_election` is left. -/
inductive ElectionEnd (T : Type) where
  /-- All peers have been asked. -/
  | exhausted (state : State T)
  /-- The election has timed out. -/
  | timedOut (state : State T)
  | denied (state : State T) (term : NodeTerm)
  | won (state : State T)
  /-- A request could not be written. -/
  | panicked

/-- The loop of `handle_candidate_election`, and the replies that it has decoded. -/
def electionLoop (conf : Config) (state : State T) :
    List Poll → ElectionEnd T × List ElectionVoteResponse
  | [] => (.exhausted state, [])
  | poll :: polls =>
    if state.electionTimeout < poll.now then (.timedOut state, [])
    else
      match poll.answer with
      | .reply resp =>
        match countVote conf state resp with
        | .next state =>
          let (ending, replies) := electionLoop conf state polls
          (ending, resp :: replies)
        | .denied state term => (.denied state term, [resp])
        | .won state => (.won state, [resp])
      | .undecodable | .none => electionLoop conf state polls
      | .writeFailed => (.panicked, [])

/-- What `handle_candidate_election` does after its loop; `none` when it panics.  It has
dropped the lock before it makes a transition: `meanwhile` is what handlers do to the
state before it has it again. -/
def ElectionEnd.settle (meanwhile : State T → State T) : ElectionEnd T → Option (State T)
  | .exhausted state => some state
  | .timedOut state => some ((meanwhile state).transition .candidate 1)
  | .denied state term => some ((meanwhile state).transitionToTerm .follower term)
  | .won state => some ((meanwhile state).transition .leader 0)
  | .panicked => none

/-- `Raft::handle_candidate_election`, with one poll for each peer. -/
def handleCandidateElection (conf : Config) (env : Env) (meanwhile : State T → State T)
    (state : State T) (polls : List Poll) : Option (State T) :=
  (electionLoop conf (startElection conf env state) polls).1.settle meanwhile

/-! ## Heartbeats -/

/-- The loop of `maybe_send_heartbeat`, over the peers with their answers; `none` when it
panics. -/
def heartbeatLoop (conf : Config) (state : State T) :
    List (Addr × Answer AppendEntriesResponse) → Option (State T)
  | [] => some state
  | (conn, answer) :: answers =>
    match heartbeatRequest conf state conn with
    | none => none
    | some _ =>
      match answer with
      | .reply resp =>
        heartbeatLoop conf (heartbeatResponse state conn state.log.length resp) answers
      | .none => heartbeatLoop conf state answers
      | .undecodable | .writeFailed => none

/-- `Raft::maybe_send_heartbeat`; `env` is read at its start and `last` at its end. -/
def maybeSendHeartbeat (conf : Config) (env last : Env) (state : State T)
    (answers : List (Addr × Answer AppendEntriesResponse)) : Option (State T) :=
  if state.nodeType ≠ .leader then some state
  else if env.now < state.heartbeatTimeout then some state
  else (heartbeatLoop conf state answers).map (heartbeatEnd conf last)

/-- The loop writes the two maps only. -/
theorem heartbeatLoop_nodeType {conf : Config} {state state' : State T}
    {answers : List (Addr × Answer AppendEntriesResponse)}
    (h : heartbeatLoop conf state answers = some state') :
    state'.nodeType = state.nodeType := by
  induction answers generalizing state with
  | nil => rw [← Option.some.inj h]
  | cons peer answers ih =>
    obtain ⟨conn, answer⟩ := peer
    unfold heartbeatLoop at h
    split at h
    · cases h
    · split at h
      · rw [ih h, heartbeatResponse_nodeType]
      · exact ih h
      · cases h
      · cases h

end Raft

/-! ## The same rounds, step by step -/

namespace Node

variable {conf : Config} {n : Node T}

/-- The tick task stands where the loop has been left. -/
def Leaves (req : ElectionVoteRequest) (n : Node T) : Raft.ElectionEnd T → Prop
  | .exhausted state => n.tick = .election req [] ∧ n.state = state
  | .timedOut state => n.tick = .timedOut ∧ n.state = state
  | .denied state term => n.tick = .denied term ∧ n.state = state
  | .won state => n.tick = .won req state.log ∧ n.state = state
  | .panicked => n.tick = .dead

/-- A step of the node begins a run. -/
theorem steps_head {n' n'' : Node T} {env : Env} {action : Action T} {effect : Effect T}
    (h : n.step conf env action = some (n', effect))
    (h' : (nodeSystem conf T).Steps System.Always n' n'') :
    (nodeSystem conf T).Steps System.Always n n'' :=
  Relation.ReflTransGen.head ⟨(env, action), trivial, by simp [nodeSystem, h]⟩ h'

/-- An answer arrives at the election loop. -/
theorem step_voteAnswer {n' : Node T} {now : Nat} {answer : Answer ElectionVoteResponse}
    (hle : n.clock ≤ now)
    (h : voteAnswer conf answer { n with clock := now } = some n') :
    n.step conf (.atTime now) (.voteAnswer answer) = some (n', .quiet) := by
  simp [step, Env.atTime, hle, h]

/-- The turn of a peer that is asked: the request goes out, and an answer comes in. -/
theorem steps_electionTurn {n' n'' : Node T} {req : ElectionVoteRequest} {conn : Addr}
    {conns : List Addr} {poll : Poll} (htick : n.tick = .election req (conn :: conns))
    (hle : n.clock ≤ poll.now) (htime : ¬ n.state.electionTimeout < poll.now)
    (hanswer : voteAnswer conf poll.answer
      { n with clock := poll.received, tick := .electionWait req conn 0 conns } = some n')
    (hsteps : (nodeSystem conf T).Steps System.Always n' n'') :
    (nodeSystem conf T).Steps System.Always n n'' := by
  have hasked : n.step conf (.atTime poll.now) (.advance 0) = some
      ({ n with clock := poll.now, tick := .electionWait req conn 0 conns },
        .send conn (.requestVote req)) := by
    simp [step, advance, htick, Env.atTime, htime, hle]
  exact steps_head hasked (steps_head (step_voteAnswer poll.le_received hanswer) hsteps)

/-- The node goes through the election loop. -/
theorem steps_electionLoop {req : ElectionVoteRequest} {conns : List Addr} (polls : List Poll)
    (htick : n.tick = .election req conns) (hlen : polls.length = conns.length)
    (hclock : InOrder n.clock polls) :
    ∃ n', (nodeSystem conf T).Steps System.Always n n' ∧
      Leaves req n' (Raft.electionLoop conf n.state polls).1 := by
  induction polls generalizing n conns with
  | nil =>
    obtain rfl := List.eq_nil_of_length_eq_zero hlen.symm
    exact ⟨n, .refl _ _ n, htick, rfl⟩
  | cons poll polls ih =>
    obtain ⟨conn, conns, rfl⟩ := List.exists_cons_of_length_eq_add_one hlen.symm
    obtain ⟨hle, hrest⟩ := hclock
    have hlen' : polls.length = conns.length := Nat.succ.inj hlen
    unfold Raft.electionLoop
    by_cases htime : n.state.electionTimeout < poll.now
    · have htimedOut : n.step conf (.atTime poll.now) (.advance 0) =
          some ({ n with clock := poll.now, tick := .timedOut }, .quiet) := by
        simp [step, advance, htick, Env.atTime, htime, hle]
      rw [if_pos htime]
      exact ⟨_, steps_head htimedOut (.refl _ _ _), rfl, rfl⟩
    · rw [if_neg htime]
      have hturn := @steps_electionTurn _ conf n
      cases hanswer : poll.answer with
      | reply resp =>
        simp only
        cases hcount : Raft.countVote conf n.state resp with
        | next state =>
          obtain ⟨n', hsteps, hleaves⟩ := ih (n := { n with
            clock := poll.received, state := state, tick := .election req conns }) rfl hlen' hrest
          exact ⟨n', hturn htick hle htime (by simp [voteAnswer, hanswer, hcount]) hsteps, hleaves⟩
        | denied state term =>
          exact ⟨{ n with clock := poll.received, state := state, tick := .denied term },
            hturn htick hle htime (by simp [voteAnswer, hanswer, hcount]) (.refl _ _ _), rfl, rfl⟩
        | won state =>
          exact ⟨{ n with clock := poll.received, state := state, tick := .won req state.log },
            hturn htick hle htime (by simp [voteAnswer, hanswer, hcount]) (.refl _ _ _), rfl, rfl⟩
      | undecodable | none =>
        obtain ⟨n', hsteps, hleaves⟩ := ih (n := { n with
          clock := poll.received, tick := .election req conns }) rfl hlen' hrest
        exact ⟨n', hturn htick hle htime (by rw [hanswer]; rfl) hsteps, hleaves⟩
      | writeFailed =>
        exact ⟨{ n with clock := poll.received, tick := .dead },
          hturn htick hle htime (by rw [hanswer]; rfl) (.refl _ _ _), rfl⟩

/-- What comes after the loop is one more step. -/
theorem steps_settle {req : ElectionVoteRequest} {ending : Raft.ElectionEnd T} {state : State T}
    (hleaves : Leaves req n ending) (h : ending.settle id = some state) :
    ∃ n', (nodeSystem conf T).Steps System.Always n n' ∧ n'.tick = .idle ∧ n'.state = state := by
  have hlast : ∀ n' : Node T, n.advance conf (.atTime n.clock) 0 = some (n', .quiet) →
      (nodeSystem conf T).Steps System.Always n n' := by
    intro n' hadvance
    have hstep : n.step conf (.atTime n.clock) (.advance 0) = some (n', .quiet) :=
      (if_neg (lt_irrefl n.clock)).trans hadvance
    exact steps_head hstep (.refl _ _ _)
  cases ending with
  | exhausted s =>
    obtain ⟨htick, rfl⟩ := hleaves
    exact ⟨_, hlast { n with tick := .idle } (by simp [advance, htick]), rfl, Option.some.inj h⟩
  | timedOut s =>
    obtain ⟨htick, rfl⟩ := hleaves
    exact ⟨_, hlast { n.transitionWrapper .candidate 1 with tick := .idle }
      (by simp [advance, htick]), rfl, Option.some.inj h⟩
  | denied s term =>
    obtain ⟨htick, rfl⟩ := hleaves
    exact ⟨_, hlast { n.transitionToTerm .follower term with tick := .idle }
      (by simp [advance, htick]), rfl, Option.some.inj h⟩
  | won s =>
    obtain ⟨htick, rfl⟩ := hleaves
    exact ⟨_, hlast { n.transitionWrapper .leader 0 with tick := .idle }
      (by simp [advance, htick]), rfl, Option.some.inj h⟩
  | panicked => cases h

/-- **An election, step by step.**  A candidate that goes through its election without a
handler in between ends in the state that the whole call leaves. -/
theorem steps_election {env : Env} {polls : List Poll} {state : State T}
    (htick : n.tick = .candidate) (hlen : polls.length = conf.connections.length)
    (hle : n.clock ≤ env.now) (hclock : InOrder env.now polls)
    (h : Raft.handleCandidateElection conf env id n.state polls = some state) :
    ∃ n', (nodeSystem conf T).Steps System.Always n n' ∧ n'.tick = .idle ∧ n'.state = state := by
  have hstart : n.step conf env (.advance 0)
      = some ({ n with clock := env.now }.startElection conf env, .quiet) := by
    simp [step, advance, htick, hle]
  obtain ⟨n', hsteps, hleaves⟩ := steps_electionLoop
    (n := { n with clock := env.now }.startElection conf env) polls rfl hlen hclock
  have hsettle : ∃ n'', (nodeSystem conf T).Steps System.Always n' n'' ∧ n''.tick = .idle ∧
      n''.state = state := steps_settle hleaves h
  obtain ⟨n'', hlast, hend⟩ := hsettle
  exact ⟨n'', (steps_head hstart hsteps).trans hlast, hend⟩

/-- An answer arrives at the heartbeat loop. -/
theorem step_appendAnswer {n' : Node T} {answer : Answer AppendEntriesResponse}
    (h : appendAnswer answer n = some n') :
    n.step conf (.atTime n.clock) (.appendAnswer answer) = some (n', .quiet) := by
  simp [step, Env.atTime, h]

/-- The node goes through the heartbeat loop. -/
theorem steps_heartbeatLoop {state : State T}
    (answers : List (Addr × Answer AppendEntriesResponse))
    (htick : n.tick = .heartbeat (answers.map Prod.fst))
    (h : Raft.heartbeatLoop conf n.state answers = some state) :
    ∃ n', (nodeSystem conf T).Steps System.Always n n' ∧ n'.clock = n.clock ∧
      n'.tick = .heartbeat [] ∧ n'.state = state := by
  induction answers generalizing n with
  | nil => exact ⟨n, .refl _ _ n, rfl, htick, Option.some.inj h⟩
  | cons peer answers ih =>
    obtain ⟨conn, answer⟩ := peer
    unfold Raft.heartbeatLoop at h
    split at h
    · cases h
    · rename_i req hreq
      have hasked : n.step conf (.atTime n.clock) (.advance 0) = some
          ({ n with tick := .heartbeatWait conn n.state.log.length 0 (answers.map Prod.fst) },
            .send conn (.appendEntries req)) := by
        simp [step, advance, htick, Env.atTime, hreq]
      have hturn : ∀ n' n'' : Node T, appendAnswer answer
            { n with tick := .heartbeatWait conn n.state.log.length 0 (answers.map Prod.fst) }
            = some n' → (nodeSystem conf T).Steps System.Always n' n'' →
            (nodeSystem conf T).Steps System.Always n n'' := fun n' n'' hanswer hsteps =>
        steps_head hasked (steps_head (step_appendAnswer hanswer) hsteps)
      cases answer with
      | reply resp =>
        obtain ⟨n', hsteps, hclock, hend⟩ := ih (n := { n with
          state := Raft.heartbeatResponse n.state conn n.state.log.length resp
          tick := .heartbeat (answers.map Prod.fst) }) rfl h
        exact ⟨n', hturn _ n' rfl hsteps, hclock, hend⟩
      | none =>
        obtain ⟨n', hsteps, hclock, hend⟩ := ih (n := { n with
          tick := .heartbeat (answers.map Prod.fst) }) rfl h
        exact ⟨n', hturn _ n' rfl hsteps, hclock, hend⟩
      | undecodable | writeFailed => cases h

/-- **A round of heartbeats, step by step.**  A leader that goes through a round without a
handler in between ends in the state that the whole call leaves. -/
theorem steps_heartbeat {env last : Env} {state : State T}
    {answers : List (Addr × Answer AppendEntriesResponse)}
    (htick : n.tick = .idle) (hconns : answers.map Prod.fst = conf.connections)
    (hclock : n.clock ≤ env.now) (hlast : env.now ≤ last.now)
    (h : Raft.maybeSendHeartbeat conf env last n.state answers = some state) :
    ∃ n', (nodeSystem conf T).Steps System.Always n n' ∧ n'.tick = .idle ∧ n'.state = state := by
  have hstart : n.step conf env .sendHeartbeat
      = some ({ n with clock := env.now }.sendHeartbeat conf env, .quiet) := by
    simp [step, whenIdle, htick, Tick.isIdle, hclock]
  unfold Raft.maybeSendHeartbeat at h
  split at h
  · rename_i hrole
    rw [sendHeartbeat, if_pos hrole] at hstart
    exact ⟨_, steps_head hstart (.refl _ _ _), htick, Option.some.inj h⟩
  · rename_i hrole
    split at h
    · rename_i htime
      rw [sendHeartbeat, if_neg hrole, if_pos htime] at hstart
      exact ⟨_, steps_head hstart (.refl _ _ _), htick, Option.some.inj h⟩
    · rename_i htime
      rw [sendHeartbeat, if_neg hrole, if_neg htime, ← hconns] at hstart
      obtain ⟨s, hloop, rfl⟩ := Option.map_eq_some_iff.1 h
      obtain ⟨n', hsteps, hsame, hend, rfl⟩ := steps_heartbeatLoop
        (n := { n with clock := env.now, tick := .heartbeat (answers.map Prod.fst) }) answers rfl
        hloop
      have hfinish : n'.step conf last (.advance 0) = some
          ({ n' with
              clock := last.now
              state := Raft.heartbeatEnd conf last n'.state
              tick := .idle }, .quiet) := by
        simp [step, advance, hend, hsame, hlast]
      exact ⟨_, (steps_head hstart hsteps).trans (steps_head hfinish (.refl _ _ _)), rfl, rfl⟩

end Node
end Quaso
