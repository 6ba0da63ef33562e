import Quaso.Raft.Transitions

/-!
# Earlier lives

A node that is started again reads its clock anew, and has voted for nobody and delivered
nothing yet.  No step looks at any of this, so a node may as well be taken with what its
earlier lives have done.

* `Node.withPast` — a node with what its earlier lives have voted for and delivered.
* `Node.step_withPast` — it makes the same steps.
-/

namespace Quaso

variable {T : Type} {conf : Config} {env : Env} {m m' : Node T} {action : Action T}
  {effect : Effect T} {clock : Nat} {cast : List (NodeTerm × NodeId)}
  {sent : List (Nat × LogEntry T)}

/-- The node with an earlier reading of its clock, and with the votes and deliveries of
earlier lives. -/
def Node.withPast (clock : Nat) (cast : List (NodeTerm × NodeId)) (sent : List (Nat × LogEntry T))
    (m : Node T) : Node T :=
  { m with clock := clock, cast := cast ++ m.cast, delivered := sent ++ m.delivered }

namespace Node

variable (m)

theorem tryPersist_withPast :
    (m.withPast clock cast sent).tryPersist env = (m.tryPersist env).withPast clock cast sent := by
  by_cases htime : m.state.persistTimeout < env.now
  · cases himage : m.state.toPersistentState.persist m.state.commitedIndex <;>
      simp [tryPersist, withPast, htime, himage]
  · simp [tryPersist, withPast, htime]

theorem sendHeartbeat_withPast : (m.withPast clock cast sent).sendHeartbeat conf env
    = (m.sendHeartbeat conf env).withPast clock cast sent := by
  by_cases hrole : m.state.nodeType = .leader
  · by_cases htime : env.now < m.state.heartbeatTimeout <;>
      simp [sendHeartbeat, withPast, hrole, htime]
  · simp [sendHeartbeat, withPast, hrole]

theorem commit_withPast (order : List (Nat × Nat)) : (m.withPast clock cast sent).commit conf order
    = (m.commit conf order).withPast clock cast sent := by
  simp only [commit, withPast, List.append_assoc]
  rfl

theorem transitionCandidate_withPast : (m.withPast clock cast sent).transitionCandidate env
    = (m.transitionCandidate env).withPast clock cast sent := by
  by_cases hrole : m.state.nodeType = .leader
  · simp [transitionCandidate, withPast, hrole]
  · by_cases htime : m.state.electionTimeout < env.now ∧ m.state.recievedLeaderHeartbeat = false <;>
      simp [transitionCandidate, withPast, hrole, htime]

theorem advance_withPast (cid : Nat) : (m.withPast clock cast sent).advance conf env cid
    = (m.advance conf env cid).map fun p => (p.1.withPast clock cast sent, p.2) := by
  cases htick : m.tick with
  | heartbeat conns =>
    cases conns with
    | nil => simp [advance, withPast, htick]
    | cons conn conns =>
      cases hreq : Raft.heartbeatRequest conf m.state conn <;> simp [advance, withPast, htick, hreq]
  | election req conns =>
    cases conns with
    | nil => simp [advance, withPast, htick]
    | cons conn conns =>
      by_cases htime : m.state.electionTimeout < env.now <;> simp [advance, withPast, htick, htime]
  | candidate => simp [advance, withPast, htick, startElection]
  | becoming | timedOut | won => simp [advance, withPast, htick, transitionWrapper]
  | denied => simp [advance, withPast, htick, transitionToTerm]
  | idle | heartbeatWait | electionWait | dead => simp [advance, withPast, htick]

theorem appendAnswer_withPast (answer : Answer AppendEntriesResponse) :
    (m.withPast clock cast sent).appendAnswer answer
      = (m.appendAnswer answer).map (withPast clock cast sent) := by
  cases htick : m.tick with
  | heartbeatWait => cases answer <;> simp [appendAnswer, withPast, htick]
  | _ => simp [appendAnswer, withPast, htick]

theorem voteAnswer_withPast (answer : Answer ElectionVoteResponse) :
    (m.withPast clock cast sent).voteAnswer conf answer
      = (m.voteAnswer conf answer).map (withPast clock cast sent) := by
  cases htick : m.tick with
  | electionWait =>
    cases answer with
    | reply resp =>
      cases hcount : Raft.countVote conf m.state resp <;> simp [voteAnswer, withPast, htick, hcount]
    | _ => simp [voteAnswer, withPast, htick]
  | _ => simp [voteAnswer, withPast, htick]

theorem handle_withPast (cid : Nat) (req : RequestPattern T) (written : Bool) :
    (m.withPast clock cast sent).handle conf env cid req written
      = ((m.handle conf env cid req written).1.withPast clock cast sent,
          (m.handle conf env cid req written).2) := by
  cases req with
  | ping req => cases written <;> simp [handle, respond, withPast]
  | requestVote req =>
    cases hgrant : (Server.requestVote conf.nodeId env m.state req).2.voteGranted <;>
      cases written <;> simp [handle, respond, withPast, hgrant]
  | appendEntries req =>
    cases hresp : (Server.appendEntries conf.nodeId env m.state req).response <;>
      cases written <;> simp [handle, respond, withPast, hresp]

variable {m}

/-- An operation that starts from `idle`. -/
theorem whenIdle_withPast {next next' : Node T} (hnext : next' = next.withPast clock cast sent)
    (h : m.whenIdle next = some (m', effect)) :
    (m.withPast clock cast sent).whenIdle next'
      = some (m'.withPast clock cast sent, effect) := by
  unfold whenIdle at h ⊢
  obtain ⟨hidle, heq⟩ := Option.ite_none_right_eq_some.1 h
  cases heq
  rw [hnext]
  exact if_pos hidle

/-- **No step looks at earlier lives.** -/
theorem step_withPast (h : m.step conf env action = some (m', effect))
    (hle : clock ≤ m.clock) :
    (m.withPast clock cast sent).step conf env action
      = some (m'.withPast env.now cast sent, effect) := by
  have hclock : ¬ env.now < m.clock := not_lt.2 (clock_le_of_step h)
  have hclock' : ¬ env.now < (m.withPast clock cast sent).clock :=
    not_lt.2 (hle.trans (not_lt.1 hclock))
  have hnow : ({ m.withPast clock cast sent with clock := env.now } : Node T)
      = ({ m with clock := env.now } : Node T).withPast env.now cast sent := rfl
  unfold step at h ⊢
  rw [if_neg hclock] at h
  rw [if_neg hclock', hnow]
  cases action with
  | tryPersist => exact whenIdle_withPast (tryPersist_withPast _) h
  | sendHeartbeat => exact whenIdle_withPast (sendHeartbeat_withPast _) h
  | commit order =>
    obtain ⟨horder, h⟩ := Option.ite_none_right_eq_some.1 h
    exact (if_pos horder).trans (whenIdle_withPast (commit_withPast _ order) h)
  | transitionCandidate => exact whenIdle_withPast (transitionCandidate_withPast _) h
  | clearFlag => exact whenIdle_withPast rfl h
  | advance cid => exact (advance_withPast _ cid).trans (congrArg (Option.map _) h)
  | appendAnswer answer =>
    obtain ⟨next, hnext, heq⟩ := Option.map_eq_some_iff.1 h
    cases heq
    exact congrArg (Option.map _) ((appendAnswer_withPast _ answer).trans (congrArg _ hnext))
  | voteAnswer answer =>
    obtain ⟨next, hnext, heq⟩ := Option.map_eq_some_iff.1 h
    cases heq
    exact congrArg (Option.map _) ((voteAnswer_withPast _ answer).trans (congrArg _ hnext))
  | appendEntry value =>
    obtain ⟨hlock, heq⟩ := Option.ite_none_left_eq_some.1 h
    cases heq
    exact if_neg hlock
  | accept cid req =>
    cases hlistener : m.listener with
    | accepting =>
      simp only [hlistener] at h
      cases h
      simp [withPast]
    | _ => simp [hlistener] at h
  | handle written =>
    obtain ⟨hlock, h⟩ := Option.ite_none_left_eq_some.1 h
    refine (if_neg hlock).trans ?_
    split at h
    · rename_i cid req hlistener
      have hhandle := (handle_withPast _ cid req written).trans
        (congrArg (fun p => (withPast env.now cast sent p.1, p.2)) (Option.some.inj h))
      split
      · rename_i cid' req' hlistener'
        obtain ⟨rfl, rfl⟩ := Listener.handling.inj (hlistener.symm.trans hlistener')
        exact congrArg some hhandle
      · rename_i hnot
        exact absurd hlistener (hnot cid req)
    · cases h
  | abortListener =>
    cases h
    rfl

end Node
end Quaso
