import Quaso.Lib.Timer
import Quaso.Raft.Disk
import Quaso.Raft.Transitions
import Quaso.Safety.Term

/-!
# The three timeouts

The tick task compares the clock with three deadlines.  `election_timeout` is set anew
when the node accepts an append request, grants a vote, or starts an election;
`heartbeat_timeout` at the end of a round of heartbeats; `persist_timeout` when the
file has been written.

* `electionTimer`, `heartbeatTimer`, `persistTimer` — each is a `Timer`.
* `Node.AboutToStand` — between the check of `election_timeout` and the transition to
  candidate the lock is dropped: a request that is handled there comes too late to hold
  the node off.
* `timeouts_hold_off` — in every run: a node does not become a candidate within 150 ms
  of hearing from a leader, voting, or starting an election, unless it was about to
  then; it starts no round of heartbeats within 5 ms of the last one; and it does not
  write its file within 5 s of the last time.
-/

namespace Quaso

variable {T : Type} {conf : Config} {env : Env} {n n' : Node T} {action : Action T}
  {effect : Effect T}

/-! ## What arms and fires -/

/-- The tick task has found the election timeout passed and has dropped the lock, in
`maybe_transition_candidate` or in the loop of an election. -/
def Node.AboutToStand (n : Node T) : Prop := n.tick = .becoming ∨ n.tick = .timedOut

/-- The step makes the node a candidate, for the first time or once more in the same
loop. -/
def Node.Stands (n n' : Node T) : Prop :=
  n.AboutToStand ∧ n'.state = n.state.transition .candidate 1

/-- The step hears from a leader, grants a vote, or starts an election. -/
def Node.Defers (n : Node T) (action : Action T) : Prop :=
  (∃ req, n.handled action = some (.appendEntries req) ∧ Server.accepts n.state req = true) ∨
    (∃ req, n.handled action = some (.requestVote req) ∧ Server.grants n.state req = true) ∨
    ∃ cid, n.tick = .candidate ∧ action = .advance cid

/-- The step starts a round of heartbeats. -/
def Node.StartsRound (n n' : Node T) : Prop :=
  n.tick = .idle ∧ ∃ conns, n'.tick = .heartbeat conns

/-- The step ends a round of heartbeats. -/
def Node.EndsRound (n n' : Node T) : Prop := n.tick = .heartbeat [] ∧ n'.tick = .idle

/-- The step is a call of `try_persist_state` that writes the file and returns. -/
def Node.Saves (n : Node T) (env : Env) (action : Action T) (n' : Node T) : Prop :=
  action = .tryPersist ∧ n.state.persistTimeout < env.now ∧ n'.tick = .idle

/-- The clock does not go back. -/
theorem nodeSystem_clock {l : Env × Action T} (h : (nodeSystem conf T).step n l = some n') :
    n.clock ≤ n'.clock := by
  obtain ⟨⟨m, effect⟩, hstep, rfl⟩ := Option.map_eq_some_iff.1 h
  rw [(Node.step_sound hstep).clock_eq]
  exact Node.clock_le_of_step hstep

/-! ## What a step does to the deadlines -/

/-- Each deadline stays where it is, or is set anew. -/
structure Deadlines (env : Env) (state state' : State T) : Prop where
  election : state'.electionTimeout = state.electionTimeout ∨
    state'.electionTimeout = env.now + env.electionTime
  heartbeat : state'.heartbeatTimeout = state.heartbeatTimeout ∨
    state'.heartbeatTimeout = env.now + env.heartbeatTime
  persist : state'.persistTimeout = state.persistTimeout ∨
    state'.persistTimeout = env.now + 5000

/-- None is set. -/
theorem Deadlines.keep {state state' : State T}
    (helection : state'.electionTimeout = state.electionTimeout)
    (hheartbeat : state'.heartbeatTimeout = state.heartbeatTimeout)
    (hpersist : state'.persistTimeout = state.persistTimeout) : Deadlines env state state' :=
  ⟨Or.inl helection, Or.inl hheartbeat, Or.inl hpersist⟩

/-- An accepted request sets the deadline of elections, and no other. -/
theorem Server.acceptEntries_deadlines (env : Env) (state : State T)
    (req : AppendEntriesRequest T) :
    (acceptEntries env state req).electionTimeout = env.now + env.electionTime ∧
      (acceptEntries env state req).heartbeatTimeout = state.heartbeatTimeout ∧
      (acceptEntries env state req).persistTimeout = state.persistTimeout := by
  unfold acceptEntries
  split <;> exact ⟨rfl, rfl, rfl⟩

/-- **What a step does to the deadlines.** -/
theorem Node.Step.deadlines (h : Node.Step conf env n action n' effect) :
    Deadlines env n.state n'.state := by
  cases h with
  | persist => exact ⟨Or.inl rfl, Or.inl rfl, Or.inr rfl⟩
  | electionStart => exact ⟨Or.inr rfl, Or.inl rfl, Or.inl rfl⟩
  | heartbeatEnd => exact ⟨Or.inl rfl, Or.inr rfl, Or.inl rfl⟩
  | handleGrant => exact ⟨Or.inr rfl, Or.inl rfl, Or.inl rfl⟩
  | handleAppend written cid req =>
    obtain ⟨helection, hheartbeat, hpersist⟩ := Server.acceptEntries_deadlines env n.state req
    exact ⟨Or.inr helection, Or.inl hheartbeat, Or.inl hpersist⟩
  | heartbeatReply conn logSize cid conns resp =>
    obtain ⟨_, _, hstate⟩ := Raft.heartbeatResponse_eq n.state conn logSize resp
    simp only [hstate]
    exact .keep rfl rfl rfl
  | commit order =>
    obtain ⟨_, hstate⟩ := Raft.maybeCommitLogEntries_eq conf order n.state
    simp only [hstate]
    exact .keep rfl rfl rfl
  | electionNext req conn cid conns resp state htick hcount =>
    obtain ⟨votes, _, rfl⟩ := Raft.countVote_eq_next hcount
    exact .keep rfl rfl rfl
  | electionWon req conn cid conns resp state htick hcount =>
    obtain ⟨votes, _, _, rfl⟩ := Raft.countVote_eq_won hcount
    exact .keep rfl rfl rfl
  | appendEntry value =>
    by_cases hrole : n.state.nodeType = .leader
    · simp only [Raft.appendEntry_of_leader hrole]
      exact .keep rfl rfl rfl
    · simp only [Raft.appendEntry_of_not_leader hrole]
      exact .keep rfl rfl rfl
  | _ => exact .keep rfl rfl rfl

/-- A step that defers the next election sets its deadline. -/
theorem Node.Step.deferred (h : Node.Step conf env n action n' effect)
    (hdefers : n.Defers action) : n'.state.electionTimeout = env.now + env.electionTime := by
  rcases hdefers with ⟨req, hhandled, haccept⟩ | ⟨req, hhandled, hgrant⟩ | ⟨cid, htick, rfl⟩
  · obtain ⟨written, cid, rfl, hlistening⟩ := Node.handled_eq_some hhandled
    cases h with
    | handleAppend _ _ req' => exact (Server.acceptEntries_deadlines env n.state req').1
    | handleReject _ _ req' listener effect hlock hlistener hreject =>
      rw [hlistening] at hlistener
      cases hlistener
      rw [haccept] at hreject
      cases hreject
    | handlePing _ _ _ _ _ _ hlistener | handleRefuse _ _ _ _ _ _ hlistener
    | handleGrant _ _ _ _ _ _ hlistener =>
      rw [hlistening] at hlistener
      cases hlistener
    | skip | tickDies => simp_all
  · obtain ⟨written, cid, rfl, hlistening⟩ := Node.handled_eq_some hhandled
    cases h with
    | handleGrant => rfl
    | handleRefuse _ _ req' listener effect hlock hlistener hrefuse =>
      rw [hlistening] at hlistener
      cases hlistener
      rw [hgrant] at hrefuse
      cases hrefuse
    | handlePing _ _ _ _ _ _ hlistener | handleReject _ _ _ _ _ _ hlistener
    | handleAppend _ _ _ _ _ _ _ _ hlistener =>
      rw [hlistening] at hlistener
      cases hlistener
    | skip | tickDies => simp_all
  · cases h with
    | electionStart => rfl
    | tickDies _ _ hlock => simp [htick, Tick.holdsLock] at hlock
    | _ => simp_all

/-- The check that finds the election timeout passed is made behind the deadline. -/
theorem Node.Step.aboutToStand (h : Node.Step conf env n action n' effect)
    (hbefore : ¬ n.AboutToStand) (hafter : n'.AboutToStand) :
    n.state.electionTimeout ≤ env.now := by
  obtain ⟨hbecoming, htimedOut⟩ := not_or.1 hbefore
  cases h with
  | becoming htick hrole htime => exact htime.le
  | electionTimeout cid req conn conns htick htime => exact htime.le
  | commit order tick htick htick' =>
    rcases hafter with hafter | hafter <;> rcases htick' with rfl | rfl <;> cases hafter
  | skip | persist | clearFlag | accept | abortListener | appendEntry | handlePing | handleRefuse
  | handleGrant | handleReject | handleAppend => exact absurd hafter hbefore
  | _ => rcases hafter with hafter | hafter <;> cases hafter

/-- The end of a round sets the deadline of the next. -/
theorem Node.Step.endsRound (h : Node.Step conf env n action n' effect) (hends : n.EndsRound n') :
    n'.state.heartbeatTimeout = env.now + env.heartbeatTime := by
  obtain ⟨hbefore, hafter⟩ := hends
  cases h with
  | heartbeatEnd => rfl
  | _ => simp_all

/-- A round of heartbeats starts behind the deadline. -/
theorem Node.Step.startsRound (h : Node.Step conf env n action n' effect)
    (hstarts : n.StartsRound n') : n.state.heartbeatTimeout ≤ env.now := by
  obtain ⟨hbefore, conns, hafter⟩ := hstarts
  cases h with
  | heartbeatStart htick hrole htime => exact not_lt.1 htime
  | _ => simp_all

/-- A call of `try_persist_state` that writes the file sets the deadline of the next. -/
theorem Node.saves_persistTimeout {l : Env × Action T}
    (h : (nodeSystem conf T).step n l = some n') (hsaves : n.Saves l.1 l.2 n') :
    n'.state.persistTimeout = l.1.now + 5000 := by
  obtain ⟨env, action⟩ := l
  obtain ⟨⟨m, effect⟩, hstep, rfl⟩ := Option.map_eq_some_iff.1 h
  obtain ⟨rfl, htime, hafter⟩ := hsaves
  simp only [Node.step, Option.ite_none_left_eq_some] at hstep
  cases (Option.ite_none_right_eq_some.1 hstep.2).2
  unfold Node.tryPersist at hafter ⊢
  rw [if_pos htime] at hafter ⊢
  split at hafter
  · cases hafter
  · simp

/-! ## The timers -/

/-- The timer of elections; it fires at the check. -/
def electionTimer (conf : Config) (T : Type) : Timer (nodeSystem conf T) where
  clock := Node.clock
  deadline n := n.state.electionTimeout
  span := 150
  arms n l _ := n.Defers l.2
  fires n _ n' := ¬ n.AboutToStand ∧ n'.AboutToStand
  clock_le := nodeSystem_clock
  armed {_ l _} h harms := by
    obtain ⟨_, hstep⟩ := nodeSystem_step h
    rw [hstep.clock_eq, hstep.deferred harms]
    exact Nat.add_le_add_left l.1.election_range.1 _
  moved {_ l _} h := by
    obtain ⟨_, hstep⟩ := nodeSystem_step h
    rw [hstep.clock_eq]
    rcases hstep.deadlines.election with hkept | hset
    · exact Or.inl hkept.ge
    · exact Or.inr (hset ▸ Nat.add_le_add_left l.1.election_range.1 _)
  due h hfires := by
    obtain ⟨_, hstep⟩ := nodeSystem_step h
    rw [hstep.clock_eq]
    exact hstep.aboutToStand hfires.1 hfires.2

/-- The timer of heartbeats. -/
def heartbeatTimer (conf : Config) (T : Type) : Timer (nodeSystem conf T) where
  clock := Node.clock
  deadline n := n.state.heartbeatTimeout
  span := 5
  arms n _ n' := n.EndsRound n'
  fires n _ n' := n.StartsRound n'
  clock_le := nodeSystem_clock
  armed {_ l _} h harms := by
    obtain ⟨_, hstep⟩ := nodeSystem_step h
    rw [hstep.clock_eq, hstep.endsRound harms]
    exact Nat.add_le_add_left l.1.heartbeat_range.1 _
  moved {_ l _} h := by
    obtain ⟨_, hstep⟩ := nodeSystem_step h
    rw [hstep.clock_eq]
    rcases hstep.deadlines.heartbeat with hkept | hset
    · exact Or.inl hkept.ge
    · exact Or.inr (hset ▸ Nat.add_le_add_left l.1.heartbeat_range.1 _)
  due h hfires := by
    obtain ⟨_, hstep⟩ := nodeSystem_step h
    rw [hstep.clock_eq]
    exact hstep.startsRound hfires

/-- The timer of writes to the file. -/
def persistTimer (conf : Config) (T : Type) : Timer (nodeSystem conf T) where
  clock := Node.clock
  deadline n := n.state.persistTimeout
  span := 5000
  arms n l n' := n.Saves l.1 l.2 n'
  fires n l n' := n.Saves l.1 l.2 n'
  clock_le := nodeSystem_clock
  armed h harms := by
    obtain ⟨_, hstep⟩ := nodeSystem_step h
    rw [hstep.clock_eq, Node.saves_persistTimeout h harms]
  moved h := by
    obtain ⟨_, hstep⟩ := nodeSystem_step h
    rw [hstep.clock_eq]
    rcases hstep.deadlines.persist with hkept | hset
    · exact Or.inl hkept.ge
    · exact Or.inr hset.ge
  due h hfires := by
    obtain ⟨_, hstep⟩ := nodeSystem_step h
    rw [hstep.clock_eq]
    exact hfires.2.1.le

/-- **The timeouts hold off.**  Take any two steps of a run.  When the first hears from a
leader, grants a vote or starts an election, while the node is not about to stand, and the
second makes the node a candidate, 150 ms lie between them; 5 ms lie between the end of a
round of heartbeats and the start of another, and 5 s between two writes of the file. -/
theorem timeouts_hold_off {n₁ n₂ n₃ n₄ : Node T} {l l' : Env × Action T}
    (hfirst : (nodeSystem conf T).step n₁ l = some n₂)
    (hsteps : (nodeSystem conf T).Steps System.Always n₂ n₃)
    (hsecond : (nodeSystem conf T).step n₃ l' = some n₄) :
    (n₁.Defers l.2 → ¬ n₂.AboutToStand → n₃.Stands n₄ → n₂.clock + 150 ≤ n₄.clock) ∧
      (n₁.EndsRound n₂ → n₃.StartsRound n₄ → n₂.clock + 5 ≤ n₄.clock) ∧
      (n₁.Saves l.1 l.2 n₂ → n₃.Saves l'.1 l'.2 n₄ → n₂.clock + 5000 ≤ n₄.clock) := by
  refine ⟨fun hdefers hout hstands => ?_,
    fun hends hstarts => (heartbeatTimer conf T).gap hfirst hends hsteps hsecond hstarts,
    fun hbefore hagain => (persistTimer conf T).gap hfirst hbefore hsteps hsecond hagain⟩
  calc n₂.clock + 150
      ≤ n₃.clock := (electionTimer conf T).gap_of_enters (P := Node.AboutToStand)
        (fun _ hbefore hafter => ⟨hbefore, hafter⟩) hfirst hdefers hout hsteps hstands.1
    _ ≤ n₄.clock := nodeSystem_clock hsecond

/-- The tick task of a node goes on. -/
def advanced (n : Node Nat) (now : Nat) : Node Nat :=
  ((nodeSystem pairConf Nat).step n (.atTime now, .advance 0)).getD n

/-- An election that has started at 200 is found timed out at 400, and the node stands
again. -/
theorem timeouts_hold_off_twoElections : ∃ n₁ n₂ n₃ n₄ : Node Nat,
    n₁.Defers (.advance 0) ∧ n₃.Stands n₄ ∧ n₂.clock + 150 ≤ n₄.clock := by
  let n₁ : Node Nat := { Node.start pairConf (.atTime 0) with tick := .candidate }
  let n₂ := advanced n₁ 200
  let n₃ := advanced n₂ 400
  let n₄ := advanced n₃ 400
  have hfirst : (nodeSystem pairConf Nat).step n₁ (.atTime 200, .advance 0) = some n₂ := rfl
  have hsteps : (nodeSystem pairConf Nat).Steps System.Always n₂ n₃ :=
    .single ⟨(.atTime 400, .advance 0), trivial, rfl⟩
  have hsecond : (nodeSystem pairConf Nat).step n₃ (.atTime 400, .advance 0) = some n₄ := rfl
  have hdefers : n₁.Defers (.advance 0) := Or.inr (Or.inr ⟨0, rfl, rfl⟩)
  have hout : ¬ n₂.AboutToStand := by rintro (h | h) <;> cases h
  have hstands : n₃.Stands n₄ := ⟨Or.inr rfl, rfl⟩
  exact ⟨n₁, n₂, n₃, n₄, hdefers, hstands,
    (timeouts_hold_off hfirst hsteps hsecond).1 hdefers hout hstands⟩

end Quaso
