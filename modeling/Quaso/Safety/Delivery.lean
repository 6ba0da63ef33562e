import Quaso.Handlers.Outcome
import Quaso.Leader.Commit
import Quaso.Raft.Disk

/-!
# In order, and once

Two loops in two tasks send entries to the application, `append_entries` on a
follower and `maybe_commit_log_entries` on a leader.  Both start at the commit
index and move it to where they end.

* `Advances` — a stretch of entries sent and the commit index moved behind it.
* `outboxSystem` — a node from its start, with the entries that its calls sent,
  of those calls that returned.
* `delivered_in_order` — these entries are numbered `0, 1, …` up to the commit index,
  each read from the log the node then had, whatever requests arrive and whatever
  roles the node takes in between.
* `SentLog.steps` — while the log keeps what is below `c`, the entries sent are the
  log's.
-/

namespace Quaso

variable {T : Type}

/-! ## One call -/

/-- The entries from one commit index to a later one have been sent. -/
structure Advances (log : List (LogEntry T)) (start stop : Nat) (sent : List (Nat × LogEntry T)) :
    Prop where
  le : start ≤ stop
  sent : sent = entriesBetween log start stop
  inside : start < stop → stop ≤ log.length

namespace Advances

variable {log : List (LogEntry T)} {start stop : Nat} {sent : List (Nat × LogEntry T)}

/-- A call that sends nothing leaves the commit index alone. -/
theorem stay (log : List (LogEntry T)) (start : Nat) : Advances log start start [] :=
  ⟨le_rfl, by simp [entriesBetween], fun h => absurd h (lt_irrefl _)⟩

/-- A delivery loop that has run to its end. -/
theorem of_finished (hlt : start < stop) (h : (deliverRange log start stop).2 = true) :
    Advances log start stop (deliverRange log start stop).1 := by
  have hle := (deliverRange_finished_iff hlt).1 h
  exact ⟨hlt.le, by rw [deliverRange_eq hlt hle], fun _ => hle⟩

/-- The entries sent have the indices in between, in order. -/
theorem map_fst (h : Advances log start stop sent) :
    sent.map Prod.fst = List.range' start (stop - start) := by
  rw [h.sent]
  rcases h.le.eq_or_lt with rfl | hlt
  · simp [entriesBetween]
  · exact map_fst_entriesBetween (h.inside hlt)

/-- Every entry sent is the log's at its index. -/
theorem mem (h : Advances log start stop sent) {p : Nat × LogEntry T} (hp : p ∈ sent) :
    start ≤ p.1 ∧ log[p.1]? = some p.2 := by
  rcases h.le.eq_or_lt with rfl | hlt
  · rw [h.sent] at hp
    simp [entriesBetween] at hp
  · have hrange : sent = (deliverRange log start stop).1 := by
      rw [h.sent, deliverRange_eq hlt (h.inside hlt)]
    obtain ⟨hle, _, hentry⟩ := deliverRange_sound (hrange ▸ hp)
    exact ⟨hle, hentry⟩

end Advances

/-- A commit that returns advances from the old commit index to the new one. -/
theorem Raft.maybeCommitLogEntries_advances {conf : Config} {order : List (Nat × Nat)}
    {state : State T} (h : (maybeCommitLogEntries conf order state).returned = true) :
    Advances state.log state.commitedIndex
      (maybeCommitLogEntries conf order state).state.commitedIndex
      (maybeCommitLogEntries conf order state).sent := by
  rcases maybeCommitLogEntries_outcome conf order state with
    heq | ⟨index, freq, _, hlt, ⟨hfin, heq⟩ | ⟨_, heq⟩⟩
  · rw [heq]
    exact .stay _ _
  · rw [heq]
    exact .of_finished hlt hfin
  · rw [heq] at h
    cases h

/-- A commit that panics leaves the commit index alone. -/
theorem Raft.maybeCommitLogEntries_of_panics {conf : Config} {order : List (Nat × Nat)}
    {state : State T} (h : (maybeCommitLogEntries conf order state).returned = false) :
    (maybeCommitLogEntries conf order state).state.commitedIndex = state.commitedIndex := by
  rcases maybeCommitLogEntries_outcome conf order state with
    heq | ⟨index, freq, _, _, ⟨_, heq⟩ | ⟨_, heq⟩⟩
  · rw [heq]
  · rw [heq] at h
    cases h
  · rw [heq]

/-- A request that is answered advances from the old commit index to the new one, over
the merged log. -/
theorem Server.appendEntries_advances {nodeId : NodeId} {env : Env} {state : State T}
    {req : AppendEntriesRequest T}
    (h : (appendEntries nodeId env state req).response.isSome = true) :
    Advances (appendEntries nodeId env state req).state.log state.commitedIndex
      (appendEntries nodeId env state req).state.commitedIndex
      (appendEntries nodeId env state req).sent := by
  cases haccept : accepts state req with
  | false =>
    rw [appendEntries_of_stopped nodeId env haccept]
    exact .stay _ _
  | true =>
    cases hover : overruns state req with
    | true =>
      rw [appendEntries_of_overruns nodeId env hover] at h
      cases h
    | false =>
      rw [appendEntries_of_succeeds nodeId env haccept hover]
      simp only [acceptEntries_log]
      by_cases hlt : state.commitedIndex < req.leaderCommit
      · rw [Nat.max_eq_right hlt.le]
        refine .of_finished hlt ((deliverRange_finished_iff hlt).2 ?_)
        rw [length_spliceEntries]
        by_contra hlength
        simp [overruns_iff.2 ⟨haccept, hlt, not_le.1 hlength⟩] at hover
      · rw [Nat.max_eq_left (not_lt.1 hlt), deliverRange, Nat.sub_eq_zero_of_le (not_lt.1 hlt)]
        exact .stay _ _

/-- A request on which the handler panics leaves the commit index alone. -/
theorem Server.appendEntries_of_panics {nodeId : NodeId} {env : Env} {state : State T}
    {req : AppendEntriesRequest T}
    (h : (appendEntries nodeId env state req).response.isSome = false) :
    (appendEntries nodeId env state req).state.commitedIndex = state.commitedIndex := by
  cases haccept : accepts state req with
  | false => rw [appendEntries_of_stopped nodeId env haccept]
  | true =>
    cases hover : overruns state req with
    | true =>
      rw [appendEntries_of_overruns nodeId env hover]
      simp
    | false =>
      rw [appendEntries_of_succeeds nodeId env haccept hover] at h
      cases h

/-! ## One step of a node -/

namespace Node

variable {conf : Config} {n n' : Node T} {env : Env} {action : Action T} {effect : Effect T}

/-- The entries that a step sends. -/
def sends (conf : Config) (n : Node T) (l : Env × Action T) : List (Nat × LogEntry T) :=
  match l.2, n.handled l.2 with
  | .commit order, _ => (Raft.maybeCommitLogEntries conf order n.state).sent
  | _, some (.appendEntries req) => (Server.appendEntries conf.nodeId l.1 n.state req).sent
  | _, _ => []

/-- Whether the call that a step makes returns, if it makes one that may send entries. -/
def callReturns (conf : Config) (n : Node T) (l : Env × Action T) : Bool :=
  match l.2, n.handled l.2 with
  | .commit order, _ => (Raft.maybeCommitLogEntries conf order n.state).returned
  | _, some (.appendEntries req) =>
    (Server.appendEntries conf.nodeId l.1 n.state req).response.isSome
  | _, _ => true

/-- What a step does to the commit index and to the entries sent. -/
structure Delivers (conf : Config) (n : Node T) (l : Env × Action T) (n' : Node T) : Prop where
  delivered : n'.delivered = n.delivered ++ n.sends conf l
  returned : n.callReturns conf l = true → Advances n'.state.log n.state.commitedIndex
    n'.state.commitedIndex (n.sends conf l)
  panicked : n.callReturns conf l = false → n'.state.commitedIndex = n.state.commitedIndex

/-- The end of the listener's loop body is about the listener only. -/
theorem respond_state (cid : Nat) (written : Bool) (resp : Response) (n : Node T) :
    (n.respond cid written resp).1.state = n.state ∧
      (n.respond cid written resp).1.delivered = n.delivered := by
  unfold respond
  cases written <;> exact ⟨rfl, rfl⟩

theorem handle_appendEntries (conf : Config) (env : Env) (cid : Nat)
    (req : AppendEntriesRequest T) (written : Bool) (n : Node T) :
    (n.handle conf env cid (.appendEntries req) written).1.state
        = (Server.appendEntries conf.nodeId env n.state req).state ∧
      (n.handle conf env cid (.appendEntries req) written).1.delivered
        = n.delivered ++ (Server.appendEntries conf.nodeId env n.state req).sent := by
  unfold handle
  simp only
  split
  · exact respond_state cid written _ _
  · exact ⟨rfl, rfl⟩

/-- A handled append request sends what its handler sends. -/
theorem delivers_appendEntries {written : Bool} {cid : Nat} {req : AppendEntriesRequest T}
    (hlistener : n.listener = .handling cid (.appendEntries req))
    (h : n.step conf env (.handle written) = some (n', effect)) :
    Delivers conf n (env, .handle written) n' := by
  have hhandled : n.handled (.handle written) = some (.appendEntries req) := by
    simp [handled, hlistener]
  have heq : { n with clock := env.now }.handle conf env cid (.appendEntries req) written
      = (n', effect) := by
    simp only [step, hlistener, Option.ite_none_left_eq_some] at h
    exact Option.some.inj h.2.2
  have hdone := handle_appendEntries conf env cid req written { n with clock := env.now }
  rw [heq] at hdone
  have hstate : n'.state = (Server.appendEntries conf.nodeId env n.state req).state := hdone.1
  refine ⟨?_, fun hret => ?_, fun hret => ?_⟩
  · simpa only [sends, hhandled] using hdone.2
  · simp only [callReturns, hhandled] at hret
    simp only [sends, hhandled]
    rw [hstate]
    exact Server.appendEntries_advances hret
  · simp only [callReturns, hhandled] at hret
    rw [hstate]
    exact Server.appendEntries_of_panics hret

/-- A commit sends what it delivers. -/
theorem delivers_commit {order : List (Nat × Nat)}
    (h : Step conf env n (.commit order) n' effect) :
    Delivers conf n (env, .commit order) n' := by
  cases h with
  | commit _ tick htick htick' horder =>
    refine ⟨rfl, fun hret => ?_, fun hret => ?_⟩
    · have hadvances := Raft.maybeCommitLogEntries_advances hret
      simpa [sends] using hadvances
    · exact Raft.maybeCommitLogEntries_of_panics hret
  | skip _ _ haction => simp at haction
  | tickDies _ haction => simp at haction

/-- Every other step sends nothing and leaves the commit index alone. -/
theorem delivers_other (h : Step conf env n action n' effect)
    (hcommit : ∀ order, action ≠ .commit order)
    (hhandled : ∀ req, n.handled action ≠ some (.appendEntries req)) :
    Delivers conf n (env, action) n' := by
  have hsends : n.sends conf (env, action) = [] := by
    unfold sends
    split
    · rename_i order haction
      exact absurd haction (hcommit order)
    · rename_i req hreq _
      exact absurd hreq (hhandled req)
    · rfl
  have hsame : n'.delivered = n.delivered ∧ n'.state.commitedIndex = n.state.commitedIndex := by
    cases h.logMove with
    | keep _ hcommit hdelivered => exact ⟨hdelivered, hcommit⟩
    | append _ _ hstate hdelivered => exact ⟨hdelivered, by rw [hstate]⟩
    | commit order haction => exact absurd haction (hcommit order)
    | accept _ req _ _ _ _ hreq => exact absurd hreq (hhandled req)
  refine ⟨?_, fun _ => ?_, fun _ => hsame.2⟩
  · rw [hsends, List.append_nil, hsame.1]
  · rw [hsends, hsame.2]
    exact .stay _ _

/-- **Every step delivers in order.** -/
theorem step_delivers (h : n.step conf env action = some (n', effect)) :
    Delivers conf n (env, action) n' := by
  by_cases hcommit : ∃ order, action = .commit order
  · obtain ⟨order, rfl⟩ := hcommit
    exact delivers_commit (step_sound h)
  · cases hhandled : n.handled action with
    | none =>
      exact delivers_other (step_sound h) (not_exists.1 hcommit) (by simp [hhandled])
    | some req =>
      cases req with
      | appendEntries req =>
        cases action with
        | handle written =>
          unfold handled at hhandled
          simp only at hhandled
          split at hhandled
          · rename_i cid _ hlistener
            exact delivers_appendEntries (hlistener.trans (by rw [Option.some.inj hhandled])) h
          · cases hhandled
        | _ => cases hhandled
      | _ => exact delivers_other (step_sound h) (not_exists.1 hcommit) (by simp [hhandled])

end Node

/-! ## Runs -/

/-- A node, and what its calls have sent since its start, of those calls that returned. -/
structure Outbox (T : Type) where
  node : Node T
  sent : List (Nat × LogEntry T)

/-- A node from its start, whatever was in its file. -/
def outboxSystem (conf : Config) (T : Type) : System (Outbox T) (Env × Action T) where
  Init := fun o => ∃ env persistent, o = ⟨Node.boot conf env persistent, []⟩
  step := fun o l => ((nodeSystem conf T).step o.node l).map fun n' =>
    ⟨n', o.sent ++ if o.node.callReturns conf l then o.node.sends conf l else []⟩

section Runs

variable {conf : Config} {o o' : Outbox T} {l : Env × Action T}

/-- The call of the step returns. -/
def CallReturns (conf : Config) (o : Outbox T) (l : Env × Action T) : Prop :=
  o.node.callReturns conf l = true

instance (conf : Config) (o : Outbox T) (l : Env × Action T) : Decidable (CallReturns conf o l) :=
  inferInstanceAs (Decidable (_ = true))

/-- **Every step continues where the last one ended.** -/
theorem outbox_step (h : (outboxSystem conf T).step o l = some o') :
    ∃ sent, o'.sent = o.sent ++ sent ∧
      Advances o'.node.state.log o.node.state.commitedIndex o'.node.state.commitedIndex sent ∧
      (CallReturns conf o l → o'.node.delivered = o.node.delivered ++ sent) := by
  obtain ⟨n', hn', rfl⟩ := Option.map_eq_some_iff.1 h
  obtain ⟨⟨n, effect⟩, hstep, rfl⟩ := Option.map_eq_some_iff.1 hn'
  have hdelivers := Node.step_delivers hstep
  cases hret : o.node.callReturns conf l with
  | true => exact ⟨_, rfl, hdelivers.returned hret, fun _ => hdelivers.delivered⟩
  | false =>
    refine ⟨[], by simp, ?_, fun hreturns => absurd hreturns (by simp [CallReturns, hret])⟩
    rw [hdelivers.panicked hret]
    exact .stay _ _

/-- The entries sent are numbered up to the commit index. -/
def Numbered (o : Outbox T) : Prop :=
  o.sent.map Prod.fst = List.range o.node.state.commitedIndex

theorem Numbered.step (ho : Numbered o) (h : (outboxSystem conf T).step o l = some o') :
    Numbered o' := by
  obtain ⟨sent, hsent, hadvances, _⟩ := outbox_step h
  have hle := hadvances.le
  unfold Numbered at ho ⊢
  rw [hsent, List.map_append, ho, hadvances.map_fst, List.range_eq_range', List.range_eq_range']
  have happend := List.range'_append_1 (s := 0) (m := o.node.state.commitedIndex)
    (n := o'.node.state.commitedIndex - o.node.state.commitedIndex)
  rw [Nat.zero_add, Nat.add_sub_cancel' hle] at happend
  exact happend

theorem Numbered.steps {ok : Outbox T → Env × Action T → Prop} (ho : Numbered o)
    (h : (outboxSystem conf T).Steps ok o o') : Numbered o' :=
  h.invariant (fun _ _ _ ho _ hstep => ho.step hstep) ho

/-- If all calls returned, nothing else was sent. -/
theorem delivered_eq_sent (ho : o.node.delivered = o.sent)
    (h : (outboxSystem conf T).Steps (CallReturns conf) o o') : o'.node.delivered = o'.sent := by
  induction h with
  | refl => exact ho
  | tail _ hnext ih =>
    obtain ⟨l, hret, hstep⟩ := hnext
    obtain ⟨sent, hsent, _, hdelivered⟩ := outbox_step hstep
    rw [hsent, hdelivered hret, ih]

end Runs

section Kept

variable {conf : Config} {o o' : Outbox T} {l : Env × Action T} {c : Nat}

/-- The step neither removes nor replaces an entry below `c`. -/
def KeepsBelow (conf : Config) (c : Nat) (o : Outbox T) (l : Env × Action T) : Prop :=
  ∀ o' ∈ (outboxSystem conf T).step o l, o.node.state.log.take c <+: o'.node.state.log

instance instDecidableKeepsBelow [DecidableEq T] (conf : Config) (c : Nat) (o : Outbox T)
    (l : Env × Action T) : Decidable (KeepsBelow conf c o l) :=
  inferInstanceAs (Decidable (∀ o' ∈ (outboxSystem conf T).step o l,
    o.node.state.log.take c <+: o'.node.state.log))

/-- What is below `c` at the start of a run is there at its end. -/
theorem keepsBelow_steps (h : (outboxSystem conf T).Steps (KeepsBelow conf c) o o') :
    o.node.state.log.take c <+: o'.node.state.log := by
  induction h with
  | refl => exact List.take_prefix c _
  | @tail m m' _ hnext ih =>
    obtain ⟨l, hkeeps, hstep⟩ := hnext
    have hbelow : o.node.state.log.take c <+: m.node.state.log.take c := by
      rw [List.prefix_take_iff]
      exact ⟨ih, List.length_take_le c _⟩
    exact hbelow.trans (hkeeps m' hstep)

/-- The entries sent are those of the log below the commit index. -/
structure SentLog (o : Outbox T) : Prop where
  inside : o.node.state.commitedIndex ≤ o.node.state.log.length
  sent : o.sent.map Prod.snd = o.node.state.log.take o.node.state.commitedIndex

/-- The next stretch is sent from a log that begins as before. -/
theorem SentLog.step (ho : SentLog o) (h : (outboxSystem conf T).step o l = some o')
    (hkeeps : KeepsBelow conf c o l) (hle : o.node.state.commitedIndex ≤ c) : SentLog o' := by
  obtain ⟨sent, hsent, hadvances, _⟩ := outbox_step h
  obtain ⟨rest, hrest⟩ := hkeeps o' h
  have hinside := ho.inside
  have hbelow : o.node.state.log.take o.node.state.commitedIndex
      = o'.node.state.log.take o.node.state.commitedIndex := by
    rw [← hrest, List.take_append_of_le_length (by rw [List.length_take]; omega),
      List.take_take, Nat.min_eq_left hle]
  have hlen : o.node.state.commitedIndex ≤ o'.node.state.log.length := by
    have := congrArg List.length hbelow
    simp only [List.length_take] at this
    omega
  have hstop : o'.node.state.commitedIndex ≤ o'.node.state.log.length := by
    rcases hadvances.le.eq_or_lt with heq | hlt
    · exact heq ▸ hlen
    · exact hadvances.inside hlt
  have hcut : (o'.node.state.log.take o'.node.state.commitedIndex).take o.node.state.commitedIndex
      = o'.node.state.log.take o.node.state.commitedIndex := by
    rw [List.take_take, Nat.min_eq_left hadvances.le]
  refine ⟨hstop, ?_⟩
  rw [hsent, List.map_append, ho.sent, hadvances.sent, map_snd_entriesBetween hstop, hbelow,
    ← hcut, List.take_append_drop]

/-- **What has been sent is the log.**  While the log keeps what is below `c`, the entries
sent up to a commit index not above `c` are the log's, in its order. -/
theorem SentLog.steps (ho : SentLog o) (h : (outboxSystem conf T).Steps (KeepsBelow conf c) o o')
    (hle : o'.node.state.commitedIndex ≤ c) : SentLog o' := by
  induction h with
  | refl => exact ho
  | @tail m m' hsteps hnext ih =>
    obtain ⟨l, hkeeps, hstep⟩ := hnext
    obtain ⟨_, _, hadvances, _⟩ := outbox_step hstep
    have hbefore := hadvances.le.trans hle
    exact (ih hbefore).step hstep hkeeps hbefore

/-- A node that has committed nothing has sent nothing. -/
theorem SentLog.start {n₀ : Node T} (hstart : n₀.state.commitedIndex = 0) :
    SentLog (⟨n₀, []⟩ : Outbox T) :=
  ⟨by simp [hstart], by simp [hstart]⟩

end Kept

end Quaso
