import Quaso.Leader.Tenure
import Quaso.Safety.CrashPoint
import Quaso.Safety.Delivery
import Quaso.Safety.Faults
import Quaso.Safety.Network
import Quaso.Safety.Prefix

/-!
# Calls that return

A slice or an index out of range panics, and a panic ends the task it happens in.
Three operations index the log: `maybe_send_heartbeat`, `maybe_commit_log_entries`
and the delivery loop of `append_entries`; `persist` slices it at the commit index.

* `shortAppend`, `ReturnOk` — the steps that keep every entry of every log.
* `Cluster.ReturnSound` — what then holds: a leader's maps are within its log, a
  request covers what it announces as committed, and a node has delivered what it
  has committed.
* `delivered_log` — in every run of such steps each node has delivered exactly the
  committed part of its log, in order and once.
* `tasks_survive` — the only panics of such a run: a broken connection, and a request
  that announces position 0 to a node with entries.
-/

namespace Quaso

variable {T : Type}

/-- An accepted request ends inside the log, which it truncates. -/
def shortAppend (n : Node T) (action : Action T) : Bool :=
  match n.handled action with
  | some (.appendEntries req) =>
    Server.accepts n.state req &&
      decide (req.entries.length + req.prevLogIndex < n.state.log.length)
  | _ => false

/-- The steps that keep every entry, and what the votes were counted for. -/
def ReturnOk (n : Node T) (action : Action T) : Prop :=
  GapOk n action ∧ shortAppend n action = false

instance (n : Node T) (action : Action T) : Decidable (ReturnOk n action) :=
  inferInstanceAs (Decidable (_ ∧ _))

variable {conf : Config} {env : Env} {n n' : Node T} {action : Action T} {effect : Effect T}

/-- An accepted request reaches the end of the log. -/
theorem le_of_shortAppend (h : shortAppend n action = false) {req : AppendEntriesRequest T}
    (hhandled : n.handled action = some (.appendEntries req))
    (haccept : Server.accepts n.state req = true) :
    n.state.log.length ≤ req.entries.length + req.prevLogIndex := by
  simpa [shortAppend, hhandled, haccept] using h

/-- What is kept entire is kept where it is committed. -/
theorem ReturnOk.prefixOk (h : ReturnOk n action) : PrefixOk n action := by
  unfold PrefixOk cutsCommitted
  split
  · rename_i req hhandled
    cases haccept : Server.accepts n.state req with
    | false => rfl
    | true => simp [not_lt.2 (le_of_shortAppend h.2 hhandled haccept)]
  · rfl

/-- Logs that are only extended are not truncated. -/
theorem ExtendOk.returnOk (h : ExtendOk n action) : ReturnOk n action := by
  refine ⟨h.1.2, ?_⟩
  have hshift := h.2
  unfold shortAppend
  split
  · rename_i req hhandled
    cases haccept : Server.accepts n.state req with
    | false => rfl
    | true =>
      have hend : req.prevLogIndex = n.state.log.length := by
        simpa [shiftedAppend, hhandled, haccept] using hshift
      simp [hend]
  · rfl

/-- Where no request truncates a log, logs grow at their end. -/
theorem Node.Step.log_isPrefix (h : Node.Step conf env n action n' effect)
    (hshort : shortAppend n action = false) : n.state.log <+: n'.state.log := by
  cases h.logMove with
  | keep hlog => exact hlog ▸ List.prefix_rfl
  | append value hrole hstate =>
    rw [hstate]
    exact List.prefix_append _ _
  | commit order haction horder hstate =>
    rw [hstate]
    simp
  | accept cid req commit sent hlock hlistener hhandled haccept hstate =>
    have hlen := le_of_shortAppend hshort hhandled haccept
    rw [hstate]
    simp only [Server.acceptEntries_log]
    rw [Server.spliceEntries, if_neg (not_lt.2 hlen)]
    exact List.prefix_append _ _

/-! ## One call -/

/-- A request that covers what it announces as committed does not make the delivery loop
run over the end of a log it does not truncate. -/
theorem Server.overruns_of_covers {state : State T} {req : AppendEntriesRequest T}
    (hcovers : req.leaderCommit ≤ req.prevLogIndex + req.entries.length)
    (hlen : accepts state req = true → state.log.length ≤ req.entries.length + req.prevLogIndex) :
    overruns state req = false := by
  rw [← Bool.not_eq_true, overruns_iff]
  rintro ⟨haccept, _, hlength⟩
  have hle := prevLogIndex_le_of_accepts haccept
  rw [mergedLength, if_neg (not_lt.2 (hlen haccept))] at hlength
  omega

/-- What makes the calls of a node return: a leader's maps are within its log, and a
request that the listener has read covers what it announces. -/
structure Node.Bounded (conf : Config) (n : Node T) : Prop where
  indexed : n.state.nodeType = .leader → Indexed conf n.state
  covers : ∀ cid req, n.listener = .handling cid (.appendEntries req) →
    req.leaderCommit ≤ req.prevLogIndex + req.entries.length

namespace Node.Bounded

/-- A commit returns. -/
theorem commit_returned (h : n.Bounded conf) {order : List (Nat × Nat)}
    (horder : order.Perm (Raft.frequencyPairs n.state)) :
    (Raft.maybeCommitLogEntries conf order n.state).returned = true := by
  by_cases hrole : n.state.nodeType = .leader
  · exact (h.indexed hrole).commit_returned horder
  · simp [Raft.maybeCommitLogEntries, hrole]

/-- The delivery loop of a handler ends inside the log. -/
theorem overruns (h : n.Bounded conf) {req : AppendEntriesRequest T}
    (hhandled : n.handled action = some (.appendEntries req))
    (hshort : shortAppend n action = false) : Server.overruns n.state req = false := by
  obtain ⟨_, cid, _, hlistener⟩ := Node.handled_eq_some hhandled
  exact Server.overruns_of_covers (h.covers cid req hlistener) (le_of_shortAppend hshort hhandled)

/-- A call that does not return has sent nothing. -/
theorem sends_of_panics (h : n.Bounded conf) (hstep : Node.Step conf env n action n' effect)
    (hshort : shortAppend n action = false)
    (hpanics : n.callReturns conf (env, action) = false) : n.sends conf (env, action) = [] := by
  unfold Node.callReturns at hpanics
  unfold Node.sends
  split at hpanics
  · rename_i order haction
    cases haction
    have horder : order.Perm (Raft.frequencyPairs n.state) := by
      cases hstep with
      | commit _ _ _ _ horder => exact horder
      | skip _ _ haction => simp at haction
      | tickDies _ haction => simp at haction
    rw [h.commit_returned horder] at hpanics
    cases hpanics
  · rename_i req hhandled _
    change (Server.appendEntries conf.nodeId env n.state req).sent = []
    cases haccept : Server.accepts n.state req with
    | false => rw [Server.appendEntries_of_stopped conf.nodeId env haccept]
    | true =>
      rw [Server.appendEntries_of_succeeds conf.nodeId env haccept
        (h.overruns hhandled hshort)] at hpanics
      cases hpanics
  · cases hpanics

/-- **A step delivers what it commits**, whether its call returns or not. -/
theorem outbox_step (h : n.Bounded conf) (hstep : n.step conf env action = some (n', effect))
    (hshort : shortAppend n action = false) :
    (outboxSystem conf T).step ⟨n, n.delivered⟩ (env, action) = some ⟨n', n'.delivered⟩ := by
  have hnode : (nodeSystem conf T).step n (env, action) = some n' := by
    simp [nodeSystem, hstep]
  have hdelivered := (Node.step_delivers hstep).delivered
  simp only [outboxSystem, hnode, Option.map_some]
  cases hreturns : n.callReturns conf (env, action) with
  | true => simp [hdelivered]
  | false => simp [hdelivered, h.sends_of_panics (Node.step_sound hstep) hshort hreturns]

end Node.Bounded

/-! ## Runs of a cluster -/

namespace Cluster

variable {m : Nat} {C : ClusterConfig m} {s s' : Cluster C T} {l : Label m T}

/-- Leaders have their maps, requests cover what they announce, and what is committed has
been delivered. -/
structure ReturnSound (s : Cluster C T) : Prop where
  indexed : ∀ i, (s.nodes i).state.nodeType = .leader → Indexed (C.conf i) (s.nodes i).state
  covers : ∀ cid i dst req, s.Carries cid i dst (.appendEntries req) →
    req.leaderCommit ≤ req.prevLogIndex + req.entries.length
  numbered : ∀ i, Numbered ⟨s.nodes i, (s.nodes i).delivered⟩
  sent : ∀ i, SentLog ⟨s.nodes i, (s.nodes i).delivered⟩

namespace ReturnSound

theorem start (C : ClusterConfig m) (T : Type) (boot : Fin m → Env) :
    ReturnSound (Cluster.start C T boot) where
  indexed := by
    intro i hrole
    cases hrole
  covers := by
    rintro cid i dst req ⟨c, hget, _⟩
    cases hget
  numbered := fun _ => rfl
  sent := fun _ => SentLog.start rfl

theorem bounded (hr : ReturnSound s) (hnet : NetworkSound s) (i : Fin m) :
    (s.nodes i).Bounded (C.conf i) where
  indexed := hr.indexed i
  covers := fun cid req hlistener =>
    let ⟨j, hcarries⟩ := hnet.handling i cid _ hlistener
    hr.covers cid j _ req hcarries

section Step

variable (hm : s.Moves s' l action effect) (hr : ReturnSound s)
  (hphase : ∀ i, (s.nodes i).PhaseSound (C.conf i))

include hm hr hphase

/-- A node that leads after a step was in office before it, or has just taken it. -/
theorem step_indexed (i : Fin m) (hrole : (s'.nodes i).state.nodeType = .leader) :
    Indexed (C.conf i) (s'.nodes i).state := by
  by_cases hi : i = l.node
  · subst hi
    rcases hm.acting.leader_cases hrole with ⟨hold, _⟩ | ⟨req, log, htick, _⟩
    · have hoffice : InOffice (C.conf l.node) (s.nodes l.node) :=
        ⟨hold, hphase _, hr.indexed _ hold⟩
      exact (hoffice.step hm.acting hrole).indexed
    · exact ((hphase _).takesOffice hm.acting htick hrole).inOffice.indexed
  · rw [hm.others i hi] at hrole ⊢
    exact hr.indexed i hrole

/-- A request that is sent carries the log up to its end, and the commit index is within
the log. -/
theorem step_covers (cid : Nat) (i : Fin m) (dst : Addr) (req : AppendEntriesRequest T)
    (hcarries : s'.Carries cid i dst (.appendEntries req)) :
    req.leaderCommit ≤ req.prevLogIndex + req.entries.length := by
  rcases hm.carries_cases hcarries with hold | ⟨rfl, rfl⟩
  · exact hr.covers cid i dst req hold
  · have hacting := hm.acting
    obtain ⟨_, ⟨q, conns, _, _, hreq⟩ | ⟨q, conns, htick, hbuilt, hreq⟩⟩ := hacting.send_cases
    · cases hreq
    · cases hreq
      have hrole := ((hphase l.node).at_tick htick).1
      have hoffice : InOffice (C.conf l.node) (s.nodes l.node) :=
        ⟨hrole, hphase _, hr.indexed _ hrole⟩
      rw [(hoffice.sends hacting).length, (Raft.heartbeatRequest_eq_some hbuilt).2.2.1]
      exact (hr.sent l.node).inside

theorem step (hnet : NetworkSound s) (hok : ReturnOk (s.nodes l.node) action)
    (hl : (clusterSystem C T).step s l = some s') : ReturnSound s' := by
  obtain ⟨effect', hstep⟩ := hm.node_step hl
  have hout := (hr.bounded hnet l.node).outbox_step hstep hok.2
  have hkeeps : KeepsBelow (C.conf l.node) (s.nodes l.node).state.commitedIndex
      ⟨s.nodes l.node, (s.nodes l.node).delivered⟩ (l.env, action) := by
    intro o' ho'
    obtain rfl := Option.some.inj (hout.symm.trans ho')
    exact (List.take_prefix _ _).trans (hm.acting.log_isPrefix hok.2)
  refine ⟨step_indexed hm hr hphase, step_covers hm hr hphase, fun i => ?_, fun i => ?_⟩
  · by_cases hi : i = l.node
    · subst hi
      exact (hr.numbered _).step hout
    · rw [hm.others i hi]
      exact hr.numbered i
  · by_cases hi : i = l.node
    · subst hi
      exact (hr.sent _).step hout hkeeps le_rfl
    · rw [hm.others i hi]
      exact hr.sent i

end Step

theorem of_reachable {ok : Node T → Action T → Prop} (hok : ∀ n action, ok n action →
    ReturnOk n action) (h : (clusterSystem C T).Reachable (Lift ok) s) : ReturnSound s := by
  refine h.invariant (I := ReturnSound) ?_ ?_
  · rintro s ⟨boot, rfl⟩
    exact start C T boot
  · intro s l s' hreach hr hlift hl
    obtain ⟨action, effect, hm⟩ := Cluster.step_cases hl
    exact hr.step hm (.of_reachable (fun n a h => (hok n a h).1) hreach) (.of_reachable hreach)
      (hok _ _ (hlift action hm.resolved)) hl

/-- What a node has delivered at an index below its commit index. -/
theorem delivered_getElem? (hr : ReturnSound s) {i : Fin m} {k : Nat}
    (hk : k < (s.nodes i).state.commitedIndex) :
    ∃ e, (s.nodes i).state.log[k]? = some e ∧ (s.nodes i).delivered[k]? = some (k, e) := by
  have hnumbered := congrArg (·[k]?) (hr.numbered i)
  have hsent := congrArg (·[k]?) (hr.sent i).sent
  simp only [List.getElem?_map, List.getElem?_range hk] at hnumbered
  simp only [List.getElem?_map, List.getElem?_take_of_lt hk] at hsent
  obtain ⟨⟨k', e⟩, hget, rfl⟩ := Option.map_eq_some_iff.1 hnumbered
  rw [hget] at hsent
  exact ⟨e, hsent.symm, hget⟩

end ReturnSound
end Cluster

/-! ## What is delivered -/

section Delivered

variable {m : Nat} {C : ClusterConfig m} {s : Cluster C T}

/-- **What is committed is delivered.**  In every run in which no accepted request truncates
a log, and no handler touches an election that is counted, each node has delivered exactly
the committed part of its log: one entry for each index below the commit index, in order,
and the one the log has there now. -/
theorem delivered_log (h : (clusterSystem C T).Reachable (Lift ReturnOk) s) (i : Fin m) :
    (s.nodes i).state.commitedIndex ≤ (s.nodes i).state.log.length ∧
      (s.nodes i).delivered.map Prod.fst = List.range (s.nodes i).state.commitedIndex ∧
      (s.nodes i).delivered.map Prod.snd
        = (s.nodes i).state.log.take (s.nodes i).state.commitedIndex := by
  have hr : s.ReturnSound := .of_reachable (fun _ _ hok => hok) h
  exact ⟨(hr.sent i).inside, hr.numbered i, (hr.sent i).sent⟩

/-- The leader of two nodes has committed one of two entries. -/
theorem delivered_log_replicateOne : ∃ s : Cluster duo Nat,
    (s.nodes 0).state.log = [⟨7, 1⟩, ⟨8, 1⟩] ∧ (s.nodes 0).state.commitedIndex = 1 ∧
      (s.nodes 0).delivered.map Prod.snd
        = (s.nodes 0).state.log.take (s.nodes 0).state.commitedIndex := by
  obtain ⟨s, hs, hlog, hcommit⟩ := System.exec_any (clusterSystem duo Nat) (Lift ReturnOk)
    (.start₀ duo Nat) replicateOne
    (P := fun s => (s.nodes 0).state.log = [⟨7, 1⟩, ⟨8, 1⟩] ∧ (s.nodes 0).state.commitedIndex = 1)
    (by decide +kernel)
  exact ⟨s, hlog, hcommit, (delivered_log ⟨_, Cluster.init_start₀ duo Nat, hs⟩ 0).2.2⟩

end Delivered

/-! ## What panics -/

/-- A connection breaks while a task of the node uses it, or brings bytes that do not
decode. -/
def Action.breaks : Action T → Bool
  | .appendAnswer .undecodable | .appendAnswer .writeFailed | .voteAnswer .writeFailed
  | .handle false | .abortListener => true
  | _ => false

/-- The handler of a request that announces position 0 runs on a node with entries. -/
def zeroAppend (n : Node T) (action : Action T) : Bool :=
  match n.handled action with
  | some (.appendEntries req) => Server.underflows n.state req
  | _ => false

/-- The steps in which neither happens. -/
def Spared (n : Node T) (action : Action T) : Prop :=
  action.breaks = false ∧ zeroAppend n action = false

instance (n : Node T) (action : Action T) : Decidable (Spared n action) :=
  inferInstanceAs (Decidable (_ ∧ _))

namespace Node.Alive

/-- The commit index is where `persist` can slice the log. -/
theorem tryPersist (h : n.Alive) (hinside : n.state.commitedIndex ≤ n.state.log.length) :
    (n.tryPersist env).Alive := by
  unfold Node.tryPersist
  simp only [PersistentState.persist_of_le hinside]
  split <;> exact ⟨h.tick, h.listener⟩

theorem sendHeartbeat (h : n.Alive) : (n.sendHeartbeat conf env).Alive := by
  unfold Node.sendHeartbeat
  split
  · exact h
  · split
    · exact h
    · exact ⟨by simp, h.listener⟩

theorem transitionCandidate (h : n.Alive) : (n.transitionCandidate env).Alive := by
  unfold Node.transitionCandidate
  split
  · exact h
  · split
    · exact ⟨by simp, h.listener⟩
    · exact h

theorem commit (h : n.Alive) (hb : n.Bounded conf) {order : List (Nat × Nat)}
    (horder : order.Perm (Raft.frequencyPairs n.state)) : (n.commit conf order).Alive :=
  ⟨by simp [Node.commit, hb.commit_returned horder], h.listener⟩

/-- The tick task goes on where it can build its requests. -/
theorem advance {cid : Nat} (h : n.Alive) (hb : n.Bounded conf) (hphase : n.PhaseSound conf)
    (hstep : n.advance conf env cid = some (n', effect)) : n'.Alive := by
  unfold Node.advance at hstep
  split at hstep
  · cases hstep
    exact ⟨by simp, h.listener⟩
  · rename_i conn conns htick
    obtain ⟨hrole, hsuffix⟩ := hphase.at_tick htick
    obtain ⟨req, hreq, _⟩ :=
      (hb.indexed hrole).heartbeatRequest (hsuffix.subset List.mem_cons_self)
    rw [hreq] at hstep
    cases hstep
    exact ⟨by simp, h.listener⟩
  · cases hstep
    exact ⟨by simp, h.listener⟩
  · cases hstep
    exact ⟨by simp [startElection], h.listener⟩
  · cases hstep
    exact ⟨by simp, h.listener⟩
  · split at hstep <;> cases hstep <;> exact ⟨by simp, h.listener⟩
  all_goals cases hstep
  all_goals exact ⟨by simp, h.listener⟩

theorem appendAnswer {answer : Answer AppendEntriesResponse} (h : n.Alive)
    (hbreaks : (Action.appendAnswer answer : Action T).breaks = false)
    (hstep : n.appendAnswer answer = some n') : n'.Alive := by
  unfold Node.appendAnswer at hstep
  split at hstep
  · cases answer with
    | reply resp =>
      cases hstep
      exact ⟨by simp, h.listener⟩
    | none =>
      cases hstep
      exact ⟨by simp, h.listener⟩
    | undecodable | writeFailed => cases hbreaks
  · cases hstep

theorem voteAnswer {answer : Answer ElectionVoteResponse} (h : n.Alive)
    (hbreaks : (Action.voteAnswer answer : Action T).breaks = false)
    (hstep : n.voteAnswer conf answer = some n') : n'.Alive := by
  unfold Node.voteAnswer at hstep
  split at hstep
  · cases answer with
    | reply resp =>
      simp only at hstep
      split at hstep <;> cases hstep <;> exact ⟨by simp, h.listener⟩
    | none | undecodable =>
      cases hstep
      exact ⟨by simp, h.listener⟩
    | writeFailed => cases hbreaks
  · cases hstep

/-- A handler panics at position 0 only. -/
theorem handle {cid : Nat} {req : RequestPattern T} {written : Bool} (h : n.Alive)
    (hb : n.Bounded conf) (hlistener : n.listener = .handling cid req)
    (hshort : shortAppend n (.handle written) = false) (hspared : Spared n (.handle written)) :
    (n.handle conf env cid req written).1.Alive := by
  obtain ⟨hbreaks, hzero⟩ := hspared
  have hwritten : written = true := by
    cases written with
    | true => rfl
    | false => cases hbreaks
  have hhandled : n.handled (.handle written) = some req := by
    simp [Node.handled, hlistener]
  refine (Node.handle_alive_iff h.tick).2 ⟨?_, hwritten⟩
  cases req with
  | ping req | requestVote req => rfl
  | appendEntries req =>
    have hunder : Server.underflows n.state req = false := by
      simpa [zeroAppend, hhandled] using hzero
    simp [Server.panics, hunder, hb.overruns hhandled hshort]

/-- **A step that is spared keeps both tasks running.** -/
theorem step (h : n.Alive) (hb : n.Bounded conf) (hphase : n.PhaseSound conf)
    (hinside : n.state.commitedIndex ≤ n.state.log.length) (hshort : shortAppend n action = false)
    (hspared : Spared n action) (hstep : n.step conf env action = some (n', effect)) :
    n'.Alive := by
  have hclock : Node.Alive { n with clock := env.now } := ⟨h.tick, h.listener⟩
  simp only [Node.step, Option.ite_none_left_eq_some] at hstep
  replace hstep := hstep.2
  cases action with
  | tryPersist =>
    cases (Option.ite_none_right_eq_some.1 hstep).2
    exact hclock.tryPersist hinside
  | sendHeartbeat =>
    cases (Option.ite_none_right_eq_some.1 hstep).2
    exact hclock.sendHeartbeat
  | commit order =>
    obtain ⟨horder, hstep⟩ := Option.ite_none_right_eq_some.1 hstep
    cases (Option.ite_none_right_eq_some.1 hstep).2
    exact hclock.commit ⟨hb.indexed, hb.covers⟩ horder
  | transitionCandidate =>
    cases (Option.ite_none_right_eq_some.1 hstep).2
    exact hclock.transitionCandidate
  | clearFlag =>
    cases (Option.ite_none_right_eq_some.1 hstep).2
    exact ⟨h.tick, h.listener⟩
  | advance cid => exact hclock.advance ⟨hb.indexed, hb.covers⟩ hphase hstep
  | appendAnswer answer =>
    obtain ⟨_, hanswer, heq⟩ := Option.map_eq_some_iff.1 hstep
    cases heq
    exact hclock.appendAnswer hspared.1 hanswer
  | voteAnswer answer =>
    obtain ⟨_, hanswer, heq⟩ := Option.map_eq_some_iff.1 hstep
    cases heq
    exact hclock.voteAnswer hspared.1 hanswer
  | appendEntry value =>
    cases (Option.ite_none_left_eq_some.1 hstep).2
    exact ⟨h.tick, h.listener⟩
  | accept cid req =>
    simp only at hstep
    split at hstep
    · cases hstep
      exact ⟨h.tick, by simp⟩
    · cases hstep
  | handle written =>
    replace hstep := (Option.ite_none_left_eq_some.1 hstep).2
    split at hstep
    · rename_i cid req hlistener
      have halive : (Node.handle conf env cid req written { n with clock := env.now }).1.Alive :=
        hclock.handle ⟨hb.indexed, hb.covers⟩ hlistener hshort hspared
      rw [Option.some.inj hstep] at halive
      exact halive
    · cases hstep
  | abortListener => cases hspared.1

end Node.Alive

section Panics

variable {m : Nat} {C : ClusterConfig m} {s s' : Cluster C T}

/-- The steps of a run in which node `i` is spared. -/
def SparesNode (i : Fin m) (s : Cluster C T) (l : Label m T) : Prop :=
  Lift ReturnOk s l ∧ (l.node = i → Lift Spared s l)

instance (i : Fin m) (s : Cluster C T) (l : Label m T) : Decidable (SparesNode i s l) :=
  inferInstanceAs (Decidable (_ ∧ _))

/-- **What can panic.**  In every run in which no accepted request truncates a log, and no
handler touches an election that is counted, the two tasks of a node keep running, whatever
happens to the other nodes, until a connection breaks while they use it or the node handles
a request that announces position 0 while it has entries: no other index is ever out of
range, and `persist` can always slice the log. -/
theorem tasks_survive {i : Fin m} (hreach : (clusterSystem C T).Reachable (Lift ReturnOk) s)
    (halive : (s.nodes i).Alive) (h : (clusterSystem C T).Steps (SparesNode i) s s') :
    (s'.nodes i).Alive := by
  induction h with
  | refl => exact halive
  | @tail a b hsteps hnext ih =>
    obtain ⟨l, ⟨hok, hspared⟩, hl⟩ := hnext
    have hmid : (clusterSystem C T).Reachable (Lift ReturnOk) a :=
      hreach.steps (System.Steps.mono (fun _ _ hok => hok.1) hsteps)
    obtain ⟨action, effect, hm⟩ := Cluster.step_cases hl
    by_cases hi : i = l.node
    · subst hi
      have hr : a.ReturnSound := .of_reachable (fun _ _ hok => hok) hmid
      obtain ⟨effect', hstep⟩ := hm.node_step hl
      exact ih.step (hr.bounded (.of_reachable hmid) _)
        (Node.PhaseSound.of_reachable (fun _ _ hok => hok.1) hmid _) (hr.sent _).inside
        (hok action hm.resolved).2 (hspared rfl action hm.resolved) hstep
    · rw [hm.others i hi]
      exact ih

/-- The leader of two nodes is still running after it has replicated and committed an entry,
although a response got lost on the way. -/
theorem tasks_survive_replicateOne : ∃ s : Cluster duo Nat,
    (s.nodes 0).state.commitedIndex = 1 ∧ (s.nodes 0).Alive := by
  obtain ⟨s, hs, hcommit⟩ := System.exec_any (clusterSystem duo Nat) (SparesNode 0)
    (.start₀ duo Nat) replicateOne
    (P := fun s => (s.nodes 0).state.commitedIndex = 1) (by decide +kernel)
  have hstart : (clusterSystem duo Nat).Reachable (Lift ReturnOk) (.start₀ duo Nat) :=
    ⟨_, Cluster.init_start₀ duo Nat, .refl _ _ _⟩
  exact ⟨s, hcommit, tasks_survive hstart ⟨nofun, nofun⟩ hs⟩

end Panics
end Quaso
