import Quaso.Handlers.Outcome
import Quaso.Raft.Operations

/-!
# A request that arrives twice

`maybe_send_heartbeat` builds the same request again as long as no response has
come back, so a follower meets requests that it has accepted before.

* `BuiltBy` — the requests that one leader builds for one peer in one term, while
  its log grows.
* `process` — a follower works through a list of calls.
* `Reached.process` — once a request of the term has been accepted, term and
  commit index have reached it for good.
* `retransmission_iff` — a repeated request changes nothing exactly when it
  carries no entries and announces the follower's whole log.
-/

namespace Quaso
namespace Server

variable {T : Type}

/-- Requests built for the peer `conn` by one leader of term `t`, one after the other,
from a log and a commit index that only grow. -/
def BuiltBy (conf : Config) (conn : Addr) (t : NodeTerm) (reqs : List (AppendEntriesRequest T)) :
    Prop :=
  ∃ leader : List (State T),
    (∀ s ∈ leader, s.nodeType = .leader ∧ s.nodeTerm = t) ∧
    leader.Pairwise (fun s s' => s.log <+: s'.log ∧ s.commitedIndex ≤ s'.commitedIndex) ∧
    List.Forall₂ (fun s req => Raft.heartbeatRequest conf s conn = some req) leader reqs

/-- The requests of a leader carry its term. -/
theorem BuiltBy.term {conf : Config} {conn : Addr} {t : NodeTerm}
    {reqs : List (AppendEntriesRequest T)} (h : BuiltBy conf conn t reqs) :
    ∀ req ∈ reqs, req.term = t := by
  obtain ⟨leader, hleads, _, hbuilt⟩ := h
  clear * - hleads hbuilt
  induction hbuilt with
  | nil => simp
  | @cons s req leader reqs hone _ ih =>
    intro req' hreq'
    rcases List.mem_cons.1 hreq' with rfl | hreq'
    · rw [(Raft.heartbeatRequest_eq_some hone).1]
      exact (hleads s List.mem_cons_self).2
    · exact ih (fun s hs => hleads s (List.mem_cons_of_mem _ hs)) req' hreq'

/-- One request of a leader. -/
theorem BuiltBy.single {conf : Config} {conn : Addr} (leader : State T)
    {req : AppendEntriesRequest T} (hrole : leader.nodeType = .leader)
    (hbuilt : Raft.heartbeatRequest conf leader conn = some req) :
    BuiltBy conf conn leader.nodeTerm [req] := by
  refine ⟨[leader], fun s hs => ?_, List.pairwise_singleton _ _, .cons hbuilt .nil⟩
  obtain rfl := List.mem_singleton.1 hs
  exact ⟨hrole, rfl⟩

/-- The state after a list of calls, each at its own reading of the clock. -/
def process (nodeId : NodeId) (state : State T) (calls : List (Env × AppendEntriesRequest T)) :
    State T :=
  calls.foldl (fun state call => (appendEntries nodeId call.1 state call.2).state) state

/-- The state has reached the term and the commit index of a request. -/
def Reached (req : AppendEntriesRequest T) (state : State T) : Prop :=
  state.nodeTerm = req.term ∧ req.leaderCommit ≤ state.commitedIndex

variable (nodeId : NodeId) (env : Env) {state : State T} {req req' : AppendEntriesRequest T}

/-- A successful call reaches its request. -/
theorem reached_of_succeeds (h : Succeeds (appendEntries nodeId env state req)) :
    Reached req (appendEntries nodeId env state req).state := by
  obtain ⟨haccept, hover⟩ := (succeeds_iff nodeId env).1 h
  rw [appendEntries_of_succeeds nodeId env haccept hover]
  exact ⟨acceptEntries_nodeTerm env state req, Nat.le_max_right _ _⟩

/-- What has been reached stays reached under requests of the same term. -/
theorem Reached.appendEntries (h : Reached req state) (hterm : req'.term = req.term) :
    Reached req (appendEntries nodeId env state req').state := by
  cases haccept : accepts state req' with
  | false =>
    rw [appendEntries_of_stopped nodeId env haccept]
    exact h
  | true =>
    cases hover : overruns state req' with
    | true =>
      rw [appendEntries_of_overruns nodeId env hover]
      exact ⟨hterm, by rw [acceptEntries_commitedIndex]; exact h.2⟩
    | false =>
      rw [appendEntries_of_succeeds nodeId env haccept hover]
      exact ⟨hterm, h.2.trans (Nat.le_max_left _ _)⟩

theorem Reached.process {calls : List (Env × AppendEntriesRequest T)} (h : Reached req state)
    (hterm : ∀ call ∈ calls, call.2.term = req.term) :
    Reached req (process nodeId state calls) := by
  induction calls generalizing state with
  | nil => exact h
  | cons call calls ih =>
    exact ih (h.appendEntries nodeId call.1 (hterm call List.mem_cons_self))
      fun c hc => hterm c (List.mem_cons_of_mem _ hc)

/-- A request that has been reached neither panics nor moves term, vote or commit index:
it comes down to the checks and the merge. -/
theorem repeat_iff_of_reached (h : Reached req state) :
    (Succeeds (appendEntries nodeId env state req) ∧
      (appendEntries nodeId env state req).state.log = state.log ∧
      (appendEntries nodeId env state req).state.nodeTerm = state.nodeTerm ∧
      (appendEntries nodeId env state req).state.votedFor = state.votedFor ∧
      (appendEntries nodeId env state req).state.commitedIndex = state.commitedIndex ∧
      (appendEntries nodeId env state req).sent = []) ↔
      req.entries = [] ∧ req.prevLogIndex = state.log.length ∧
        PrevMatches state.log req.prevLogIndex req.prevLogTerm := by
  obtain ⟨hterm, hcommit⟩ := h
  have hover : overruns state req = false := by
    rw [← Bool.not_eq_true, overruns_iff]
    omega
  constructor
  · rintro ⟨hsuccess, hlog, -⟩
    have haccept := ((succeeds_iff nodeId env).1 hsuccess).1
    rw [appendEntries_of_succeeds nodeId env haccept hover] at hlog
    obtain ⟨hend, hnil⟩ := (spliceEntries_eq_self_iff (prevLogIndex_le_of_accepts haccept)).1
      (by simpa using hlog)
    exact ⟨hnil, hend, (checkPrevLog_eq_passes_iff.1 (accepts_iff.1 haccept).2).1⟩
  · rintro ⟨hnil, hend, hmatch⟩
    have haccept : accepts state req = true := by
      refine accepts_iff.2 ⟨fun hstale => absurd hstale.1 (by simp [hterm]), ?_⟩
      refine checkPrevLog_eq_passes_iff.2 ⟨hmatch, fun hzero => ?_⟩
      exact List.eq_nil_of_length_eq_zero (hend.symm.trans hzero)
    have hsent : (deliverRange (spliceEntries state.log req.prevLogIndex req.entries)
        state.commitedIndex req.leaderCommit).1 = [] := by
      rw [deliverRange, Nat.sub_eq_zero_of_le hcommit]
      rfl
    refine ⟨(succeeds_iff nodeId env).2 ⟨haccept, hover⟩, ?_⟩
    rw [appendEntries_of_succeeds nodeId env haccept hover]
    refine ⟨?_, hterm.symm, ?_, Nat.max_eq_left hcommit, hsent⟩
    · exact (acceptEntries_log env state req).trans
        ((spliceEntries_eq_self_iff hend.le).2 ⟨hend, hnil⟩)
    · simp [hterm]

/-- **A repeated request.**  After any calls with requests that one leader built in one
term, one of those that succeeded succeeds again and changes nothing if and only if it
carries no entries and announces the whole log that the follower has by then. -/
theorem retransmission_iff {conf : Config} {conn : Addr} {t : NodeTerm} {follower : State T}
    {calls before after : List (Env × AppendEntriesRequest T)} {env' : Env}
    (hbuilt : BuiltBy conf conn t (calls.map Prod.snd))
    (hcalls : calls = before ++ (env, req) :: after)
    (hsuccess : Succeeds (appendEntries nodeId env (process nodeId follower before) req)) :
    let state := process nodeId follower calls
    let again := appendEntries nodeId env' state req
    (Succeeds again ∧ again.state.log = state.log ∧ again.state.nodeTerm = state.nodeTerm ∧
      again.state.votedFor = state.votedFor ∧
      again.state.commitedIndex = state.commitedIndex ∧ again.sent = []) ↔
      req.entries = [] ∧ req.prevLogIndex = state.log.length ∧
        PrevMatches state.log req.prevLogIndex req.prevLogTerm := by
  have hterm : ∀ call ∈ calls, call.2.term = t :=
    fun call hcall => hbuilt.term _ (List.mem_map_of_mem hcall)
  have hreq : req.term = t := hterm (env, req) (by simp [hcalls])
  refine repeat_iff_of_reached nodeId env' ?_
  rw [hcalls, process, List.foldl_append, List.foldl_cons]
  refine (reached_of_succeeds nodeId env hsuccess).process nodeId fun call hcall => ?_
  rw [hreq]
  exact hterm call (by simp [hcalls, hcall])

/-- A leader of term 1 with the given log, and the next index of its peer. -/
abbrev leaderOf (log : List (LogEntry Nat)) (next : Nat) : State Nat :=
  { State.new (.atTime 0) ["b"] ⟨1, some 1, log⟩ with
    nodeType := .leader, nextIndex := IndexMap.insertAll ∅ ["b"] next }

/-- The configuration of that leader. -/
abbrev leaderConf : Config := ⟨1, "a", ["b"]⟩

/-- A follower of that leader that has its first entry. -/
abbrev followerOne : State Nat := State.new (.atTime 0) [] ⟨1, none, [⟨7, 1⟩]⟩

/-- A request that announces one entry of term 1 and carries the given ones. -/
abbrev afterOne (entries : List (LogEntry Nat)) : AppendEntriesRequest Nat :=
  ⟨1, 1, 1, 1, entries, 0⟩

/-- A heartbeat without entries can arrive twice. -/
theorem retransmission_heartbeat :
    Succeeds (appendEntries 2 (.atTime 0) (process 2 followerOne [(.atTime 0, afterOne [])])
      (afterOne [])) := by
  have hbuilt : BuiltBy leaderConf "b" 1 [afterOne []] :=
    BuiltBy.single (leaderOf [⟨7, 1⟩] 2) rfl (by decide +kernel)
  have hcalls : [(Env.atTime 0, afterOne [])] = [] ++ (Env.atTime 0, afterOne []) :: [] := rfl
  exact ((retransmission_iff 2 (.atTime 0) hbuilt hcalls (by decide)).2 (by decide)).1

/-- A leader sends its second entry, the reply is lost, and the same request arrives again:
the follower has the entry twice. -/
theorem retransmission_duplicates :
    ¬ ∀ (nodeId : NodeId) (conf : Config) (conn : Addr) (t : NodeTerm) (follower : State Nat)
      (calls before after : List (Env × AppendEntriesRequest Nat)) (env env' : Env)
      (req : AppendEntriesRequest Nat),
      BuiltBy conf conn t (calls.map Prod.snd) → calls = before ++ (env, req) :: after →
      follower.nodeType = .follower →
      Succeeds (appendEntries nodeId env (process nodeId follower before) req) →
      let state := process nodeId follower calls
      let again := appendEntries nodeId env' state req
      Succeeds again ∧ again.state.log = state.log ∧ again.state.nodeTerm = state.nodeTerm ∧
        again.state.votedFor = state.votedFor ∧
        again.state.commitedIndex = state.commitedIndex ∧ again.sent = [] := by
  intro hall
  have hbuilt : BuiltBy leaderConf "b" 1 [afterOne [⟨8, 1⟩]] :=
    BuiltBy.single (leaderOf [⟨7, 1⟩, ⟨8, 1⟩] 2) rfl (by decide +kernel)
  have hlog := (hall 2 leaderConf "b" 1 followerOne [(.atTime 0, afterOne [⟨8, 1⟩])] [] []
    (.atTime 0) (.atTime 0) _ hbuilt rfl rfl (by decide)).2.1
  exact absurd hlog (by decide)

end Server
end Quaso
