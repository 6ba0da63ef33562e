import Quaso.Handlers.Outcome

/-!
# What an append request does to a node

Three contracts of `append_entries`, each with the exact inputs at which the
code keeps it: which requests it accepts, what an accepted request does to the
log and to the commit index, and that a call which does not succeed leaves
nothing behind.

* `appendEntries_accepts_iff` — the decision is the protocol's unless an older
  term meets a node that does not lead, position 0 a log that is not empty, or a
  truncated log a commit index at its full length.
* `appendEntries_effect_iff` — the merge is the protocol's, `mergeEntries`,
  exactly when the announced prefix is the whole log.
* `appendEntries_atomic_iff` — a call without success leaves the node as it was
  unless the delivery loop runs over the end of the log.
-/

namespace Quaso
namespace Server

variable {T : Type}

/-! ## Acceptance -/

/-- Older requests are refused by a leader, and by the others where the announced entry is
missing. -/
def StaleRefused (state : State T) (req : AppendEntriesRequest T) : Prop :=
  state.nodeType = .leader ∨ ¬ PrevMatches state.log req.prevLogIndex req.prevLogTerm

/-- A request of the present or a later term does not panic: it does not announce position
0 to a log with entries, nor commit the whole length of a log that is truncated one entry
too far. -/
def CurrentAnswered (state : State T) (req : AppendEntriesRequest T) : Prop :=
  (req.prevLogIndex = 0 → state.log = []) ∧
    ¬ (PrevMatches state.log req.prevLogIndex req.prevLogTerm ∧
      req.prevLogIndex + req.entries.length < state.log.length ∧
      state.commitedIndex < req.leaderCommit ∧
      req.leaderCommit = req.prevLogIndex + req.entries.length)

section Acceptance

variable (nodeId : NodeId) (env : Env) {state : State T} {req : AppendEntriesRequest T}

/-- The delivery loop can only overrun a log that has been truncated. -/
theorem overruns_iff_of_le (haccept : accepts state req = true)
    (hcommit : req.leaderCommit ≤ req.prevLogIndex + req.entries.length) :
    overruns state req = true ↔
      req.prevLogIndex + req.entries.length < state.log.length ∧
        state.commitedIndex < req.leaderCommit ∧
        req.leaderCommit = req.prevLogIndex + req.entries.length := by
  have hle := prevLogIndex_le_of_accepts haccept
  have hzero : req.prevLogIndex = 0 → state.log.length = 0 := fun hindex => by
    rw [(checkPrevLog_eq_passes_iff.1 (accepts_iff.1 haccept).2).2 hindex, List.length_nil]
  rw [overruns_iff, mergedLength]
  constructor
  · rintro ⟨_, hlt, hlength⟩
    split at hlength <;> omega
  · rintro ⟨hlt, hlt', heq⟩
    refine ⟨haccept, hlt', ?_⟩
    rw [if_pos (by omega)]
    omega

/-- A request of an older term: the answer has to be a refusal. -/
theorem refuses_iff_of_stale (hterm : req.term < state.nodeTerm) :
    (∃ resp, (appendEntries nodeId env state req).response = some resp ∧ resp.success = false) ↔
      StaleRefused state req := by
  cases haccept : accepts state req with
  | true =>
    obtain ⟨hleader, hcheck⟩ := accepts_iff.1 haccept
    have hmatch := (checkPrevLog_eq_passes_iff.1 hcheck).1
    have hright : ¬ StaleRefused state req :=
      fun h => h.elim (fun hrole => hleader ⟨hterm, hrole⟩) fun hnot => hnot hmatch
    refine iff_of_false ?_ hright
    rintro ⟨resp, hresp, hsuccess⟩
    cases hover : overruns state req with
    | true =>
      rw [appendEntries_of_overruns nodeId env hover] at hresp
      cases hresp
    | false =>
      rw [appendEntries_of_succeeds nodeId env haccept hover] at hresp
      cases hresp
      cases hsuccess
  | false =>
    rw [appendEntries_of_stopped nodeId env haccept]
    by_cases hrole : state.nodeType = .leader
    · simp [StaleRefused, underflows, hterm, hrole]
    · have hcheck : checkPrevLog state.log req.prevLogIndex req.prevLogTerm ≠ .passes :=
        fun hpass => by simp [accepts, hrole, hpass] at haccept
      cases hverdict : checkPrevLog state.log req.prevLogIndex req.prevLogTerm with
      | passes => exact absurd hverdict hcheck
      | panics =>
        obtain ⟨hzero, hlog⟩ := checkPrevLog_eq_panics.1 hverdict
        simp [StaleRefused, PrevMatches, underflows, hrole, hzero, hlog]
      | rejects =>
        have hmatch := checkPrevLog_eq_rejects_iff.1 hverdict
        have hne : req.prevLogIndex ≠ 0 := fun hzero => hmatch (Or.inl hzero)
        simp [StaleRefused, underflows, hmatch, hne]

/-- A request of the present or a later term: the answer has to say whether the announced
entry is there. -/
theorem answers_iff_of_current (hterm : state.nodeTerm ≤ req.term)
    (hcommit : req.leaderCommit ≤ req.prevLogIndex + req.entries.length) :
    (∃ resp, (appendEntries nodeId env state req).response = some resp ∧
      (resp.success = true ↔ PrevMatches state.log req.prevLogIndex req.prevLogTerm)) ↔
      CurrentAnswered state req := by
  have hfresh : ¬ (req.term < state.nodeTerm ∧ state.nodeType = .leader) :=
    fun h => absurd h.1 (not_lt.2 hterm)
  cases hverdict : checkPrevLog state.log req.prevLogIndex req.prevLogTerm with
  | passes =>
    have haccept : accepts state req = true := accepts_iff.2 ⟨hfresh, hverdict⟩
    obtain ⟨hmatch, hzero⟩ := checkPrevLog_eq_passes_iff.1 hverdict
    have hcurrent : CurrentAnswered state req ↔ overruns state req = false := by
      rw [CurrentAnswered, ← Bool.not_eq_true, overruns_iff_of_le haccept hcommit]
      exact ⟨fun h hover => h.2 ⟨hmatch, hover⟩, fun h => ⟨hzero, fun hover => h hover.2⟩⟩
    rw [hcurrent]
    cases hover : overruns state req with
    | true => simp [appendEntries_of_overruns nodeId env hover]
    | false => simp [appendEntries_of_succeeds nodeId env haccept hover, hmatch]
  | rejects =>
    have haccept : accepts state req = false := by simp [accepts, hverdict]
    have hmatch := checkPrevLog_eq_rejects_iff.1 hverdict
    have hne : req.prevLogIndex ≠ 0 := fun hzero => hmatch (Or.inl hzero)
    rw [appendEntries_of_stopped nodeId env haccept]
    simp [CurrentAnswered, underflows, hmatch, hne]
  | panics =>
    have haccept : accepts state req = false := by simp [accepts, hverdict]
    obtain ⟨hzero, hlog⟩ := checkPrevLog_eq_panics.1 hverdict
    rw [appendEntries_of_stopped nodeId env haccept]
    simp [CurrentAnswered, underflows, hzero, hlog, not_lt.2 hterm]

/-- **Which append requests are accepted.**  The call returns, with success exactly when the
term is not older and the announced entry is in the log, if and only if an older request
meets a leader or misses its entry, and a request of the present or a later term does not
run into one of the two index errors. -/
theorem appendEntries_accepts_iff
    (hcommit : req.leaderCommit ≤ req.prevLogIndex + req.entries.length) :
    (∃ resp, (appendEntries nodeId env state req).response = some resp ∧
      (resp.success = true ↔ state.nodeTerm ≤ req.term ∧
        PrevMatches state.log req.prevLogIndex req.prevLogTerm)) ↔
      (req.term < state.nodeTerm → StaleRefused state req) ∧
        (state.nodeTerm ≤ req.term → CurrentAnswered state req) := by
  rcases lt_or_ge req.term state.nodeTerm with hterm | hterm
  · simpa [hterm, not_le.2 hterm] using refuses_iff_of_stale nodeId env hterm
  · simpa [hterm, not_lt.2 hterm] using answers_iff_of_current nodeId env hterm hcommit

end Acceptance

/-- A node of term 2 with an empty log, in the given role. -/
abbrev emptyNode (nodeType : NodeRole) : State Nat :=
  { State.new (.atTime 0) [] ⟨2, none, []⟩ with nodeType := nodeType }

/-- A leader of term 2 answers the request of a leader of term 1 as it should. -/
theorem appendEntries_accepts_leader :
    ∃ resp, (appendEntries 1 (.atTime 0) (emptyNode .leader) ⟨1, 2, 0, 0, [⟨7, 1⟩], 0⟩).response
        = some resp ∧
      (resp.success = true ↔ (2 : NodeTerm) ≤ 1 ∧ PrevMatches (emptyNode .leader).log 0 0) :=
  (appendEntries_accepts_iff 1 (.atTime 0) (by decide)).2
    ⟨fun _ => Or.inl rfl, fun h => absurd h (by decide)⟩

/-- A follower of term 2 accepts the same request. -/
theorem appendEntries_accepts_stale :
    ¬ ∀ (nodeId : NodeId) (env : Env) (state : State Nat) (req : AppendEntriesRequest Nat),
      req.leaderCommit ≤ req.prevLogIndex + req.entries.length →
      ∃ resp, (appendEntries nodeId env state req).response = some resp ∧
        (resp.success = true ↔ state.nodeTerm ≤ req.term ∧
          PrevMatches state.log req.prevLogIndex req.prevLogTerm) := by
  intro hall
  obtain ⟨resp, hresp, hiff⟩ := hall 1 (.atTime 0) (emptyNode .follower)
    ⟨1, 2, 0, 0, [⟨7, 1⟩], 0⟩ (by decide)
  obtain rfl : ⟨1, 1, true⟩ = resp := Option.some.inj hresp
  exact absurd (hiff.1 rfl).1 (by decide)

/-! ## Effect -/

/-- Some entry of the log differs in its term from the new entry at the same position. -/
def conflicts (log : List (LogEntry T)) (prevLogIndex : Nat) (entries : List (LogEntry T)) :
    Bool :=
  ((log.drop prevLogIndex).zip entries).any fun pair => decide (pair.1.term ≠ pair.2.term)

/-- The merge that the comments of `append_entries` describe: the new entries follow the
announced prefix, and what comes after them goes if an entry conflicts. -/
def mergeEntries (log : List (LogEntry T)) (prevLogIndex : Nat) (entries : List (LogEntry T)) :
    List (LogEntry T) :=
  log.take prevLogIndex ++ entries ++
    if conflicts log prevLogIndex entries then [] else log.drop (prevLogIndex + entries.length)

/-- The merge of the code has the length of that merge only at the end of the log. -/
theorem spliceEntries_eq_mergeEntries_iff {log : List (LogEntry T)} {prevLogIndex : Nat}
    {entries : List (LogEntry T)} (hle : prevLogIndex ≤ log.length)
    (hzero : prevLogIndex = 0 → log = []) :
    spliceEntries log prevLogIndex entries = mergeEntries log prevLogIndex entries ↔
      prevLogIndex = log.length := by
  constructor
  · intro heq
    have hlen := congrArg List.length heq
    have hpos : prevLogIndex = 0 → log.length = 0 := fun h => by rw [hzero h, List.length_nil]
    rw [length_spliceEntries, mergedLength, mergeEntries, List.length_append, List.length_append,
      List.length_take, Nat.min_eq_left hle] at hlen
    have htail : (if conflicts log prevLogIndex entries then []
        else log.drop (prevLogIndex + entries.length)).length
          ≤ log.length - (prevLogIndex + entries.length) := by
      split
      · exact Nat.zero_le _
      · exact List.length_drop.le
    split at hlen <;> omega
  · rintro rfl
    simp [spliceEntries, mergeEntries]

section Effect

variable (nodeId : NodeId) (env : Env) {state : State T} {req : AppendEntriesRequest T}

/-- **What an accepted append request does.**  The log is merged and the commit index is
raised as the comments say if and only if the announced prefix is the whole log. -/
theorem appendEntries_effect_iff (hsuccess : Succeeds (appendEntries nodeId env state req)) :
    ((appendEntries nodeId env state req).state.log =
        mergeEntries state.log req.prevLogIndex req.entries ∧
      (appendEntries nodeId env state req).state.commitedIndex =
        max state.commitedIndex
          (min req.leaderCommit (req.prevLogIndex + req.entries.length))) ↔
      req.prevLogIndex = state.log.length := by
  obtain ⟨haccept, hover⟩ := (succeeds_iff nodeId env).1 hsuccess
  have hle := prevLogIndex_le_of_accepts haccept
  have hzero := (checkPrevLog_eq_passes_iff.1 (accepts_iff.1 haccept).2).2
  rw [appendEntries_of_succeeds nodeId env haccept hover]
  simp only [acceptEntries_log, spliceEntries_eq_mergeEntries_iff hle hzero]
  refine and_iff_left_of_imp fun hend => ?_
  -- the loop has finished, so the leader's commit index is inside the merged log
  have hinside : ¬ (state.commitedIndex < req.leaderCommit ∧
      mergedLength state.log req.prevLogIndex req.entries < req.leaderCommit) :=
    fun h => absurd (overruns_iff.2 ⟨haccept, h⟩) (by simp [hover])
  rw [mergedLength, if_neg (by omega)] at hinside
  omega

end Effect

/-- A node of term 1 with two entries of that term. -/
abbrev twoEntries : State Nat := State.new (.atTime 0) [] ⟨1, none, [⟨7, 1⟩, ⟨8, 1⟩]⟩

/-- An entry that continues the log is added at its end. -/
theorem appendEntries_effect_end :
    (appendEntries 2 (.atTime 0) twoEntries ⟨1, 1, 2, 1, [⟨9, 1⟩], 3⟩).state.log =
      mergeEntries twoEntries.log 2 [⟨9, 1⟩] :=
  ((appendEntries_effect_iff 2 (.atTime 0) (by decide)).2 rfl).1

/-- An entry that the node has already is added a second time. -/
theorem appendEntries_effect_duplicate :
    ¬ ∀ (nodeId : NodeId) (env : Env) (state : State Nat) (req : AppendEntriesRequest Nat),
      Succeeds (appendEntries nodeId env state req) →
      (appendEntries nodeId env state req).state.log =
          mergeEntries state.log req.prevLogIndex req.entries ∧
        (appendEntries nodeId env state req).state.commitedIndex =
          max state.commitedIndex
            (min req.leaderCommit (req.prevLogIndex + req.entries.length)) := by
  intro hall
  have hlog := (hall 2 (.atTime 0) twoEntries ⟨1, 1, 1, 1, [⟨8, 1⟩], 0⟩ (by decide)).1
  exact absurd hlog (by decide)

/-! ## Atomicity -/

/-- Everything that a call writes before its delivery loop is there already. -/
def AlreadyWritten (env : Env) (state : State T) (req : AppendEntriesRequest T) : Prop :=
  (state.nodeType = .follower ∧ state.nodeTerm = req.term ∧
    state.recievedLeaderHeartbeat = true ∧
    state.electionTimeout = env.now + env.electionTime) ∧
  req.prevLogIndex = state.log.length ∧ req.entries = []

section Atomicity

variable (nodeId : NodeId) (env : Env) {state : State T} {req : AppendEntriesRequest T}

theorem acceptEntries_eq_self_iff (hle : req.prevLogIndex ≤ state.log.length) :
    acceptEntries env state req = state ↔ AlreadyWritten env state req := by
  rw [AlreadyWritten, ← spliceEntries_eq_self_iff hle]
  constructor
  · intro h
    refine ⟨⟨?_, ?_, ?_, ?_⟩, ?_⟩
    · rw [← h, acceptEntries_nodeType]
    · rw [← h, acceptEntries_nodeTerm]
    · rw [← h]
      rfl
    · rw [← h]
      rfl
    · rw [← acceptEntries_log env, h]
  · rintro ⟨⟨hrole, hterm, hflag, htimeout⟩, hlog⟩
    have hnot : ¬ state.nodeTerm < req.term := by rw [hterm]; exact lt_irrefl _
    unfold acceptEntries
    simp only [if_neg hnot, State.transitionToTerm, State.resetElectionTimeout, hlog]
    simp only [← hrole, ← hterm, ← hflag, ← htimeout]

/-- **A call that does not succeed leaves nothing behind.**  State and delivered entries
are as before if and only if the delivery loop does not run over the end of the log, or it
sends nothing and everything written before it was there already. -/
theorem appendEntries_atomic_iff (hfail : ¬ Succeeds (appendEntries nodeId env state req)) :
    ((appendEntries nodeId env state req).state = state ∧
      (appendEntries nodeId env state req).sent = []) ↔
      (overruns state req = true →
        AlreadyWritten env state req ∧ state.log.length ≤ state.commitedIndex) := by
  cases hover : overruns state req with
  | true =>
    obtain ⟨haccept, hcommit, _⟩ := overruns_iff.1 hover
    have hle := prevLogIndex_le_of_accepts haccept
    rw [appendEntries_of_overruns nodeId env hover]
    simp only [acceptEntries_eq_self_iff env hle, deliverRange_eq_nil_iff hcommit, forall_const]
    refine and_congr_right fun hwritten => ?_
    rw [(spliceEntries_eq_self_iff hle).2 hwritten.2]
  | false =>
    have haccept : accepts state req = false := by
      rw [← Bool.not_eq_true]
      exact fun haccept => hfail ((succeeds_iff nodeId env).2 ⟨haccept, hover⟩)
    rw [appendEntries_of_stopped nodeId env haccept]
    simp

end Atomicity

/-- A request that announces a missing entry leaves the node as it was. -/
theorem appendEntries_atomic_rejected :
    (appendEntries 2 (.atTime 0) twoEntries ⟨1, 1, 3, 1, [⟨9, 1⟩], 4⟩).state = twoEntries ∧
      (appendEntries 2 (.atTime 0) twoEntries ⟨1, 1, 3, 1, [⟨9, 1⟩], 4⟩).sent = [] :=
  (appendEntries_atomic_iff 2 (.atTime 0) (by decide)).2 fun hover => absurd hover (by decide)

/-- A commit index behind the end of the log: both entries are delivered, the call panics,
and the commit index is still 0. -/
theorem appendEntries_atomic_overrun :
    ¬ ∀ (nodeId : NodeId) (env : Env) (state : State Nat) (req : AppendEntriesRequest Nat),
      ¬ Succeeds (appendEntries nodeId env state req) →
      (appendEntries nodeId env state req).state = state ∧
        (appendEntries nodeId env state req).sent = [] := by
  intro hall
  have hsent := (hall 2 (.atTime 0) twoEntries ⟨1, 1, 2, 1, [], 3⟩ (by decide)).2
  exact absurd hsent (by decide)

end Server
end Quaso
