import Quaso.Raft.Rpc

/-!
# How a call of `append_entries` ends

`Server.appendEntries` ends in one of four ways, and which one is decided by the
state and the request it starts from.

* `PrevMatches` — what the checks on `prev_log_index` are for: the entry the
  request announces is in the log.
* `mergedLength` — the length of the log after the merge.
* `underflows`, `overruns` — the two ways to panic: in the checks, and in the
  delivery loop.
* `appendEntries_of_overruns`, `appendEntries_of_succeeds` — the whole result of
  a call that passes the checks; `response_eq_none_iff` and `succeeds_iff` say
  when there is no response and when the response is a success.
-/

namespace Quaso
namespace Server

variable {T : Type}

/-! ## The checks -/

/-- The log holds an entry of the given term at a 1-based position, or the
position is 0. -/
def PrevMatches (log : List (LogEntry T)) (prevLogIndex : Nat) (prevLogTerm : NodeTerm) : Prop :=
  prevLogIndex = 0 ∨ ∃ entry, log[prevLogIndex - 1]? = some entry ∧ entry.term = prevLogTerm

instance instDecidablePrevMatches (log : List (LogEntry T)) (prevLogIndex : Nat)
    (prevLogTerm : NodeTerm) : Decidable (PrevMatches log prevLogIndex prevLogTerm) :=
  decidable_of_iff (prevLogIndex = 0 ∨
    (log[prevLogIndex - 1]?).any (fun entry => decide (entry.term = prevLogTerm)) = true)
    (by simp [PrevMatches, Option.any_eq_true])

theorem checkPrevLog_eq_panics {log : List (LogEntry T)} {index : Nat} {term : NodeTerm} :
    checkPrevLog log index term = .panics ↔ index = 0 ∧ log ≠ [] := by
  unfold checkPrevLog
  cases log with
  | nil => cases index <;> simp
  | cons e log =>
    cases index with
    | zero => simp
    | succ index =>
      by_cases hle : index + 1 ≤ (e :: log).length
      · rw [if_pos (by simp), if_pos hle]
        obtain ⟨entry, hget⟩ : ∃ entry, (e :: log)[index]? = some entry :=
          ⟨_, List.getElem?_eq_getElem (by omega)⟩
        by_cases hterm : entry.term = term <;> simp [hget, hterm]
      · rw [if_pos (by simp), if_neg hle]
        simp

/-- At position 0 the checks are passed by an empty log only. -/
theorem checkPrevLog_eq_passes_iff {log : List (LogEntry T)} {index : Nat} {term : NodeTerm} :
    checkPrevLog log index term = .passes ↔
      PrevMatches log index term ∧ (index = 0 → log = []) := by
  rw [checkPrevLog_eq_passes, PrevMatches]
  rcases Nat.eq_zero_or_pos index with rfl | hpos
  · simp
  · simp [hpos, hpos.ne']

/-- A request is rejected exactly when the announced entry is missing. -/
theorem checkPrevLog_eq_rejects_iff {log : List (LogEntry T)} {index : Nat} {term : NodeTerm} :
    checkPrevLog log index term = .rejects ↔ ¬ PrevMatches log index term := by
  have hpanics : checkPrevLog log index term = .panics ↔ _ := checkPrevLog_eq_panics
  have hpasses : checkPrevLog log index term = .passes ↔ _ := checkPrevLog_eq_passes_iff
  constructor
  · intro hcheck hmatch
    rw [hcheck] at hpanics hpasses
    by_cases hzero : index = 0 → log = []
    · exact absurd (hpasses.2 ⟨hmatch, hzero⟩) (by decide)
    · exact absurd (hpanics.2 (Classical.not_imp.1 hzero)) (by decide)
  · intro hmatch
    cases hcheck : checkPrevLog log index term with
    | rejects => rfl
    | passes => exact absurd (hpasses.1 hcheck).1 hmatch
    | panics => exact absurd (Or.inl (hpanics.1 hcheck).1) hmatch

/-! ## The merge -/

/-- The length of the log that `spliceEntries` builds. -/
def mergedLength (log : List (LogEntry T)) (prevLogIndex : Nat) (entries : List (LogEntry T)) :
    Nat :=
  if entries.length + prevLogIndex < log.length then prevLogIndex - 1 + entries.length
  else log.length + entries.length

@[simp] theorem length_spliceEntries (log : List (LogEntry T)) (prevLogIndex : Nat)
    (entries : List (LogEntry T)) :
    (spliceEntries log prevLogIndex entries).length = mergedLength log prevLogIndex entries := by
  unfold spliceEntries mergedLength
  split
  · rw [List.length_append, List.length_take]
    omega
  · rw [List.length_append]

/-- The merge leaves the log as it is only when there is nothing to add at its end. -/
theorem spliceEntries_eq_self_iff {log : List (LogEntry T)} {prevLogIndex : Nat}
    {entries : List (LogEntry T)} (hle : prevLogIndex ≤ log.length) :
    spliceEntries log prevLogIndex entries = log ↔
      prevLogIndex = log.length ∧ entries = [] := by
  constructor
  · intro h
    have hlen := congrArg List.length h
    rw [length_spliceEntries, mergedLength] at hlen
    split at hlen
    · omega
    · have hnil : entries.length = 0 := by omega
      exact ⟨by omega, List.eq_nil_of_length_eq_zero hnil⟩
  · rintro ⟨rfl, rfl⟩
    exact spliceEntries_nil log

/-- A request that passes the checks announces a position of the log. -/
theorem prevLogIndex_le_of_accepts {state : State T} {req : AppendEntriesRequest T}
    (h : accepts state req = true) : req.prevLogIndex ≤ state.log.length := by
  obtain ⟨hnil, hzero⟩ | ⟨_, entry, hget, _⟩ := checkPrevLog_eq_passes.1 (accepts_iff.1 h).2
  · omega
  · have := (List.getElem?_eq_some_iff.1 hget).1
    omega

/-! ## The four outcomes -/

/-- The subtraction in the checks underflows. -/
def underflows (state : State T) (req : AppendEntriesRequest T) : Bool :=
  !(decide (req.term < state.nodeTerm) && decide (state.nodeType = .leader)) &&
    decide (req.prevLogIndex = 0) && !state.log.isEmpty

/-- The checks pass and the delivery loop then runs over the end of the log. -/
def overruns (state : State T) (req : AppendEntriesRequest T) : Bool :=
  accepts state req && decide (state.commitedIndex < req.leaderCommit) &&
    decide (mergedLength state.log req.prevLogIndex req.entries < req.leaderCommit)

theorem overruns_iff {state : State T} {req : AppendEntriesRequest T} :
    overruns state req = true ↔ accepts state req = true ∧
      state.commitedIndex < req.leaderCommit ∧
      mergedLength state.log req.prevLogIndex req.entries < req.leaderCommit := by
  simp only [overruns, Bool.and_eq_true, decide_eq_true_eq, and_assoc]

/-- The call returns `success = true`. -/
def Succeeds (result : AppendResult T) : Prop :=
  ∃ resp, result.response = some resp ∧ resp.success = true

instance instDecidableSucceeds (result : AppendResult T) : Decidable (Succeeds result) :=
  decidable_of_iff _ (Option.any_eq_true AppendEntriesResponse.success result.response)

variable (nodeId : NodeId) (env : Env) {state : State T} {req : AppendEntriesRequest T}

/-- A call that the checks stop: it refuses, or it panics on the subtraction. -/
theorem appendEntries_of_stopped (h : accepts state req = false) :
    appendEntries nodeId env state req = ⟨state, [],
      if underflows state req then none else some ⟨nodeId, state.nodeTerm, false⟩⟩ := by
  unfold appendEntries underflows
  by_cases hterm : req.term < state.nodeTerm ∧ state.nodeType = .leader
  · simp [hterm]
  · have hpass : (decide (req.term < state.nodeTerm) && decide (state.nodeType = .leader))
        = false := by
      simpa using hterm
    rw [if_neg hterm, hpass]
    cases hcheck : checkPrevLog state.log req.prevLogIndex req.prevLogTerm with
    | panics =>
      obtain ⟨hzero, hlog⟩ := checkPrevLog_eq_panics.1 hcheck
      simp [hzero, hlog]
    | rejects =>
      have hne : req.prevLogIndex ≠ 0 :=
        fun hzero => checkPrevLog_eq_rejects_iff.1 hcheck (Or.inl hzero)
      simp [hne]
    | passes => exact absurd (accepts_iff.2 ⟨hterm, hcheck⟩) (by simp [h])

/-- A call that panics while it delivers: everything but the commit index is written. -/
theorem appendEntries_of_overruns (h : overruns state req = true) :
    appendEntries nodeId env state req =
      ⟨acceptEntries env state req,
        (deliverRange (spliceEntries state.log req.prevLogIndex req.entries)
          state.commitedIndex req.leaderCommit).1, none⟩ := by
  obtain ⟨haccept, hcommit, hlength⟩ := overruns_iff.1 h
  obtain ⟨hterm, hcheck⟩ := accepts_iff.1 haccept
  have hfin : (deliverRange (spliceEntries state.log req.prevLogIndex req.entries)
      state.commitedIndex req.leaderCommit).2 ≠ true := by
    rw [Ne, deliverRange_finished_iff hcommit, length_spliceEntries]
    omega
  unfold appendEntries
  rw [if_neg hterm, hcheck]
  simp only [acceptEntries_commitedIndex, acceptEntries_log, if_pos hcommit, if_neg hfin]

/-- A call that succeeds: the entries are merged, and the commit index is raised to the
leader's. -/
theorem appendEntries_of_succeeds (haccept : accepts state req = true)
    (hover : overruns state req = false) :
    appendEntries nodeId env state req =
      ⟨{ acceptEntries env state req with
          commitedIndex := max state.commitedIndex req.leaderCommit },
        (deliverRange (spliceEntries state.log req.prevLogIndex req.entries)
          state.commitedIndex req.leaderCommit).1, some ⟨nodeId, req.term, true⟩⟩ := by
  obtain ⟨hterm, hcheck⟩ := accepts_iff.1 haccept
  unfold appendEntries
  rw [if_neg hterm, hcheck]
  simp only [acceptEntries_commitedIndex, acceptEntries_log, acceptEntries_nodeTerm]
  by_cases hcommit : state.commitedIndex < req.leaderCommit
  · have hfin : (deliverRange (spliceEntries state.log req.prevLogIndex req.entries)
        state.commitedIndex req.leaderCommit).2 = true := by
      rw [deliverRange_finished_iff hcommit, length_spliceEntries]
      by_contra hlt
      exact absurd (overruns_iff.2 ⟨haccept, hcommit, by omega⟩) (by simp [hover])
    rw [if_pos hcommit, if_pos hfin, Nat.max_eq_right hcommit.le]
  · have hsent : (deliverRange (spliceEntries state.log req.prevLogIndex req.entries)
        state.commitedIndex req.leaderCommit).1 = [] := by
      rw [deliverRange, Nat.sub_eq_zero_of_le (by omega)]
      rfl
    rw [if_neg hcommit, hsent, Nat.max_eq_left (by omega)]
    simp only [← acceptEntries_commitedIndex env state req]

/-- **A call does not return exactly when one of the two index errors happens.** -/
theorem response_eq_none_iff :
    (appendEntries nodeId env state req).response = none ↔
      underflows state req = true ∨ overruns state req = true := by
  cases haccept : accepts state req with
  | false =>
    have hover : overruns state req = false := by simp [overruns, haccept]
    rw [appendEntries_of_stopped nodeId env haccept, hover]
    cases underflows state req <;> simp
  | true =>
    have hunder : underflows state req = false := by
      obtain ⟨hterm, hcheck⟩ := accepts_iff.1 haccept
      have hzero := (checkPrevLog_eq_passes_iff.1 hcheck).2
      by_cases hindex : req.prevLogIndex = 0
      · simp [underflows, hzero hindex]
      · simp [underflows, hindex]
    cases hover : overruns state req with
    | false => simp [appendEntries_of_succeeds nodeId env haccept hover, hunder]
    | true => simp [appendEntries_of_overruns nodeId env hover]

/-- **A call succeeds exactly when the checks pass and the delivery loop finishes.** -/
theorem succeeds_iff :
    Succeeds (appendEntries nodeId env state req) ↔
      accepts state req = true ∧ overruns state req = false := by
  unfold Succeeds
  cases haccept : accepts state req with
  | false =>
    rw [appendEntries_of_stopped nodeId env haccept]
    cases underflows state req <;> simp
  | true =>
    cases hover : overruns state req with
    | false => simp [appendEntries_of_succeeds nodeId env haccept hover]
    | true => simp [appendEntries_of_overruns nodeId env hover]

end Server
end Quaso
