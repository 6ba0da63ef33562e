import Mathlib.Data.Prod.Lex
import Quaso.Raft.Rpc

/-!
# What a granted vote promises

The local facts under the election theorems: a grant is sound, it writes the vote
and nothing about the log, and a refusal writes nothing; and which of the requests
that deserve a vote get one.

* `lastPosition` — the term of the last entry and the length of the log, which an
  empty log has as `(0, 0)`; positions are compared lexicographically.
* `logGrants_iff_lastPosition` — the log comparison of `request_vote` is that
  order, on a log with entries.
* `requestVote_sound` — the contract of the handler.
* `requestVote_available_iff` — a request that deserves the vote gets it, except
  from a node with an empty log that has ever voted.
-/

namespace Quaso
namespace Server

variable {T : Type}

/-- Where a log ends: the term of its last entry, and its length. -/
def lastPosition (log : List (LogEntry T)) : NodeTerm ×ₗ Nat :=
  toLex ((log.getLast?.map LogEntry.term).getD 0, log.length)

@[simp] theorem lastPosition_nil : lastPosition ([] : List (LogEntry T)) = toLex (0, 0) := rfl

/-- The log comparison grants only to a log that does not end earlier. -/
theorem lastPosition_le_of_logGrants {state : State T} {req : ElectionVoteRequest}
    (h : logGrants state req = true) :
    lastPosition state.log ≤ toLex (req.lastLogTerm, req.lastLogIndex) := by
  cases hlast : state.log.getLast? with
  | none =>
    rw [List.getLast?_eq_none_iff.1 hlast, lastPosition_nil]
    exact Prod.Lex.toLex_mono ⟨Fin.zero_le _, Nat.zero_le _⟩
  | some entry =>
    rw [lastPosition, hlast, Prod.Lex.toLex_le_toLex]
    exact (logGrants_iff hlast).1 h

/-- On a log with entries the comparison is the order of positions. -/
theorem logGrants_iff_lastPosition {state : State T} {req : ElectionVoteRequest}
    (hne : state.log ≠ []) :
    logGrants state req = true ↔
      lastPosition state.log ≤ toLex (req.lastLogTerm, req.lastLogIndex) := by
  have hlast := List.getLast?_eq_some_getLast hne
  rw [logGrants_iff hlast, lastPosition, hlast, Prod.Lex.toLex_le_toLex]
  rfl

/-- On an empty log the comparison asks for the vote instead. -/
theorem logGrants_iff_of_nil {state : State T} {req : ElectionVoteRequest}
    (hnil : state.log = []) : logGrants state req = true ↔ state.votedFor = none := by
  simp [logGrants, hnil]

/-- **The contract of `request_vote`.**  A grant is for a term that is not older, keeps
to the vote of the present term, and goes to a log that does not end earlier; it makes
the node a follower of that term which has voted for the candidate, and leaves its log
and its indices alone.  A refusal leaves everything alone and answers with the term. -/
theorem requestVote_sound {nodeId : NodeId} {env : Env} {state state' : State T}
    {req : ElectionVoteRequest} {resp : ElectionVoteResponse}
    (h : requestVote nodeId env state req = (state', resp)) :
    (resp.voteGranted = true →
      (state.nodeTerm ≤ req.term ∧
        (req.term = state.nodeTerm →
          state.votedFor = none ∨ state.votedFor = some req.candidateId) ∧
        lastPosition state.log ≤ toLex (req.lastLogTerm, req.lastLogIndex)) ∧
      (state'.nodeType = .follower ∧ state'.nodeTerm = req.term ∧
        state'.votedFor = some req.candidateId) ∧
      state'.log = state.log ∧ state'.commitedIndex = state.commitedIndex ∧
        state'.nextIndex = state.nextIndex ∧ state'.matchIndex = state.matchIndex) ∧
    (resp.voteGranted = false → state' = state ∧ resp.term = state.nodeTerm) := by
  rw [requestVote_eq] at h
  cases hgrant : grants state req with
  | false =>
    rw [hgrant] at h
    obtain ⟨rfl, rfl⟩ := Prod.mk.inj h
    exact ⟨fun hvote => absurd hvote Bool.false_ne_true, fun _ => ⟨rfl, rfl⟩⟩
  | true =>
    rw [hgrant] at h
    obtain ⟨rfl, rfl⟩ := Prod.mk.inj h
    obtain ⟨hterm, hother, hlog⟩ := grants_iff.1 hgrant
    refine ⟨fun _ => ⟨⟨hterm, ?_, lastPosition_le_of_logGrants hlog⟩, ?_, ?_⟩, fun hvote => ?_⟩
    · exact fun heq => votedForOther_eq_false.1 (hother heq)
    · exact ⟨rfl, rfl, rfl⟩
    · exact ⟨rfl, rfl, rfl, rfl⟩
    · exact absurd hvote.symm Bool.false_ne_true

/-- A voter of term 1 with one entry and the given vote. -/
abbrev voter (votedFor : Option NodeId) : State Nat :=
  State.new (.atTime 0) [] ⟨1, votedFor, [⟨7, 1⟩]⟩

/-- Both halves happen: the request of a candidate with one more entry is granted, and
refused by a node that has voted for another. -/
theorem requestVote_sound_grant_refuse :
    (requestVote 1 (.atTime 0) (voter none) ⟨1, 2, 2, 1⟩).1.votedFor = some 2 ∧
      (requestVote 1 (.atTime 0) (voter (some 3)) ⟨1, 2, 2, 1⟩).1.votedFor = some 3 := by
  have hgrant := requestVote_sound (Prod.mk.eta (p := requestVote 1 (.atTime 0) (voter none)
    ⟨1, 2, 2, 1⟩)).symm
  have hrefuse := requestVote_sound (Prod.mk.eta (p := requestVote 1 (.atTime 0)
    (voter (some 3)) ⟨1, 2, 2, 1⟩)).symm
  exact ⟨(hgrant.1 (by decide)).2.1.2.2,
    congrArg (fun state => state.votedFor) (hrefuse.2 (by decide)).1⟩

/-! ## Which votes are to be had -/

/-- The requests that are to be granted: the term is newer, or it is the present one and
the vote is free or already the candidate's; and the log does not end earlier. -/
structure Deserves (state : State T) (req : ElectionVoteRequest) : Prop where
  term : state.nodeTerm < req.term ∨ req.term = state.nodeTerm ∧
    (state.votedFor = none ∨ state.votedFor = some req.candidateId)
  upToDate : lastPosition state.log ≤ toLex (req.lastLogTerm, req.lastLogIndex)

/-- A deserved vote is only refused by the log comparison. -/
theorem Deserves.grants_eq {state : State T} {req : ElectionVoteRequest}
    (h : Deserves state req) : grants state req = logGrants state req := by
  have hterm : state.nodeTerm ≤ req.term := by
    rcases h.term with hlt | ⟨heq, _⟩
    · exact hlt.le
    · exact heq.ge
  have hother : req.term = state.nodeTerm → votedForOther state req = false := by
    intro heq
    rcases h.term with hlt | ⟨_, hfree⟩
    · exact absurd heq hlt.ne'
    · exact votedForOther_eq_false.2 hfree
  rw [Bool.eq_iff_iff, grants_iff]
  exact ⟨fun hgrants => hgrants.2.2, fun hlog => ⟨hterm, hother, hlog⟩⟩

/-- The comparison lets a deserved vote through, unless the log is empty and the node has
voted. -/
theorem Deserves.grants_iff {state : State T} {req : ElectionVoteRequest}
    (h : Deserves state req) :
    grants state req = true ↔ (state.log = [] → state.votedFor = none) := by
  rw [h.grants_eq]
  by_cases hnil : state.log = []
  · rw [logGrants_iff_of_nil hnil]
    simp [hnil]
  · rw [logGrants_iff_lastPosition hnil]
    simp [hnil, h.upToDate]

theorem voteGranted_requestVote (nodeId : NodeId) (env : Env) (state : State T)
    (req : ElectionVoteRequest) :
    (requestVote nodeId env state req).2.voteGranted = grants state req := by
  rw [requestVote_eq]
  cases hgrant : grants state req <;> rfl

/-- After a grant the same request still deserves the vote. -/
theorem Deserves.resend {state : State T} {req : ElectionVoteRequest} (h : Deserves state req)
    (env : Env) : Deserves (grantVote env state req) req where
  term := Or.inr ⟨rfl, Or.inr rfl⟩
  upToDate := h.upToDate

/-- **Which deserved votes are to be had.**  A request that deserves the vote gets it
exactly if the voter's log has entries or the voter has never voted, in whatever term;
and a request that was granted is granted again exactly if the log has entries. -/
theorem requestVote_available_iff {state : State T} {req : ElectionVoteRequest}
    (h : Deserves state req) (nodeId : NodeId) (env : Env) :
    ((requestVote nodeId env state req).2.voteGranted = true ↔
      (state.log = [] → state.votedFor = none)) ∧
    ((requestVote nodeId env state req).2.voteGranted = true → ∀ env',
      ((requestVote nodeId env' (requestVote nodeId env state req).1 req).2.voteGranted = true ↔
        state.log ≠ [])) := by
  constructor
  · rw [voteGranted_requestVote]
    exact h.grants_iff
  · intro hgranted env'
    have hgrants : grants state req = true := by rwa [voteGranted_requestVote] at hgranted
    have hstate : (requestVote nodeId env state req).1 = grantVote env state req := by
      rw [requestVote_eq, if_pos hgrants]
    rw [voteGranted_requestVote, hstate, (h.resend env).grants_iff]
    simp

/-- A voter of term 1 without entries and with the given vote. -/
abbrev emptyVoter (votedFor : Option NodeId) : State Nat :=
  State.new (.atTime 0) [] ⟨1, votedFor, []⟩

theorem requestVote_available_newTerm :
    (requestVote 1 (.atTime 0) (voter (some 3)) ⟨2, 2, 1, 1⟩).2.voteGranted = true :=
  (requestVote_available_iff ⟨by decide, by decide⟩ 1 (.atTime 0)).1.2 (by decide)

/-- A vote of term 1 blocks the request of term 2 at a node without entries. -/
theorem requestVote_not_available : Deserves (emptyVoter (some 3)) ⟨2, 2, 0, 0⟩ ∧
    (requestVote 1 (.atTime 0) (emptyVoter (some 3)) ⟨2, 2, 0, 0⟩).2.voteGranted = false :=
  ⟨⟨by decide, by decide⟩, by decide⟩

end Server
end Quaso
