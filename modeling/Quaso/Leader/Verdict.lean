import Quaso.Leader.Commit
import Quaso.Leader.Rounds

/-!
# What a round decides

The replies of a round decide about the node's role: grants make a candidate a
leader, and a refusal with a newer term should make a follower of whoever asked.

* `Elects`, `DeniedIn` — a quorum of votes, or a denial, comes first among the polls of
  an election; `ElectsLate` — the quorum comes after the election timeout.
* `election_outcome_iff` — an election ends as its polls decide exactly if the node has
  a peer, and no quorum comes late: the quorum is only tested in the loop over the
  peers, and the clock only before a peer is asked.
* `stepsDown_iff` — a refusal with a newer term makes the node step down exactly in an
  election: the heartbeat loop does not look at the term.
-/

namespace Quaso

variable {T : Type}

/-! ## The polls of an election -/

namespace Poll

/-- The peer grants its vote. -/
def grants (poll : Poll) : Bool :=
  match poll.answer with
  | .reply resp => resp.voteGranted
  | _ => false

/-- The term of a denial that is not older than the candidate's. -/
def denies (term : NodeTerm) (poll : Poll) : Option NodeTerm :=
  match poll.answer with
  | .reply resp =>
    if resp.voteGranted = false ∧ term ≤ resp.term then some resp.term else none
  | _ => none

/-- The request could be written. -/
def written (poll : Poll) : Bool :=
  match poll.answer with
  | .writeFailed => false
  | _ => true

end Poll

/-- A grant is no denial. -/
theorem Poll.denies_of_grants {poll : Poll} (h : poll.grants = true) (term : NodeTerm) :
    poll.denies term = none := by
  unfold Poll.grants at h
  unfold Poll.denies
  split at h
  · simp [h]
  · rfl

/-- All replies are received before the election timeout, and none is a denial. -/
def Undisturbed (deadline : Nat) (term : NodeTerm) (polls : List Poll) : Prop :=
  ∀ poll ∈ polls, poll.received ≤ deadline ∧ poll.denies term = none

/-- Before the election timeout and before any denial, a quorum of votes has been received,
the node's own among them. -/
def Elects (conf : Config) (deadline : Nat) (term : NodeTerm) (polls : List Poll) : Prop :=
  ∃ before after, polls = before ++ after ∧ Undisturbed deadline term before ∧
    getQuorumLength conf ≤ 1 + before.countP Poll.grants

/-- A denial with the given term comes first; the clock had not passed the election timeout
when its peer was asked. -/
def DeniedIn (conf : Config) (deadline : Nat) (term : NodeTerm) (polls : List Poll)
    (denial : NodeTerm) : Prop :=
  ∃ before poll after, polls = before ++ poll :: after ∧ Undisturbed deadline term before ∧
    1 + before.countP Poll.grants < getQuorumLength conf ∧
    poll.now ≤ deadline ∧ poll.denies term = some denial

/-- The grant that completes the quorum is received after the election timeout, from a peer
that was asked before it. -/
def ElectsLate (conf : Config) (deadline : Nat) (term : NodeTerm) (polls : List Poll) : Prop :=
  ∃ before poll after, polls = before ++ poll :: after ∧ Undisturbed deadline term before ∧
    poll.now ≤ deadline ∧ deadline < poll.received ∧ poll.grants = true ∧
    getQuorumLength conf = 1 + before.countP Poll.grants + 1

section

variable {conf : Config} {deadline : Nat} {term denial : NodeTerm} {polls : List Poll}

/-- What comes before the election timeout comes before a late reply. -/
theorem Undisturbed.isPrefix {before after rest : List Poll} {poll : Poll}
    (h : Undisturbed deadline term polls) (hlate : deadline < poll.received)
    (heq : before ++ poll :: after = polls ++ rest) : polls <+: before := by
  have hpolls : polls <+: before ++ poll :: after := ⟨rest, heq.symm⟩
  have hpoll : before ++ [poll] <+: before ++ poll :: after := ⟨after, by simp⟩
  rcases List.prefix_or_prefix_of_prefix hpolls hpoll with hshort | hlong
  · rcases List.prefix_concat_iff.1 hshort with rfl | hshort
    · exact absurd (h poll (by simp)).1 (not_le.2 hlate)
    · exact hshort
  · exact absurd (h poll (hlong.subset (by simp))).1 (not_le.2 hlate)

/-- Where all replies come in time no quorum comes late. -/
theorem not_electsLate (h : ∀ poll ∈ polls, poll.received ≤ deadline) :
    ¬ ElectsLate conf deadline term polls := by
  rintro ⟨before, poll, after, rfl, _, _, hlate, _⟩
  exact absurd (h poll (by simp)) (not_le.2 hlate)

/-- A quorum that comes late does not come in time. -/
theorem ElectsLate.not_elects (h : ElectsLate conf deadline term polls) :
    ¬ Elects conf deadline term polls := by
  obtain ⟨before, poll, after, rfl, _, _, hlate, _, hquorum⟩ := h
  rintro ⟨first, rest, heq, hfirst, hvotes⟩
  have hle : first.countP Poll.grants ≤ before.countP Poll.grants :=
    (hfirst.isPrefix hlate heq).sublist.countP_le
  omega

/-- No denial comes before a quorum that comes late. -/
theorem ElectsLate.not_deniedIn (h : ElectsLate conf deadline term polls) :
    ¬ DeniedIn conf deadline term polls denial := by
  obtain ⟨before, poll, after, rfl, hbefore, _, hlate, hgrant, _⟩ := h
  rintro ⟨first, last, rest, heq, hfirst, _, _, hdeny⟩
  -- the denial would come before the late grant, or be it
  have hmem : last ∈ before ++ [poll] := by
    have hle : first.length ≤ before.length := (hfirst.isPrefix hlate heq).length_le
    have hlast : first ++ [last] <+: before ++ poll :: after := ⟨rest, by simp [heq]⟩
    have hpoll : before ++ [poll] <+: before ++ poll :: after := ⟨after, by simp⟩
    exact (List.prefix_of_prefix_length_le hlast hpoll (by simpa using hle)).subset (by simp)
  have hnone : last.denies term = none := by
    rcases List.mem_append.1 hmem with hmem | hmem
    · exact (hbefore last hmem).2
    · rw [List.mem_singleton.1 hmem]
      exact Poll.denies_of_grants hgrant term
  rw [hnone] at hdeny
  cases hdeny

end

/-! ## The loop of an election -/

namespace Raft

variable {conf : Config} {state : State T} {poll : Poll} {polls before : List Poll}

/-- A poll that neither times out nor denies adds at most its vote. -/
theorem electionLoop_cons (polls : List Poll)
    (hvotes : state.votesRecieved.length < getQuorumLength conf)
    (htime : poll.now ≤ state.electionTimeout) (hdeny : poll.denies state.nodeTerm = none)
    (hwritten : poll.written = true) : ∃ votes : List NodeId,
      votes.length = state.votesRecieved.length + (if poll.grants then 1 else 0) ∧
      (electionLoop conf state (poll :: polls)).1 =
        if getQuorumLength conf ≤ votes.length then
          .won (initLeaderState conf { state with votesRecieved := votes })
        else (electionLoop conf { state with votesRecieved := votes } polls).1 := by
  rw [electionLoop, if_neg (not_lt.2 htime)]
  cases hanswer : poll.answer with
  | reply resp =>
    simp only [Poll.denies, hanswer, ite_eq_right_iff, reduceCtorEq, imp_false] at hdeny
    simp only [Poll.grants, hanswer, countVote, testQuorum]
    cases hgrant : resp.voteGranted with
    | true =>
      refine ⟨state.votesRecieved ++ [resp.nodeId], by simp, ?_⟩
      by_cases hquorum : getQuorumLength conf ≤ (state.votesRecieved ++ [resp.nodeId]).length
      · simp only [if_true, if_pos hquorum]
      · simp only [if_true, if_neg hquorum]
    | false =>
      refine ⟨state.votesRecieved, by simp, ?_⟩
      have hterm : ¬ state.nodeTerm ≤ resp.term := fun hle => hdeny ⟨hgrant, hle⟩
      simp [hterm, not_le.2 hvotes]
  | undecodable | none =>
    exact ⟨state.votesRecieved, by simp [Poll.grants, hanswer], by simp [not_le.2 hvotes]⟩
  | writeFailed => simp [Poll.written, hanswer] at hwritten

/-- Polls that do not bring a quorum together are counted and passed over. -/
theorem electionLoop_append (after : List Poll)
    (hbefore : Undisturbed state.electionTimeout state.nodeTerm before)
    (hwritten : ∀ poll ∈ before, poll.written = true)
    (hvotes : state.votesRecieved.length + before.countP Poll.grants < getQuorumLength conf) :
    ∃ votes : List NodeId,
      votes.length = state.votesRecieved.length + before.countP Poll.grants ∧
      (electionLoop conf state (before ++ after)).1
        = (electionLoop conf { state with votesRecieved := votes } after).1 := by
  induction before generalizing state with
  | nil => exact ⟨state.votesRecieved, by simp, rfl⟩
  | cons poll before ih =>
    obtain ⟨⟨hreceived, hdeny⟩, hrest⟩ := List.forall_mem_cons.1 hbefore
    have htime := poll.le_received.trans hreceived
    obtain ⟨hthis, hwritten⟩ := List.forall_mem_cons.1 hwritten
    rw [List.countP_cons] at hvotes
    have hown : state.votesRecieved.length < getQuorumLength conf := by omega
    obtain ⟨votes, hlen, heq⟩ := electionLoop_cons (before ++ after) hown htime hdeny hthis
    obtain ⟨votes', hlen', heq'⟩ := @ih { state with votesRecieved := votes } hrest hwritten
      (by simp only [hlen]; omega)
    refine ⟨votes', ?_, ?_⟩
    · rw [hlen', List.countP_cons]
      simp only [hlen]
      omega
    · rw [List.cons_append, heq, if_neg (by omega), heq']

/-- Polls that bring a quorum together win the election. -/
theorem electionLoop_of_quorum (after : List Poll)
    (hown : state.votesRecieved.length < getQuorumLength conf)
    (hbefore : Undisturbed state.electionTimeout state.nodeTerm before)
    (hwritten : ∀ poll ∈ before, poll.written = true)
    (hvotes : getQuorumLength conf ≤ state.votesRecieved.length + before.countP Poll.grants) :
    ∃ votes, (electionLoop conf state (before ++ after)).1
      = .won (initLeaderState conf { state with votesRecieved := votes }) := by
  induction before generalizing state with
  | nil =>
    rw [List.countP_nil] at hvotes
    omega
  | cons poll before ih =>
    obtain ⟨⟨hreceived, hdeny⟩, hrest⟩ := List.forall_mem_cons.1 hbefore
    have htime := poll.le_received.trans hreceived
    obtain ⟨hthis, hwritten⟩ := List.forall_mem_cons.1 hwritten
    rw [List.countP_cons] at hvotes
    obtain ⟨votes, hlen, heq⟩ := electionLoop_cons (before ++ after) hown htime hdeny hthis
    rw [List.cons_append, heq]
    split
    · exact ⟨votes, rfl⟩
    · rename_i hquorum
      exact @ih { state with votesRecieved := votes } (not_le.1 hquorum) hrest hwritten
        (by simp only [hlen]; omega)

/-- The turn of a denial. -/
theorem electionLoop_of_denial {denial : NodeTerm} (htime : poll.now ≤ state.electionTimeout)
    (hdeny : poll.denies state.nodeTerm = some denial) :
    (electionLoop conf state (poll :: polls)).1
      = .denied { state with votedFor := none } denial := by
  unfold Poll.denies at hdeny
  split at hdeny
  · rename_i resp hanswer
    rw [Option.ite_none_right_eq_some, Option.some.injEq] at hdeny
    obtain ⟨⟨hgrant, hterm⟩, rfl⟩ := hdeny
    rw [electionLoop, if_neg (not_lt.2 htime), hanswer]
    simp [countVote, hgrant, hterm]
  · cases hdeny

/-- **The vote that wins.**  A loop that wins is left at a grant that completes the quorum;
all replies before it were received before the election timeout. -/
theorem electionLoop_eq_won {clock : Nat} {state' : State T}
    (hown : state.votesRecieved.length < getQuorumLength conf)
    (hwritten : ∀ poll ∈ polls, poll.written = true) (hclock : InOrder clock polls)
    (h : (electionLoop conf state polls).1 = .won state') :
    ∃ before poll after, polls = before ++ poll :: after ∧
      Undisturbed state.electionTimeout state.nodeTerm before ∧
      poll.now ≤ state.electionTimeout ∧ poll.grants = true ∧
      getQuorumLength conf = state.votesRecieved.length + before.countP Poll.grants + 1 := by
  induction polls generalizing state clock with
  | nil => cases h
  | cons poll polls ih =>
    obtain ⟨hthis, hwritten⟩ := List.forall_mem_cons.1 hwritten
    by_cases htime : poll.now ≤ state.electionTimeout
    · cases hdeny : poll.denies state.nodeTerm with
      | some denial =>
        rw [electionLoop_of_denial htime hdeny] at h
        cases h
      | none =>
        obtain ⟨votes, hlen, heq⟩ := electionLoop_cons polls hown htime hdeny hthis
        by_cases hquorum : getQuorumLength conf ≤ votes.length
        · have hgrant : poll.grants = true := by
            by_contra hgrant
            rw [if_neg hgrant] at hlen
            omega
          rw [if_pos hgrant] at hlen
          refine ⟨[], poll, polls, rfl, by simp [Undisturbed], htime, hgrant, ?_⟩
          rw [List.countP_nil]
          omega
        · rw [heq, if_neg hquorum] at h
          obtain ⟨before, last, after, rfl, hbefore, hlast, hgrant, hvotes⟩ :=
            @ih { state with votesRecieved := votes } poll.received (not_le.1 hquorum) hwritten
              hclock.2 h
          -- the last peer was asked in time, so this reply had come
          have hmem : last ∈ before ++ last :: after := by simp
          have hreceived : poll.received ≤ state.electionTimeout :=
            (hclock.2.le_now hmem).trans hlast
          refine ⟨poll :: before, last, after, rfl,
            List.forall_mem_cons.2 ⟨⟨hreceived, hdeny⟩, hbefore⟩, hlast, hgrant, ?_⟩
          rw [List.countP_cons]
          simp only [hlen] at hvotes
          omega
    · rw [electionLoop, if_pos (not_le.1 htime)] at h
      cases h

/-- An election that does not win settles without the leader role. -/
theorem electionLoop_settle (hwritten : ∀ poll ∈ polls, poll.written = true)
    (hrole : state.nodeType ≠ .leader)
    (hlost : ∀ state', (electionLoop conf state polls).1 ≠ .won state') :
    ∃ state', (electionLoop conf state polls).1.settle id = some state' ∧
      state'.nodeType ≠ .leader := by
  induction polls generalizing state with
  | nil => exact ⟨state, rfl, hrole⟩
  | cons poll polls ih =>
    obtain ⟨hthis, hwritten⟩ := List.forall_mem_cons.1 hwritten
    unfold electionLoop at hlost ⊢
    split
    · exact ⟨_, rfl, by simp [State.transition]⟩
    · rename_i htime
      rw [if_neg htime] at hlost
      cases hanswer : poll.answer with
      | reply resp =>
        simp only [hanswer] at hlost ⊢
        cases hcount : countVote conf state resp with
        | next state' =>
          obtain ⟨votes, _, rfl⟩ := countVote_eq_next hcount
          simp only [hcount] at hlost ⊢
          exact ih hwritten hrole hlost
        | denied state' term => exact ⟨_, rfl, by simp [State.transitionToTerm]⟩
        | won state' =>
          simp only [hcount] at hlost
          exact absurd rfl (hlost state')
      | undecodable | none =>
        simp only [hanswer] at hlost ⊢
        exact ih hwritten hrole hlost
      | writeFailed => simp [Poll.written, hanswer] at hthis

/-- A denial that was decoded has ended the loop. -/
theorem electionLoop_of_mem {resp : ElectionVoteResponse}
    (hmem : resp ∈ (electionLoop conf state polls).2) (hgrant : resp.voteGranted = false)
    (hterm : state.nodeTerm ≤ resp.term) :
    ∃ state', (electionLoop conf state polls).1 = .denied state' resp.term := by
  induction polls generalizing state with
  | nil => cases hmem
  | cons poll polls ih =>
    unfold electionLoop at hmem ⊢
    split at hmem
    · cases hmem
    · rename_i htime
      rw [if_neg htime]
      cases hanswer : poll.answer with
      | reply reply =>
        simp only [hanswer] at hmem ⊢
        -- the reply is the one that was looked for, or comes before it
        by_cases hthis : reply = resp
        · subst hthis
          exact ⟨{ state with votedFor := none }, by simp [countVote, hgrant, hterm]⟩
        · cases hcount : countVote conf state reply with
          | next state' =>
            obtain ⟨votes, _, rfl⟩ := countVote_eq_next hcount
            simp only [hcount] at hmem ⊢
            exact ih ((List.mem_cons.1 hmem).resolve_left (Ne.symm hthis)) hterm
          | denied state' term =>
            simp only [hcount, List.mem_singleton] at hmem
            exact absurd hmem.symm hthis
          | won state' =>
            simp only [hcount, List.mem_singleton] at hmem
            exact absurd hmem.symm hthis
      | undecodable | none =>
        simp only [hanswer] at hmem ⊢
        exact ih hmem hterm
      | writeFailed =>
        simp only [hanswer] at hmem
        cases hmem

end Raft

/-! ## The outcome of an election -/

/-- The election ends as its polls decide: a quorum that comes first makes the node leader
of its term, with fresh maps; a denial that comes first makes it a follower of the denial's
term without a vote; and otherwise it does not lead. -/
structure EndsAsPolled (conf : Config) (env : Env) (state : State T) (polls : List Poll) :
    Prop where
  won : Elects conf (env.now + env.electionTime) state.nodeTerm polls →
    ∃ state', Raft.handleCandidateElection conf env id state polls = some state' ∧
      state'.nodeType = .leader ∧ state'.nodeTerm = state.nodeTerm ∧
      ∀ conn ∈ conf.connections, state'.nextIndex.lookup conn = some (state.log.length + 1) ∧
        state'.matchIndex.lookup conn = some 0
  denied : ∀ denial,
    DeniedIn conf (env.now + env.electionTime) state.nodeTerm polls denial →
      ∃ state', Raft.handleCandidateElection conf env id state polls = some state' ∧
        state'.nodeType = .follower ∧ state'.nodeTerm = denial ∧ state'.votedFor = none
  undecided : ¬ Elects conf (env.now + env.electionTime) state.nodeTerm polls →
    (∀ denial, ¬ DeniedIn conf (env.now + env.electionTime) state.nodeTerm polls denial) →
      ∃ state', Raft.handleCandidateElection conf env id state polls = some state' ∧
        state'.nodeType ≠ .leader

/-- A node without peers has its quorum, and asks nobody. -/
theorem elects_of_no_peers {conf : Config} (hconns : conf.connections = []) (deadline : Nat)
    (term : NodeTerm) : Elects conf deadline term [] := by
  refine ⟨[], [], rfl, by simp [Undisturbed], ?_⟩
  rw [getQuorumLength_of_lt (by simp [hconns]), hconns]
  decide

section

variable {conf : Config} {env : Env} {state : State T} {polls : List Poll}

/-- A quorum that comes in time makes the node leader, with fresh maps. -/
theorem Elects.leads (h : Elects conf (env.now + env.electionTime) state.nodeTerm polls)
    (hconns : conf.connections ≠ []) (hwritten : ∀ poll ∈ polls, poll.written = true) :
    ∃ state', Raft.handleCandidateElection conf env id state polls = some state' ∧
      state'.nodeType = .leader ∧ state'.nodeTerm = state.nodeTerm ∧
      ∀ conn ∈ conf.connections, state'.nextIndex.lookup conn = some (state.log.length + 1) ∧
        state'.matchIndex.lookup conn = some 0 := by
  obtain ⟨before, after, rfl, hbefore, hvotes⟩ := h
  have hown : (Raft.startElection conf env state).votesRecieved.length < getQuorumLength conf :=
    two_le_getQuorumLength hconns
  obtain ⟨votes, hloop⟩ := Raft.electionLoop_of_quorum after hown hbefore
    (fun poll hmem => hwritten poll (List.mem_append_left _ hmem)) hvotes
  refine ⟨_, by rw [Raft.handleCandidateElection, hloop]; rfl, rfl,
    Fin.add_zero state.nodeTerm, fun conn hconn => ?_⟩
  simp [State.transition, Raft.initLeaderState, IndexMap.lookup_insertAll, hconn,
    Raft.startElection, State.resetElectionTimeout]

/-- A denial that comes first makes the node a follower of its term, without a vote. -/
theorem DeniedIn.follows {denial : NodeTerm}
    (h : DeniedIn conf (env.now + env.electionTime) state.nodeTerm polls denial)
    (hwritten : ∀ poll ∈ polls, poll.written = true) :
    ∃ state', Raft.handleCandidateElection conf env id state polls = some state' ∧
      state'.nodeType = .follower ∧ state'.nodeTerm = denial ∧ state'.votedFor = none := by
  obtain ⟨before, poll, after, rfl, hbefore, hvotes, htime, hdeny⟩ := h
  have hbefore : Undisturbed (Raft.startElection conf env state).electionTimeout
    (Raft.startElection conf env state).nodeTerm before := hbefore
  obtain ⟨votes, _, hloop⟩ := Raft.electionLoop_append (poll :: after) hbefore
    (fun poll hmem => hwritten poll (List.mem_append_left _ hmem)) hvotes
  have hend := hloop.trans (Raft.electionLoop_of_denial htime hdeny)
  exact ⟨_, by rw [Raft.handleCandidateElection, hend]; rfl, rfl, rfl, rfl⟩

/-- A quorum that comes late makes the node leader, too. -/
theorem ElectsLate.leads (h : ElectsLate conf (env.now + env.electionTime) state.nodeTerm polls)
    (hwritten : ∀ poll ∈ polls, poll.written = true) :
    ∃ state', Raft.handleCandidateElection conf env id state polls = some state' ∧
      state'.nodeType = .leader := by
  obtain ⟨before, poll, after, rfl, hbefore, htime, _, hgrant, hquorum⟩ := h
  have hbefore : Undisturbed (Raft.startElection conf env state).electionTimeout
    (Raft.startElection conf env state).nodeTerm before := hbefore
  have hshort : (Raft.startElection conf env state).votesRecieved.length
      + before.countP Poll.grants < getQuorumLength conf :=
    (Nat.lt_succ_self _).trans_eq hquorum.symm
  obtain ⟨votes, hlen, hloop⟩ := Raft.electionLoop_append (poll :: after) hbefore
    (fun poll hmem => hwritten poll (List.mem_append_left _ hmem)) hshort
  -- one vote is missing, and this poll brings it
  obtain ⟨votes', hlen', heq⟩ := @Raft.electionLoop_cons T conf
    { Raft.startElection conf env state with votesRecieved := votes } poll after
    (hlen ▸ hshort) htime (Poll.denies_of_grants hgrant _) (hwritten poll (by simp))
  have hreached : getQuorumLength conf ≤ votes'.length := by
    rw [hlen', if_pos hgrant, hlen]
    exact hquorum.le
  rw [if_pos hreached] at heq
  exact ⟨_, by rw [Raft.handleCandidateElection, hloop, heq]; rfl, rfl⟩

/-- Nothing else makes the node leader. -/
theorem Raft.handleCandidateElection_settles (hconns : conf.connections ≠ [])
    (hclock : InOrder env.now polls) (hrole : state.nodeType ≠ .leader)
    (hwritten : ∀ poll ∈ polls, poll.written = true)
    (hnot : ¬ Elects conf (env.now + env.electionTime) state.nodeTerm polls)
    (hnotLate : ¬ ElectsLate conf (env.now + env.electionTime) state.nodeTerm polls) :
    ∃ state', handleCandidateElection conf env id state polls = some state' ∧
      state'.nodeType ≠ .leader := by
  have hown : (startElection conf env state).votesRecieved.length < getQuorumLength conf :=
    two_le_getQuorumLength hconns
  refine electionLoop_settle hwritten hrole fun state' hwon => ?_
  obtain ⟨before, poll, after, rfl, hbefore, htime, hgrant, hquorum⟩ :=
    electionLoop_eq_won hown hwritten hclock hwon
  by_cases hreceived : poll.received ≤ env.now + env.electionTime
  · refine hnot ⟨before ++ [poll], after, by simp, ?_, ?_⟩
    · intro p hp
      rcases List.mem_append.1 hp with hp | hp
      · exact hbefore p hp
      · rw [List.mem_singleton.1 hp]
        exact ⟨hreceived, Poll.denies_of_grants hgrant _⟩
    · rw [List.countP_append, List.countP_singleton, if_pos hgrant]
      exact hquorum.le
  · exact hnotLate ⟨before, poll, after, rfl, hbefore, htime, not_le.1 hreceived, hgrant, hquorum⟩

end

/-- **When an election ends as its polls decide.**  It does exactly if the node has a peer,
and the grant that completes the quorum is not received after the election timeout. -/
theorem election_outcome_iff {conf : Config} {state : State T} {polls : List Poll} (env : Env)
    (hlen : polls.length = conf.connections.length) (hclock : InOrder env.now polls)
    (hrole : state.nodeType = .candidate) (hwritten : ∀ poll ∈ polls, poll.written = true) :
    EndsAsPolled conf env state polls ↔ conf.connections ≠ [] ∧
      ¬ ElectsLate conf (env.now + env.electionTime) state.nodeTerm polls := by
  have hnotLeader : state.nodeType ≠ .leader := by simp [hrole]
  constructor
  · intro hends
    refine ⟨fun hconns => ?_, fun hlate => ?_⟩
    · obtain rfl : polls = [] := List.eq_nil_of_length_eq_zero (by rw [hlen, hconns]; rfl)
      obtain ⟨state', hresult, hleader, _⟩ := hends.won (elects_of_no_peers hconns _ _)
      obtain rfl := Option.some.inj hresult
      exact hnotLeader hleader
    · obtain ⟨state', hresult, hleader⟩ := hlate.leads hwritten
      obtain ⟨state'', hresult', hnot⟩ :=
        hends.undecided hlate.not_elects fun _ => hlate.not_deniedIn
      obtain rfl := Option.some.inj (hresult.symm.trans hresult')
      exact hnot hleader
  · rintro ⟨hconns, hnotLate⟩
    refine ⟨fun helects => ?_, fun denial hdenied => ?_, fun hnot _ => ?_⟩
    · exact helects.leads hconns hwritten
    · exact hdenied.follows hwritten
    · exact Raft.handleCandidateElection_settles hconns hclock hnotLeader hwritten hnot hnotLate

/-- A candidate of term 1. -/
abbrev candidateOfThree : State Nat :=
  { State.new (.atTime 0) [] ⟨1, some 1, []⟩ with nodeType := .candidate }

/-- One peer does not answer, the other grants. -/
theorem election_outcome_granted : ∃ state', Raft.handleCandidateElection Raft.confOfThree
      (.atTime 0) id candidateOfThree [⟨10, 15, .none, by decide⟩,
        ⟨20, 25, .reply ⟨3, 1, true⟩, by decide⟩] = some state' ∧
    state'.nodeType = .leader ∧ state'.nodeTerm = 1 ∧
    ∀ conn ∈ Raft.confOfThree.connections, state'.nextIndex.lookup conn = some 1 ∧
      state'.matchIndex.lookup conn = some 0 :=
  ((election_outcome_iff (.atTime 0) rfl (by simp [InOrder, Env.atTime]) rfl (by decide)).2
    ⟨by decide, not_electsLate (by decide)⟩).won
    ⟨_, [], (List.append_nil _).symm, by simp [Undisturbed, Poll.denies, Env.atTime], by decide⟩

/-- The grant of the only peer is received after the election timeout. -/
abbrev lateGrant : List Poll := [⟨10, 1000, .reply ⟨2, 1, true⟩, by decide⟩]

/-- A node without peers has a quorum with its own vote, and stays candidate; and a node
becomes leader with a vote that it receives after the election timeout. -/
theorem not_election_outcome :
    ¬ EndsAsPolled ⟨1, "a", []⟩ (.atTime 0) candidateOfThree [] ∧
      ¬ EndsAsPolled ⟨1, "a", ["b"]⟩ (.atTime 0) candidateOfThree lateGrant := by
  refine ⟨fun hends => ?_, fun hends => ?_⟩
  · obtain ⟨state', hresult, hleader, _⟩ := hends.won (elects_of_no_peers rfl _ _)
    obtain rfl := Option.some.inj hresult
    cases hleader
  · have hlate : ElectsLate ⟨1, "a", ["b"]⟩ ((Env.atTime 0).now + (Env.atTime 0).electionTime)
        candidateOfThree.nodeTerm lateGrant :=
      ⟨[], _, [], rfl, by simp [Undisturbed], by decide, by decide, rfl, by decide⟩
    obtain ⟨state', hresult, hnot⟩ :=
      hends.undecided hlate.not_elects fun _ => hlate.not_deniedIn
    obtain rfl := Option.some.inj hresult
    exact hnot rfl

/-! ## Stepping down -/

/-- A round of requests with all that comes back; `meanwhile` is what handlers do to the
state while an election has dropped the lock. -/
inductive Round (T : Type) where
  | election (env : Env) (meanwhile : State T → State T) (polls : List Poll)
  | heartbeat (env last : Env) (answers : List (Addr × Answer AppendEntriesResponse))

namespace Round

def isElection : Round T → Bool
  | .election .. => true
  | .heartbeat .. => false

/-- The state when the call returns. -/
def finish (conf : Config) (state : State T) : Round T → Option (State T)
  | .election env meanwhile polls => Raft.handleCandidateElection conf env meanwhile state polls
  | .heartbeat env last answers => Raft.maybeSendHeartbeat conf env last state answers

/-- The term of a vote that is not granted. -/
def voteRefusal (resp : ElectionVoteResponse) : Option NodeTerm :=
  if resp.voteGranted then none else some resp.term

/-- The term of an append request that is not accepted. -/
def appendRefusal : Answer AppendEntriesResponse → Option NodeTerm
  | .reply resp => if resp.success then none else some resp.term
  | _ => none

/-- The terms of the refusals that the call decodes. -/
def refusals (conf : Config) (state : State T) : Round T → List NodeTerm
  | .election env _ polls =>
    (Raft.electionLoop conf (Raft.startElection conf env state) polls).2.filterMap voteRefusal
  | .heartbeat env _ answers =>
    if state.nodeType = .leader ∧ ¬ env.now < state.heartbeatTimeout then
      answers.filterMap fun answer => appendRefusal answer.2
    else []

end Round

variable {conf : Config} {state state' : State T} {round : Round T}

/-- A round of heartbeats leaves the node's role alone. -/
theorem Round.finish_heartbeat {env last : Env}
    {answers : List (Addr × Answer AppendEntriesResponse)}
    (hfinish : (Round.heartbeat env last answers).finish conf state = some state') :
    state'.nodeType = state.nodeType := by
  rw [finish, Raft.maybeSendHeartbeat] at hfinish
  split at hfinish
  · rw [← Option.some.inj hfinish]
  · split at hfinish
    · rw [← Option.some.inj hfinish]
    · obtain ⟨s, hloop, rfl⟩ := Option.map_eq_some_iff.1 hfinish
      rw [Raft.heartbeatEnd_nodeType, Raft.heartbeatLoop_nodeType hloop]

/-- Only a leader decodes refusals of heartbeats. -/
theorem Round.leader_of_refusals {env last : Env}
    {answers : List (Addr × Answer AppendEntriesResponse)} {term : NodeTerm}
    (hmem : term ∈ (Round.heartbeat env last answers).refusals conf state) :
    state.nodeType = .leader := by
  by_contra hrole
  rw [refusals, if_neg fun hsent => hrole hsent.1] at hmem
  cases hmem

/-- **When a node steps down.**  Whenever a call decodes a refusal with a newer term, the
node is afterwards a follower of this term or a later one, exactly if the call is an
election, or decodes no such refusal. -/
theorem stepsDown_iff (hfinish : round.finish conf state = some state') :
    (∀ term ∈ round.refusals conf state, state.nodeTerm < term →
      state'.nodeType = .follower ∧ term ≤ state'.nodeTerm) ↔
    round.isElection = true ∨ ∀ term ∈ round.refusals conf state, term ≤ state.nodeTerm := by
  cases round with
  | election env meanwhile polls =>
    refine iff_of_true (fun term hmem hlt => ?_) (Or.inl rfl)
    obtain ⟨resp, hresp, hrefusal⟩ := List.mem_filterMap.1 hmem
    rw [Round.voteRefusal, Option.ite_none_left_eq_some, Option.some.injEq] at hrefusal
    obtain ⟨hgrant, rfl⟩ := hrefusal
    obtain ⟨s, hloop⟩ := Raft.electionLoop_of_mem hresp (Bool.eq_false_iff.2 hgrant) hlt.le
    rw [Round.finish, Raft.handleCandidateElection, hloop] at hfinish
    rw [← Option.some.inj hfinish]
    exact ⟨rfl, le_rfl⟩
  | heartbeat env last answers =>
    constructor
    · intro hdown
      refine Or.inr fun term hmem => ?_
      -- A newer term would have made a follower of the leader.
      by_contra hnewer
      have hfollower := (hdown term hmem (not_le.1 hnewer)).1
      rw [Round.finish_heartbeat hfinish, Round.leader_of_refusals hmem] at hfollower
      cases hfollower
    · rintro (helection | hnone)
      · cases helection
      · exact fun term hmem hlt => absurd hlt (not_lt.2 (hnone term hmem))

/-- An election in which a peer of term 5 refuses. -/
abbrev refusedElection : Round Nat :=
  .election (.atTime 0) id [⟨10, 15, .reply ⟨2, 5, false⟩, by decide⟩, ⟨20, 25, .none, by decide⟩]

/-- A round of heartbeats in which a peer of term 5 refuses. -/
abbrev refusedHeartbeat : Round Nat :=
  .heartbeat (.atTime 10) (.atTime 11) [("b", .reply ⟨2, 5, false⟩), ("c", .none)]

theorem stepsDown_election : ∃ state',
    refusedElection.finish Raft.confOfThree candidateOfThree = some state' ∧
      state'.nodeType = .follower ∧ 5 ≤ state'.nodeTerm := by
  obtain ⟨state', hfinish⟩ : ∃ state',
      refusedElection.finish Raft.confOfThree candidateOfThree = some state' := ⟨_, rfl⟩
  exact ⟨state', hfinish, (stepsDown_iff hfinish).2 (Or.inl rfl) 5 (by decide) (by decide)⟩

/-- A leader of term 1 hears of term 5 from a peer that rejects its heartbeat, and goes on
leading term 1. -/
theorem not_stepsDown :
    5 ∈ refusedHeartbeat.refusals Raft.confOfThree (Raft.leaderOfThree 2 1 2) ∧
    ∃ state', refusedHeartbeat.finish Raft.confOfThree (Raft.leaderOfThree 2 1 2) = some state' ∧
      state'.nodeType = .leader ∧ state'.nodeTerm = 1 :=
  ⟨by decide, _, rfl, rfl, rfl⟩

end Quaso
