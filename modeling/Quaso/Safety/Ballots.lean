import Quaso.Safety.LogMatching

/-!
# The logs behind the votes

What a vote is worth depends on the log the voter had when it cast it.
`Ballots` keeps that log for every node and term, and `BallotSound` says what
the votes stand for: a candidate's ballot covers the ballots of its voters, and
whoever leads a term started from its own ballot.

From here on logs only grow: the runs are those of `ExtendOk`.
-/

namespace Quaso

variable {n : Nat} {C : ClusterConfig n} {T : Type}

/-- Whether a node has cast a vote of the term. -/
def Node.HasVoted (node : Node T) (t : NodeTerm) : Prop := t ∈ node.cast.map Prod.fst

instance (node : Node T) (t : NodeTerm) : Decidable (node.HasVoted t) :=
  inferInstanceAs (Decidable (_ ∈ _))

theorem Node.hasVoted_of_cast {node : Node T} {t : NodeTerm} {c : NodeId}
    (h : (t, c) ∈ node.cast) : node.HasVoted t :=
  List.mem_map.2 ⟨(t, c), h, rfl⟩

theorem Node.HasVoted.exists {node : Node T} {t : NodeTerm} (h : node.HasVoted t) :
    ∃ c, (t, c) ∈ node.cast := by
  obtain ⟨⟨t', c⟩, hmem, rfl⟩ := List.mem_map.1 h
  exact ⟨c, hmem⟩

/-- The log each node had when it first voted in each term; where it has not voted yet,
its present log. -/
abbrev Ballots (n : Nat) (T : Type) := Fin n → NodeTerm → List (LogEntry T)

/-- Note the log of node `i` for the terms it had not voted in before the step. -/
def Ballots.record (b : Ballots n T) (s s' : Cluster C T) (i : Fin n) : Ballots n T :=
  fun j t => if j = i ∧ ¬ (s.nodes i).HasVoted t then (s'.nodes i).state.log else b j t

namespace Ballots

variable {b : Ballots n T} {s s' : Cluster C T} {i : Fin n} {t : NodeTerm}

theorem record_of_ne {j : Fin n} (h : j ≠ i) : b.record s s' i j t = b j t :=
  if_neg fun hand => h hand.1

theorem record_of_hasVoted {j : Fin n} (h : (s.nodes j).HasVoted t) :
    b.record s s' i j t = b j t :=
  if_neg fun hand => hand.2 (hand.1 ▸ h)

theorem record_of_not_hasVoted (h : ¬ (s.nodes i).HasVoted t) :
    b.record s s' i i t = (s'.nodes i).state.log :=
  if_pos ⟨rfl, h⟩

end Ballots

/-! ## Vote requests -/

/-- The vote request tells the length and the last term of the log. -/
def ElectionVoteRequest.Describes (req : ElectionVoteRequest) (log : List (LogEntry T)) : Prop :=
  req.lastLogIndex = log.length ∧ req.lastLogTerm = (log.getLast?.map LogEntry.term).getD 0

theorem voteRequest_describes (conf : Config) (state : State T) :
    (Raft.voteRequest conf state).Describes state.log := by
  unfold Raft.voteRequest
  split
  · rename_i hlast
    exact ⟨rfl, by rw [hlast]; rfl⟩
  · rename_i hlast
    rw [List.getLast?_eq_none_iff] at hlast
    exact ⟨by rw [hlast]; rfl, by rw [hlast]; rfl⟩

/-- A node that grants has a log that the candidate's log covers. -/
theorem covers_of_logGrants {state : State T} {req : ElectionVoteRequest} {log : List (LogEntry T)}
    (hgrant : Server.logGrants state req = true) (hdescribes : req.Describes log) :
    TermLog.Covers LogEntry.term log state.log := by
  intro x hx
  obtain ⟨hlen, hterm⟩ := hdescribes
  have hpos : 0 < state.log.length := List.length_pos_of_mem (List.mem_of_getLast? hx)
  rw [Server.logGrants_iff hx, hlen, hterm] at hgrant
  cases hlast : log.getLast? with
  | none =>
    rw [hlast] at hgrant
    rw [List.getLast?_eq_none_iff] at hlast
    rcases hgrant with hlt | ⟨_, hle⟩
    · exact absurd hlt (not_lt.2 (Fin.zero_le _))
    · rw [hlast, List.length_nil] at hle
      omega
  | some y =>
    rw [hlast] at hgrant
    exact ⟨y, rfl, hgrant⟩

namespace Cluster

variable {s s' : Cluster C T} {l : Label n T} {action : Action T} {effect : Effect T}
  {w : Writers n T} {b : Ballots n T}

/-! ## Steps of `ExtendOk` -/

/-- A step of a run of `ExtendOk`, with what is known before and after it. -/
structure ExtendStep (s s' : Cluster C T) (l : Label n T) (action : Action T) (effect : Effect T)
    (w : Writers n T) : Prop where
  quorum : ∀ i, n < 2 * getQuorumLength (C.conf i)
  moves : s.Moves s' l action effect
  ok : ExtendOk (s.nodes l.node) action
  lead : LeadSound s
  lead' : LeadSound s'
  ledger : LedgerSound s w
  grows : w.Le (w.record s' l.node)

namespace ExtendStep

/-- An accepted request continues the log at its end. -/
theorem accepts_at_end (h : s.ExtendStep s' l action effect w) {req : AppendEntriesRequest T}
    (hhandled : (s.nodes l.node).handled action = some (.appendEntries req))
    (haccept : Server.accepts (s.nodes l.node).state req = true) :
    req.prevLogIndex = (s.nodes l.node).state.log.length := by
  have hshift := h.ok.2
  simpa [shiftedAppend, hhandled, haccept] using hshift

theorem log_isPrefix (h : s.ExtendStep s' l action effect w) (j : Fin n) :
    (s.nodes j).state.log <+: (s'.nodes j).state.log := by
  by_cases hj : j = l.node
  · subst hj
    cases h.moves.acting.logMove with
    | keep hlog => exact hlog ▸ List.prefix_rfl
    | append value hrole hstate =>
      rw [hstate]
      exact List.prefix_append _ _
    | commit order haction horder hstate =>
      rw [hstate]
      simp
    | accept cid req commit sent hlock hlistener hhandled haccept hstate =>
      have hend := h.accepts_at_end hhandled haccept
      rw [hstate]
      simp only [Server.acceptEntries_log]
      rw [Server.spliceEntries, if_neg (by omega)]
      exact List.prefix_append _ _
  · rw [h.moves.others j hj]

/-- While a node campaigns its log does not change. -/
theorem log_of_campaign (h : s.ExtendStep s' l action effect w) {t : NodeTerm}
    (hcampaign : (s.nodes l.node).tick.campaign = some t) :
    (s'.nodes l.node).state.log = (s.nodes l.node).state.log := by
  cases h.moves.acting.logMove with
  | keep hlog => exact hlog
  | append value hrole => exact absurd hrole ((h.lead.phase l.node).not_leader hcampaign)
  | commit order haction horder hstate =>
    rw [hstate]
    simp
  | accept cid req commit sent hlock hlistener hhandled haccept hstate =>
    -- the lock is free, so the votes are counted, and then no handler changes the log
    have hgap := h.ok.1.2
    cases htick : (s.nodes l.node).tick with
    | won q log =>
      obtain ⟨⟨_, hprev⟩, hentries⟩ : (req.term = (s.nodes l.node).state.nodeTerm ∧
          req.prevLogIndex = (s.nodes l.node).state.log.length) ∧ req.entries = [] := by
        simpa [GapOk, wonWrite, htick, hhandled, haccept] using hgap
      simp [hstate, hprev, hentries]
    | election | electionWait => simp [htick, Tick.holdsLock] at hlock
    | _ => simp [htick, Tick.campaign] at hcampaign

end ExtendStep

/-! ## The invariant -/

/-- What the votes stand for. -/
structure BallotSound (s : Cluster C T) (w : Writers n T) (b : Ballots n T) : Prop where
  cast : ∀ j t, (s.nodes j).HasVoted t → b j t <+: (s.nodes j).state.log
  /-- A node that campaigns has voted for itself, and still has that log. -/
  campaign : ∀ i t, (s.nodes i).tick.campaign = some t →
    s.Voted i i t ∧ b i t = (s.nodes i).state.log
  asked : ∀ cid i dst req, s.Carries cid i dst (.requestVote req) →
    req.candidateId = (C.conf i).nodeId ∧ s.Voted i i req.term ∧ req.Describes (b i req.term)
  covered : ∀ j i t, s.Voted j i t →
    s.Voted i i t ∧ TermLog.Covers LogEntry.term (b i t) (b j t)
  /-- A leader started from its ballot, which has no entry of its term. -/
  written : ∀ t i L, w t = some (i, L) → b i t <+: L ∧ ∀ e ∈ b i t, e.term < t

theorem Voted.hasVoted {i j : Fin n} {t : NodeTerm} (h : s.Voted j i t) :
    (s.nodes j).HasVoted t :=
  Node.hasVoted_of_cast h

theorem Elected.voted_self {i : Fin n} {t : NodeTerm} (h : s.Elected i t) : s.Voted i i t :=
  let ⟨_, hself, _, hvoted⟩ := h
  hvoted i hself

namespace BallotSound

theorem start (C : ClusterConfig n) (T : Type) (boot : Fin n → Env) :
    BallotSound (Cluster.start C T boot) (fun _ => none) fun _ _ => [] where
  cast := by
    intro j t h
    cases h
  campaign := by
    intro i t h
    cases h
  asked := by
    rintro cid i dst req ⟨c, hget, _⟩
    cases hget
  covered := by
    intro j i t h
    cases h
  written := nofun

section Step

variable (h : s.ExtendStep s' l action effect w) (hb : BallotSound s w b)

include h hb

theorem step_cast (j : Fin n) (t : NodeTerm) (hvoted : (s'.nodes j).HasVoted t) :
    b.record s s' l.node j t <+: (s'.nodes j).state.log := by
  by_cases hold : (s.nodes j).HasVoted t
  · rw [Ballots.record_of_hasVoted hold]
    exact (hb.cast j t hold).trans (h.log_isPrefix j)
  · by_cases hj : j = l.node
    · subst hj
      rw [Ballots.record_of_not_hasVoted hold]
    · rw [h.moves.others j hj] at hvoted
      exact absurd hvoted hold

theorem step_campaign (i : Fin n) (t : NodeTerm) (hcampaign : (s'.nodes i).tick.campaign = some t) :
    s'.Voted i i t ∧ b.record s s' l.node i t = (s'.nodes i).state.log := by
  by_cases hi : i = l.node
  · subst hi
    rcases h.moves.acting.campaign_cases hcampaign with hold | ⟨htick, rfl, hcast⟩
    · obtain ⟨hvoted, hlog⟩ := hb.campaign _ t hold
      rw [Ballots.record_of_hasVoted hvoted.hasVoted, h.log_of_campaign hold]
      exact ⟨h.moves.voted hvoted, hlog⟩
    · refine ⟨hcast, Ballots.record_of_not_hasVoted fun hvoted => ?_⟩
      obtain ⟨c, hc⟩ := hvoted.exists
      exact (h.lead.votes _).fresh htick c hc
  · have htick := h.moves.others i hi
    rw [htick] at hcampaign ⊢
    obtain ⟨hvoted, hlog⟩ := hb.campaign i t hcampaign
    rw [Ballots.record_of_ne hi]
    exact ⟨h.moves.voted hvoted, hlog⟩

theorem step_asked (cid : Nat) (i : Fin n) (dst : Addr) (req : ElectionVoteRequest)
    (hcarries : s'.Carries cid i dst (.requestVote req)) :
    req.candidateId = (C.conf i).nodeId ∧ s'.Voted i i req.term ∧
      req.Describes (b.record s s' l.node i req.term) := by
  rcases h.moves.carries_cases hcarries with hold | ⟨rfl, rfl⟩
  · obtain ⟨hcandidate, hvoted, hdescribes⟩ := hb.asked cid i dst req hold
    rw [Ballots.record_of_hasVoted hvoted.hasVoted]
    exact ⟨hcandidate, h.moves.voted hvoted, hdescribes⟩
  · obtain ⟨_, ⟨q, conns, htick, _, hreq⟩ | ⟨q, conns, _, _, hreq⟩⟩ := h.moves.acting.send_cases
    · cases hreq
      have hphase := (h.lead.phase l.node).at_tick htick
      obtain ⟨hvoted, hlog⟩ := hb.campaign l.node req.term (by rw [htick]; rfl)
      rw [Ballots.record_of_hasVoted hvoted.hasVoted, hlog]
      refine ⟨?_, h.moves.voted hvoted, ?_⟩
      · rw [hphase.2.2, Raft.voteRequest_candidateId]
      · rw [hphase.2.2]
        exact voteRequest_describes _ _
    · cases hreq

/-- A vote that was cast before the step stands for the same ballots after it. -/
theorem covered_of_voted {j i : Fin n} {t : NodeTerm} (hvoted : s.Voted j i t) :
    s'.Voted i i t ∧ TermLog.Covers LogEntry.term (b.record s s' l.node i t)
      (b.record s s' l.node j t) := by
  obtain ⟨hself, hcovers⟩ := hb.covered j i t hvoted
  rw [Ballots.record_of_hasVoted hself.hasVoted, Ballots.record_of_hasVoted hvoted.hasVoted]
  exact ⟨h.moves.voted hself, hcovers⟩

theorem step_covered (j i : Fin n) (t : NodeTerm) (hvoted : s'.Voted j i t) :
    s'.Voted i i t ∧ TermLog.Covers LogEntry.term (b.record s s' l.node i t)
      (b.record s s' l.node j t) := by
  by_cases hj : j = l.node
  · subst hj
    rcases h.moves.acting.vote_cases hvoted with hold | hown | ⟨cid, req, hlistener, hgrant, rfl,
      hcandidate, hlog⟩
    · exact covered_of_voted h hb hold
    · obtain rfl := C.nodeId_injective hown
      exact ⟨hvoted, TermLog.Covers.refl _⟩
    · obtain ⟨k, hcarries⟩ := h.lead.network.handling _ cid _ hlistener
      obtain ⟨hsender, hself, hdescribes⟩ := hb.asked cid k _ req hcarries
      obtain rfl := C.nodeId_injective (hcandidate.trans hsender)
      by_cases hold : (s.nodes l.node).HasVoted req.term
      · -- a second answer to the same candidate: the ballot is that of the first
        obtain ⟨c, hc⟩ := hold.exists
        obtain rfl : c = (C.conf i).nodeId := (h.lead'.votes l.node).unique _ _ _
          (h.moves.acting.cast_isPrefix.mem hc) hvoted
        exact covered_of_voted h hb hc
      · rw [Ballots.record_of_hasVoted hself.hasVoted, Ballots.record_of_not_hasVoted hold, hlog]
        exact ⟨h.moves.voted hself,
          covers_of_logGrants (Server.grants_iff.1 hgrant).2.2 hdescribes⟩
  · have hold : s.Voted j i t := by
      unfold Voted at hvoted
      rwa [h.moves.others j hj] at hvoted
    exact covered_of_voted h hb hold

theorem step_written (t : NodeTerm) (i : Fin n) (L : List (LogEntry T))
    (hw : w.record s' l.node t = some (i, L)) :
    b.record s s' l.node i t <+: L ∧ ∀ e ∈ b.record s s' l.node i t, e.term < t := by
  rcases Writers.record_eq_some hw with ⟨hrole, rfl, rfl, rfl⟩ | hold
  · rcases h.moves.acting.leader_cases hrole with ⟨hrole₀, hterm⟩ | ⟨req, log, htick, _, hstate⟩
    · obtain ⟨hpre, hlt⟩ := hb.written _ _ _ (h.ledger.leader _ hrole₀)
      have hvoted := (h.lead.election.leader _ hrole₀).voted_self.hasVoted
      rw [hterm, Ballots.record_of_hasVoted hvoted]
      exact ⟨hpre.trans (h.log_isPrefix _), hlt⟩
    · -- the new leader has campaigned with its ballot, and nobody has written in the term
      obtain ⟨hcampaign, helected⟩ := h.lead.won htick
      obtain ⟨hvoted, hlog⟩ := hb.campaign _ _ hcampaign
      have hterm : (s'.nodes l.node).state.nodeTerm = (s.nodes l.node).state.nodeTerm := by
        rw [hstate]
      rw [hterm, Ballots.record_of_hasVoted hvoted.hasVoted, hlog, hstate]
      exact ⟨List.prefix_rfl, h.ledger.lt_of_campaign h.lead h.quorum hcampaign helected⟩
  · obtain ⟨hpre, hlt⟩ := hb.written t i L hold
    have hvoted := (h.ledger.elected t i L hold).voted_self.hasVoted
    rw [Ballots.record_of_hasVoted hvoted]
    exact ⟨hpre, hlt⟩

theorem step : BallotSound s' (w.record s' l.node) (b.record s s' l.node) where
  cast := step_cast h hb
  campaign := step_campaign h hb
  asked := step_asked h hb
  covered := step_covered h hb
  written := step_written h hb

end Step
end BallotSound
end Cluster
end Quaso
