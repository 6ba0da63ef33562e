import Quaso.Safety.Term

/-!
# One vote per term

The votes a node has cast are compared with what its state remembers of them.

* `VotesSound` — the invariant: the term has reached every vote cast, the node
  still knows its vote of the present term, and there is none where the node is
  about to vote for itself.
* `VotesSound.keep`, `VotesSound.raise`, `VotesSound.vote` — the three ways a
  step treats it: it leaves term and vote alone, it reaches a later term, or it
  casts a vote.
* `vote_unique` — a node casts its votes of one term for one candidate.
-/

namespace Quaso

variable {T : Type} {conf : Config} {env : Env} {n n' : Node T} {action : Action T}
  {effect : Effect T}

/-- What a node's state remembers of the votes it has cast. -/
structure VotesSound (n : Node T) : Prop where
  /-- The term has reached every vote. -/
  le_term : ∀ t c, (t, c) ∈ n.cast → t ≤ n.state.nodeTerm
  /-- The votes of one term are for one candidate. -/
  unique : ∀ t c c', (t, c) ∈ n.cast → (t, c') ∈ n.cast → c = c'
  /-- The vote of the present term is remembered; it is forgotten only while the
  later term of a denial waits to be installed. -/
  recorded : ∀ c, (n.state.nodeTerm, c) ∈ n.cast → n.state.votedFor = some c ∨
    ∃ t, n.tick = .denied t ∧ n.state.nodeTerm < t ∧ n.state.votedFor = none
  /-- A candidate that has not begun its election has not voted in its term. -/
  fresh : n.tick = .candidate → ∀ c, (n.state.nodeTerm, c) ∉ n.cast

namespace VotesSound

theorem start (conf : Config) (env : Env) : VotesSound (Node.start conf env : Node T) where
  le_term := by simp [Node.start]
  unique := by simp [Node.start]
  recorded := by simp [Node.start]
  fresh := by simp [Node.start]

/-- A step that leaves term, vote and votes alone. -/
theorem keep (hn : VotesSound n) (hterm : n'.state.nodeTerm = n.state.nodeTerm)
    (hvoted : n'.state.votedFor = n.state.votedFor) (hcast : n'.cast = n.cast)
    (htick : n'.tick = n.tick ∨ (n'.tick ≠ .candidate ∧ ∀ t, n.tick ≠ .denied t)) :
    VotesSound n' where
  le_term := by
    rw [hterm, hcast]
    exact hn.le_term
  unique := by
    rw [hcast]
    exact hn.unique
  recorded := by
    rw [hterm, hcast, hvoted]
    intro c hc
    rcases hn.recorded c hc with h | ⟨t, htick₀, h⟩
    · exact Or.inl h
    · rcases htick with heq | ⟨_, hne⟩
      · exact Or.inr ⟨t, heq.trans htick₀, h⟩
      · exact absurd htick₀ (hne t)
  fresh := by
    rw [hterm, hcast]
    intro hcand
    rcases htick with heq | ⟨hne, _⟩
    · exact hn.fresh (heq.symm.trans hcand)
    · exact absurd hcand hne

/-- A step to a later term: no vote has been cast there. -/
theorem raise (hn : VotesSound n) (hterm : n.state.nodeTerm < n'.state.nodeTerm)
    (hcast : n'.cast = n.cast) : VotesSound n' := by
  have hnone : ∀ c, (n'.state.nodeTerm, c) ∉ n'.cast := by
    intro c hc
    rw [hcast] at hc
    exact absurd (hn.le_term _ c hc) (not_le.2 hterm)
  refine ⟨?_, ?_, fun c hc => absurd hc (hnone c), fun _ => hnone⟩
  · rw [hcast]
    exact fun t c hc => (hn.le_term t c hc).trans hterm.le
  · rw [hcast]
    exact hn.unique

/-- A step that casts a vote for the candidate all votes of that term are for. -/
theorem vote {c : NodeId} (hn : VotesSound n) (hterm : n.state.nodeTerm ≤ n'.state.nodeTerm)
    (hvoted : n'.state.votedFor = some c) (hcast : n'.cast = n.cast ++ [(n'.state.nodeTerm, c)])
    (htick : n'.tick ≠ .candidate) (hsame : ∀ c', (n'.state.nodeTerm, c') ∈ n.cast → c' = c) :
    VotesSound n' := by
  have hmem : ∀ t c', (t, c') ∈ n'.cast →
      (t, c') ∈ n.cast ∨ t = n'.state.nodeTerm ∧ c' = c := by
    intro t c' h
    simpa [hcast] using h
  have hnow : ∀ c', (n'.state.nodeTerm, c') ∈ n'.cast → c' = c := by
    intro c' h
    rcases hmem _ c' h with h | ⟨_, h⟩
    · exact hsame c' h
    · exact h
  refine ⟨?_, ?_, fun c' h => Or.inl (by rw [hvoted, hnow c' h]), fun h => absurd h htick⟩
  · intro t c' h
    rcases hmem t c' h with h | ⟨rfl, _⟩
    · exact (hn.le_term t c' h).trans hterm
    · exact le_rfl
  · intro t c₁ c₂ h₁ h₂
    rcases hmem t c₁ h₁ with h₁' | ⟨rfl, rfl⟩
    · rcases hmem t c₂ h₂ with h₂' | ⟨rfl, rfl⟩
      · exact hn.unique t c₁ c₂ h₁' h₂'
      · exact hnow c₁ h₁
    · exact (hnow c₂ h₂).symm

/-- A granted vote: the request is of a later term, or of the present one, in which
the node has voted for no other candidate. -/
theorem grant {written : Bool} {cid : Nat} {req : ElectionVoteRequest} (hn : VotesSound n)
    (hlistener : n.listener = .handling cid (.requestVote req))
    (hgrant : Server.grants n.state req = true) (hok : VoteOk n (.handle written))
    {c : NodeId} (hc : (req.term, c) ∈ n.cast) : c = req.candidateId := by
  obtain ⟨hle, hother, _⟩ := Server.grants_iff.1 hgrant
  have heq : req.term = n.state.nodeTerm := le_antisymm (hn.le_term _ c hc) hle
  have hvoted := Server.votedForOther_eq_false.1 (hother heq)
  rw [heq] at hc
  rcases hn.recorded c hc with hrec | ⟨t, htick, _, hnone⟩
  · rw [hrec] at hvoted
    simpa using hvoted
  · -- the vote was forgotten after a denial: this is the step that `deniedVote` names
    have hdenied := hok.2.2.2
    simp [deniedVote, Node.handled, htick, hlistener, hgrant, heq, hnone] at hdenied

/-- **Every step that meets `VoteOk` keeps the invariant.** -/
theorem step (h : Node.Step conf env n action n' effect) (hok : VoteOk n action)
    (hn : VotesSound n) : VotesSound n' := by
  have hterm := (Node.nodeTerm_le_iff h).2 hok.1
  cases h with
  | becomeCandidate cid htick | timedOut cid htick =>
    exact hn.raise (lt_of_le_of_ne hterm (ne_raise _)) rfl
  | electionStart cid htick =>
    refine hn.vote le_rfl rfl rfl (by simp) ?_
    exact fun c hc => absurd hc (hn.fresh htick c)
  | electionDenied req conn cid conns resp htick hgrant hle =>
    have hlt : n.state.nodeTerm < resp.term := by
      have hequal := hok.2.2.1
      refine lt_of_le_of_ne hle fun heq => ?_
      simp [equalDenial, hgrant, heq] at hequal
    exact ⟨hn.le_term, hn.unique, fun c hc => Or.inr ⟨resp.term, rfl, hlt, rfl⟩, by simp⟩
  | settle cid term htick =>
    rcases hterm.lt_or_eq with hlt | heq
    · exact hn.raise hlt rfl
    · -- the denied term is not later, so the vote has not been forgotten
      refine ⟨?_, hn.unique, ?_, by simp⟩
      · exact fun t c hc => (hn.le_term t c hc).trans hterm
      · intro c hc
        rw [← heq] at hc
        rcases hn.recorded c hc with hrec | ⟨t, htick', hlt, _⟩
        · exact Or.inl hrec
        · obtain rfl : term = t := by simpa [htick] using htick'
          exact absurd heq hlt.ne
  | handleGrant written cid req listener effect hlock hlistener hgrant =>
    refine hn.vote hterm rfl rfl ?_ fun c hc => hn.grant hlistener hgrant hok hc
    intro hcand
    have hgap := hok.2.1
    simp [gapVote, Node.handled, hlistener, hgrant, show n.tick = .candidate from hcand] at hgap
  | handleAppend written cid req commit sent listener effect hlock hlistener haccept =>
    rcases hterm.lt_or_eq with hlt | heq
    · exact hn.raise hlt rfl
    · refine hn.keep heq.symm ?_ rfl (Or.inl rfl)
      have hnot : ¬ n.state.nodeTerm < req.term := not_lt.2 heq.ge
      simp [hnot]
  | takeLead cid req log htick =>
    exact hn.keep (by simp [State.transition]) rfl rfl (Or.inr (by simp [htick]))
  | appendEntry value => exact hn.keep (by simp) (by simp) rfl (Or.inl rfl)
  | electionNext req conn cid conns resp state htick hcount =>
    obtain ⟨votes, _, rfl⟩ := Raft.countVote_eq_next hcount
    exact hn.keep rfl rfl rfl (Or.inr (by simp [htick]))
  | electionWon req conn cid conns resp state htick hcount =>
    obtain ⟨votes, _, _, rfl⟩ := Raft.countVote_eq_won hcount
    exact hn.keep rfl rfl rfl (Or.inr (by simp [htick]))
  | tickDies action haction htick =>
    refine hn.keep rfl rfl rfl (Or.inr ⟨by simp, fun t ht => ?_⟩)
    simp [ht, Tick.holdsLock] at htick
  | commit order tick htick htick' =>
    refine hn.keep (by simp) (by simp) rfl (Or.inr ⟨?_, by simp [htick]⟩)
    rcases htick' with rfl | rfl <;> simp
  | heartbeatReply conn logSize cid conns resp htick =>
    exact hn.keep (by simp) (by simp) rfl (Or.inr (by simp [htick]))
  | heartbeatEnd cid htick =>
    exact hn.keep (by simp) (by simp) rfl (Or.inr (by simp [htick]))
  | heartbeatStart htick | becoming htick | heartbeatSend cid conn conns req htick
  | electionEnd cid req htick | electionTimeout cid req conn conns htick
  | electionSend cid req conn conns htick | heartbeatNone conn logSize cid conns htick =>
    exact hn.keep rfl rfl rfl (Or.inr (by simp [htick]))
  | electionSkip req conn cid conns answer hanswer htick =>
    exact hn.keep rfl rfl rfl (Or.inr (by simp [htick]))
  | skip | persist | clearFlag | accept | abortListener | handlePing | handleRefuse
  | handleReject =>
    exact hn.keep rfl rfl rfl (Or.inl rfl)

/-- The invariant holds along every run of a node whose steps all meet `VoteOk`. -/
theorem of_reachable (h : (nodeSystem conf T).Reachable (OnAction VoteOk) n) : VotesSound n := by
  refine h.invariant ?_ ?_
  · rintro n ⟨env, rfl⟩
    exact start conf env
  · intro n l n' _ hn hok hl
    obtain ⟨effect, hstep⟩ := nodeSystem_step hl
    exact hn.step hstep hok

/-- The invariant holds of every node of a cluster along such runs. -/
theorem of_cluster {m : Nat} {C : ClusterConfig m} {ok : Node T → Action T → Prop}
    (hok : ∀ n action, ok n action → VoteOk n action) {s : Cluster C T}
    (h : (clusterSystem C T).Reachable (Lift ok) s) (i : Fin m) : VotesSound (s.nodes i) :=
  Cluster.reachable_node (I := fun _ n => VotesSound n) (fun _ env => start _ env)
    (fun _ _ _ _ _ _ hstep hv hn => hn.step hstep (hok _ _ hv)) h i

end VotesSound

/-- **One vote per term.**  In a run whose steps all meet `VoteOk`, a node casts its
votes of one term for one candidate. -/
theorem vote_unique (h : (nodeSystem conf T).Reachable (OnAction VoteOk) n) {t : NodeTerm}
    {c c' : NodeId} (hc : (t, c) ∈ n.cast) (hc' : (t, c') ∈ n.cast) : c = c' :=
  (VotesSound.of_reachable h).unique t c c' hc hc'

/-- A vote for node 2 in term 1, and for the node itself in term 2. -/
theorem vote_unique_twoTerms : ∃ n : Node Nat, (1, 2) ∈ n.cast ∧ (2, 1) ∈ n.cast ∧
    ∀ c, (1, c) ∈ n.cast → c = 2 := by
  obtain ⟨n, hn, hmem, hmem'⟩ := System.exec_any (nodeSystem pairConf Nat)
    (OnAction VoteOk) (Node.start pairConf (.atTime 0))
    [(.atTime 100, .accept 0 (.requestVote ⟨1, 2, 0, 0⟩)), (.atTime 100, .handle true),
      (.atTime 100, .clearFlag), (.atTime 400, .transitionCandidate), (.atTime 400, .advance 0),
      (.atTime 400, .advance 0)]
    (P := fun n => (1, 2) ∈ n.cast ∧ (2, 1) ∈ n.cast) (by decide +kernel)
  exact ⟨n, hmem, hmem', fun c hc => vote_unique ⟨_, ⟨_, rfl⟩, hn⟩ hc hmem⟩

/-- A node that has become a candidate of term 1 grants its vote of term 1 to
another one, then starts its election and votes for itself. -/
theorem vote_not_unique : ¬ ∀ (conf : Config) (n : Node Nat),
    (nodeSystem conf Nat).Reachable System.Always n →
      ∀ t c c', (t, c) ∈ n.cast → (t, c') ∈ n.cast → c = c' := by
  intro hall
  obtain ⟨n, hn, hmem, hmem'⟩ := System.exec_any (nodeSystem pairConf Nat)
    System.Always (Node.start pairConf (.atTime 0))
    [(.atTime 200, .transitionCandidate), (.atTime 200, .advance 0),
      (.atTime 200, .accept 0 (.requestVote ⟨1, 2, 0, 0⟩)), (.atTime 200, .handle true),
      (.atTime 200, .advance 0)]
    (P := fun n => (1, 2) ∈ n.cast ∧ (1, 1) ∈ n.cast) (by decide +kernel)
  exact absurd (hall pairConf n ⟨_, ⟨_, rfl⟩, hn⟩ 1 2 1 hmem hmem') (by decide)

end Quaso
