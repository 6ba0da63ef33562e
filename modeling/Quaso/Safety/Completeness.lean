import Quaso.Safety.Replication

/-!
# Leader completeness

An entry of its own term that a leader commits is held by a majority.  Every
later leader has the votes of a majority, so one of its voters held the entry
when it voted, and the leader's ballot covers that voter's.  The induction over
the terms in between is `TermLog.prefix_of_elected`; this file supplies what it
asks for.
-/

namespace Quaso
namespace Cluster

variable {n : Nat} {C : ClusterConfig n} {T : Type} {s s' : Cluster C T} {l : Label n T}
  {action : Action T} {effect : Effect T} {w : Writers n T} {b : Ballots n T} {t : NodeTerm}
  {N : List (LogEntry T)}

/-- The log `N` is committed in term `t`: a majority holds it, and it is part of what the
leader of the term has written. -/
structure Committed (s : Cluster C T) (w : Writers n T) (b : Ballots n T) (t : NodeTerm)
    (N : List (LogEntry T)) : Prop where
  held : Majority fun j => s.Holds b j t N
  written : ∃ L, w.logs t = some L ∧ N <+: L

theorem Committed.step (hc : s.Committed w b t N) (h : s.ExtendStep s' l action effect w) :
    s'.Committed (w.record s' l.node) (b.record s s' l.node) t N := by
  refine ⟨hc.held.mono fun j => h.holds, ?_⟩
  obtain ⟨L, hL, hpre⟩ := hc.written
  obtain ⟨L', hL', hpre'⟩ := h.grows.extends t L hL
  exact ⟨L', hL', hpre.trans hpre'⟩

/-- Whoever has written in a later term has the committed log. -/
theorem Recorded.prefix_of_committed (hrec : Recorded s w b)
    (hquorum : ∀ i, n < 2 * getQuorumLength (C.conf i)) (hc : s.Committed w b t N)
    (hlast : ∃ e, N.getLast? = some e ∧ e.term = t) {u : NodeTerm} {L : List (LogEntry T)}
    (hu : t < u) (hL : w.logs u = some L) : N <+: L := by
  have hballot : ∀ {j i : Fin n} {u : NodeTerm}, s.Voted j i u →
      TermLog.Consistent LogEntry.term w.logs (b j u) := fun {j _ u} hvoted =>
    (hrec.ledger.log j).of_isPrefix (hrec.ballots.cast j u hvoted.hasVoted)
  refine TermLog.prefix_of_elected LogEntry.term ?_ hlast hc.written ?_ u L hu hL
  · intro u L hL
    obtain ⟨i, hw⟩ := Writers.logs_eq_some.1 hL
    exact (hrec.ledger.written u i L hw).2
  · intro u L hu hL
    obtain ⟨i, hw⟩ := Writers.logs_eq_some.1 hL
    have helected := hrec.ledger.elected u i L hw
    -- a voter that holds the committed log
    obtain ⟨j, hvoted, hholds⟩ := (helected.majority hquorum).meet hc.held
    obtain ⟨hself, hcovers⟩ := hrec.ballots.covered j i u hvoted
    obtain ⟨hpre, hterms⟩ := hrec.ballots.written u i L hw
    exact ⟨b j u, b i u, hholds.ballot u hu hvoted.hasVoted, hcovers, hballot hvoted,
      hballot hself, hterms, hpre⟩

/-- Along a run the committed log stays committed. -/
theorem Committed.steps (hquorum : ∀ i, n < 2 * getQuorumLength (C.conf i))
    (hreach : (clusterSystem C T).Reachable (Lift ExtendOk) s)
    (hsteps : (clusterSystem C T).Steps (Lift ExtendOk) s s') (hrec : Recorded s w b)
    (hc : s.Committed w b t N) : ∃ w' b', Recorded s' w' b' ∧ s'.Committed w' b' t N := by
  have key := hsteps.invariant
    (I := fun s => (clusterSystem C T).Reachable (Lift ExtendOk) s ∧
      ∃ w b, Recorded s w b ∧ s.Committed w b t N) ?_ ⟨hreach, w, b, hrec, hc⟩
  · exact key.2
  · rintro s l s' ⟨hreach, w, b, hrec, hc⟩ hok hl
    obtain ⟨action, effect, hstep, hrec'⟩ := hrec.step hquorum hreach hok hl
    exact ⟨hreach.step hok hl, _, _, hrec', hc.step hstep⟩

end Cluster

variable {n : Nat} {C : ClusterConfig n} {T : Type} {s s' s'' : Cluster C T} {l : Label n T}

/-- The entries up to a commit point of the leader's own term are committed. -/
theorem Cluster.Recorded.committed {w : Writers n T} {b : Ballots n T}
    (hrec : Cluster.Recorded s w b) (hquorum : ∀ i, n < 2 * getQuorumLength (C.conf i))
    {i : Fin n} {order : List (Nat × Nat)} {index freq : Nat}
    (hrole : (s.nodes i).state.nodeType = .leader)
    (horder : order.Perm (Raft.frequencyPairs (s.nodes i).state))
    (hcand : Raft.commitCandidate (getQuorumLength (C.conf i)) order = some (index, freq)) :
    s.Committed w b (s.nodes i).state.nodeTerm ((s.nodes i).state.log.take index) :=
  ⟨hrec.replication.majority hquorum hrole horder hcand,
    _, Writers.logs_eq_some.2 ⟨i, hrec.ledger.leader i hrole⟩, List.take_prefix _ _⟩

/-- **Leader completeness.**  Let a run whose steps all meet `ExtendOk`, with quorums that
are majorities, contain a step in which a leader advances its commit index up to an
entry of its own term.  Then every later leader of a later term has all entries
below that commit index, at the same indices. -/
theorem leader_completeness (hquorum : ∀ i, n < 2 * getQuorumLength (C.conf i))
    (hreach : (clusterSystem C T).Reachable (Lift ExtendOk) s) (hok : Lift ExtendOk s l)
    (hstep : (clusterSystem C T).step s l = some s') {order : List (Nat × Nat)}
    (hinput : l.input = .act (.commit order))
    (hcommit : (s.nodes l.node).state.commitedIndex < (s'.nodes l.node).state.commitedIndex)
    (hown : oldCommit (C.conf l.node) (s.nodes l.node) = false)
    (h : (clusterSystem C T).Steps (Lift ExtendOk) s' s'') {j : Fin n}
    (hj : (s''.nodes j).state.nodeType = .leader)
    (hterm : (s.nodes l.node).state.nodeTerm < (s''.nodes j).state.nodeTerm) :
    ∀ k < (s'.nodes l.node).state.commitedIndex, ∃ e,
      (s'.nodes l.node).state.log[k]? = some e ∧ (s''.nodes j).state.log[k]? = some e := by
  obtain ⟨w, b, hrec⟩ := Cluster.Recorded.of_reachable hquorum hreach
  obtain ⟨action, effect, hext, hrec'⟩ := hrec.step hquorum hreach hok hstep
  obtain rfl : action = .commit order := by
    have hresolved := hext.moves.resolved
    rw [hinput] at hresolved
    exact (Option.some.inj hresolved).symm
  obtain ⟨index, freq, hcand, horder, hrole, hlt, hle, hstate⟩ :=
    hext.moves.acting.commit_cases hcommit
  have hcommitted := (hrec.committed hquorum hrole horder hcand).step hext
  -- the commit point is an entry of the leader's term
  have hlast : ∃ e, ((s.nodes l.node).state.log.take index).getLast? = some e ∧
      e.term = (s.nodes l.node).state.nodeTerm := by
    obtain ⟨e, he⟩ : ∃ e, (s.nodes l.node).state.log[index - 1]? = some e :=
      ⟨_, List.getElem?_eq_getElem (by omega)⟩
    refine ⟨e, ?_, ?_⟩
    · rw [List.getLast?_eq_getElem?, List.length_take, min_eq_left hle,
        List.getElem?_take_of_lt (by omega)]
      exact he
    · obtain ⟨hmem, hcount⟩ := Raft.commitCandidate_count horder hcand
      have hindex := List.any_eq_false.1 hown index hmem
      simpa [hlt, hcount, he] using hindex
  obtain ⟨w', b', hrec'', hcommitted'⟩ :=
    hcommitted.steps hquorum (hreach.step hok hstep) h hrec'
  have hpre := hrec''.prefix_of_committed hquorum hcommitted' hlast hterm
    (Writers.logs_eq_some.2 ⟨j, hrec''.ledger.leader j hj⟩)
  intro k hk
  rw [hstate] at hk ⊢
  have he := List.getElem?_eq_getElem (Nat.lt_of_lt_of_le hk hle)
  exact ⟨_, he, getElem?_of_isPrefix hpre (by rw [List.getElem?_take_of_lt hk, he])⟩

/-- A leader of three nodes replicates its first entry to both followers. -/
def replicateToAll : List (Label 3 Nat) :=
  elect 200 0 0 1 ++
  [.atTime 200 0 (.act (.appendEntry 7)), .atTime 210 0 (.act .sendHeartbeat)] ++
  exchange 210 1 0 1 ++ exchange 210 2 0 2 ++ [.atTime 210 0 (.act (.advance 3))]

/-- Node 2 is elected in term 2 with the vote of node 0. -/
def electThird : List (Label 3 Nat) :=
  [.atTime 490 2 (.act .clearFlag)] ++ campaign 500 3 2 ++ exchange 500 3 2 0 ++
  [.atTime 500 2 (.act (.advance 4))]

/-- Node 2 leads term 2 after node 0 has committed an entry in term 1. -/
theorem leader_completeness_replicateToAll : ∃ s' s'' : Cluster trio Nat,
    (s'.nodes 0).state.commitedIndex = 1 ∧ (s''.nodes 2).state.nodeTerm = 2 ∧
      ∃ e, (s'.nodes 0).state.log[0]? = some e ∧ (s''.nodes 2).state.log[0]? = some e := by
  obtain ⟨s, hs, hcommit, hterm, hok, hown, hrest⟩ := System.exec_any (clusterSystem trio Nat)
    (Lift ExtendOk) (.start₀ trio Nat) replicateToAll
    (P := fun s => (s.nodes 0).state.commitedIndex = 0 ∧ (s.nodes 0).state.nodeTerm = 1 ∧
      Lift ExtendOk s (.atTime 211 0 (.act (.commit [(1, 3)]))) ∧
      oldCommit (trio.conf 0) (s.nodes 0) = false ∧
      ((clusterSystem trio Nat).step s (.atTime 211 0 (.act (.commit [(1, 3)])))).any
        (fun s' => decide ((s'.nodes 0).state.commitedIndex = 1 ∧
          ((clusterSystem trio Nat).exec (Lift ExtendOk) s' electThird).any
            (fun s'' => decide ((s''.nodes 2).state.nodeType = .leader ∧
              (s''.nodes 2).state.nodeTerm = 2)) = true)) = true) (by decide +kernel)
  obtain ⟨s', hstep, hrest'⟩ := (Option.any_eq_true _ _).1 hrest
  obtain ⟨hcommit', hrun⟩ := of_decide_eq_true hrest'
  obtain ⟨s'', hs'', hrole, hterm'⟩ := System.exec_any _ _ _ _ hrun
  refine ⟨s', s'', hcommit', hterm', ?_⟩
  refine leader_completeness (l := .atTime 211 0 (.act (.commit [(1, 3)])))
    (trio.lt_two_mul_getQuorumLength (by decide)) ⟨_, Cluster.init_start₀ trio Nat, hs⟩ hok hstep
    rfl ?_ hown hs'' hrole ?_ 0 ?_
  · change (s.nodes 0).state.commitedIndex < (s'.nodes 0).state.commitedIndex
    omega
  · change (s.nodes 0).state.nodeTerm < _
    rw [hterm, hterm']
    decide
  · change 0 < (s'.nodes 0).state.commitedIndex
    omega

/-- A leader of three nodes replicates three entries to node 1 and the first of them to
node 2; a heartbeat that announces two entries to node 1 is left on connection 5. -/
def replicateThree : List (Label 3 Nat) :=
  replicateToAll ++
  [.atTime 211 0 (.act (.commit [(1, 3)])), .atTime 211 0 (.act (.appendEntry 8)),
    .atTime 220 0 (.act .sendHeartbeat)] ++
  exchange 220 3 0 1 ++ unanswered 220 4 0 ++ commitAfter 220 5 0 [(2, 2), (1, 1)] ++
  [.atTime 230 0 (.act .sendHeartbeat)] ++ unanswered 230 5 0 ++ unanswered 230 6 0 ++
  commitAfter 230 7 0 [(2, 2), (1, 1)] ++
  [.atTime 231 0 (.act (.appendEntry 9)), .atTime 240 0 (.act .sendHeartbeat)] ++
  exchange 240 7 0 1 ++ unanswered 240 8 0 ++ [.atTime 240 0 (.act (.advance 9))]

/-- The delayed heartbeat truncates node 1 to its first entry, so it votes for node 2,
which has no more. -/
def truncateAndElect : List (Label 3 Nat) :=
  [.atTime 250 1 (.deliver 5), .atTime 250 1 (.act (.handle true)),
    .atTime 490 2 (.act .clearFlag)] ++
  campaign 500 9 2 ++ exchange 500 9 2 0 ++ exchange 500 10 2 1 ++
  [.atTime 500 2 (.act (.advance 11))]

/-- The leader of term 1 commits three entries of its term; the leader of term 2 has only
the first. -/
theorem leader_not_complete : ¬ ∀ (s s' s'' : Cluster trio Nat) (l : Label 3 Nat)
    (order : List (Nat × Nat)), (clusterSystem trio Nat).Reachable System.Always s →
      (clusterSystem trio Nat).step s l = some s' → l.input = .act (.commit order) →
      (s.nodes l.node).state.commitedIndex < (s'.nodes l.node).state.commitedIndex →
      (clusterSystem trio Nat).Steps System.Always s' s'' → ∀ j,
        (s''.nodes j).state.nodeType = .leader →
        (s.nodes l.node).state.nodeTerm < (s''.nodes j).state.nodeTerm →
        ∀ k < (s'.nodes l.node).state.commitedIndex, ∃ e,
          (s'.nodes l.node).state.log[k]? = some e ∧ (s''.nodes j).state.log[k]? = some e := by
  intro hall
  obtain ⟨s, hs, hcommit, hterm, hrest⟩ := System.exec_any (clusterSystem trio Nat)
    System.Always (.start₀ trio Nat) replicateThree
    (P := fun s => (s.nodes 0).state.commitedIndex = 2 ∧ (s.nodes 0).state.nodeTerm = 1 ∧
      ((clusterSystem trio Nat).step s (.atTime 241 0 (.act (.commit [(3, 2), (1, 1)])))).any
        (fun s' => decide ((s'.nodes 0).state.commitedIndex = 3 ∧
          ((clusterSystem trio Nat).exec System.Always s' truncateAndElect).any
            (fun s'' => decide ((s''.nodes 2).state.nodeType = .leader ∧
              (s''.nodes 2).state.nodeTerm = 2 ∧
              (s''.nodes 2).state.log = [⟨7, 1⟩])) = true)) = true) (by decide +kernel)
  obtain ⟨s', hstep, hrest'⟩ := (Option.any_eq_true _ _).1 hrest
  obtain ⟨hcommit', hrun⟩ := of_decide_eq_true hrest'
  obtain ⟨s'', hs'', hrole, hterm', hlog⟩ := System.exec_any _ _ _ _ hrun
  obtain ⟨e, _, he⟩ := hall s s' s'' _ _ ⟨_, Cluster.init_start₀ trio Nat, hs⟩ hstep rfl
    (show (s.nodes 0).state.commitedIndex < (s'.nodes 0).state.commitedIndex by omega) hs'' 2 hrole
    (show (s.nodes 0).state.nodeTerm < _ by rw [hterm, hterm']; decide) 2
    (show 2 < (s'.nodes 0).state.commitedIndex by omega)
  rw [hlog] at he
  cases he

end Quaso
