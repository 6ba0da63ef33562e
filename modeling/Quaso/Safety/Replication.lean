import Quaso.Safety.Ballots

/-!
# What a leader knows of its followers

* `Cluster.Holds` — a node has a log for good: it is a prefix of the node's own, and
  every vote of a later term was cast with it.
* `Cluster.ReplicationSound` — a match index stands for a follower that holds so
  much of the leader's log, and a confirmation for one that holds what the
  request was cut from.
* `Cluster.ReplicationSound.majority` — a commit point is held by a majority.
-/

namespace Quaso
namespace Cluster

variable {n : Nat} {C : ClusterConfig n} {T : Type} {s s' : Cluster C T} {l : Label n T}
  {action : Action T} {effect : Effect T} {w : Writers n T} {b : Ballots n T}

/-! ## Holding a log -/

/-- Node `j` has the log `N`, and had it in every vote it has cast after term `t`. -/
structure Holds (s : Cluster C T) (b : Ballots n T) (j : Fin n) (t : NodeTerm)
    (N : List (LogEntry T)) : Prop where
  log : N <+: (s.nodes j).state.log
  ballot : ∀ u, t < u → (s.nodes j).HasVoted u → N <+: b j u

/-- In its present term a node holds what it has: it has not voted in a later one. -/
theorem LeadSound.holds (h : LeadSound s) {j : Fin n} {N : List (LogEntry T)}
    (hlog : N <+: (s.nodes j).state.log) : s.Holds b j (s.nodes j).state.nodeTerm N := by
  refine ⟨hlog, fun u hu hvoted => ?_⟩
  obtain ⟨c, hc⟩ := hvoted.exists
  exact absurd ((h.votes j).le_term u c hc) (not_le.2 hu)

/-- What is held stays held. -/
theorem ExtendStep.holds (h : s.ExtendStep s' l action effect w) {j : Fin n} {t : NodeTerm}
    {N : List (LogEntry T)} (hold : s.Holds b j t N) :
    s'.Holds (b.record s s' l.node) j t N := by
  refine ⟨hold.log.trans (h.log_isPrefix j), fun u hu hvoted => ?_⟩
  by_cases hbefore : (s.nodes j).HasVoted u
  · rw [Ballots.record_of_hasVoted hbefore]
    exact hold.ballot u hu hbefore
  · by_cases hj : j = l.node
    · subst hj
      rw [Ballots.record_of_not_hasVoted hbefore]
      exact hold.log.trans (h.log_isPrefix _)
    · rw [h.moves.others j hj] at hvoted
      exact absurd hvoted hbefore

/-! ## The invariant -/

/-- What leader `i` takes a match index to mean: the node at `a` holds so much of the
leader's log. -/
def Matches (s : Cluster C T) (b : Ballots n T) (i : Fin n) (a : Addr) (index : Nat) : Prop :=
  index ≤ (s.nodes i).state.log.length ∧ ∃ j, (C.conf j).listenerAddr = a ∧
    s.Holds b j (s.nodes i).state.nodeTerm ((s.nodes i).state.log.take index)

/-- The two index maps of the leaders and the confirmations are true. -/
structure ReplicationSound (s : Cluster C T) (w : Writers n T) (b : Ballots n T) : Prop where
  /-- A leader has a usable next index for every peer. -/
  next : ∀ i, (s.nodes i).state.nodeType = .leader → ∀ conn ∈ (C.conf i).connections,
    ∃ next, (s.nodes i).state.nextIndex.lookup conn = some next ∧ 1 ≤ next
  matched : ∀ i, (s.nodes i).state.nodeType = .leader → ∀ a index,
    (s.nodes i).state.matchIndex.lookup a = some index → s.Matches b i a index
  confirmed : ∀ cid resp, s.Responded cid (.appendEntries resp) → resp.success = true →
    ∃ i j req base, s.Carries cid i (C.conf j).listenerAddr (.appendEntries req) ∧
      req.CutFrom base ∧ TermLog.Consistent LogEntry.term w.logs base ∧
      s.Holds b j req.term base

namespace ReplicationSound

theorem start (C : ClusterConfig n) (T : Type) (boot : Fin n → Env) :
    ReplicationSound (Cluster.start C T boot) (fun _ => none) fun _ _ => [] where
  next := by
    intro i hrole
    cases hrole
  matched := by
    intro i hrole
    cases hrole
  confirmed := by
    rintro cid resp ⟨c, hget, _⟩
    cases hget

section Step

variable (h : s.ExtendStep s' l action effect w) (hr : ReplicationSound s w b)

include h hr

theorem step_confirmed (cid : Nat) (resp : AppendEntriesResponse)
    (hresponded : s'.Responded cid (.appendEntries resp)) (hsuccess : resp.success = true) :
    ∃ i j req base, s'.Carries cid i (C.conf j).listenerAddr (.appendEntries req) ∧
      req.CutFrom base ∧ TermLog.Consistent LogEntry.term (w.record s' l.node).logs base ∧
      s'.Holds (b.record s s' l.node) j req.term base := by
  rcases h.moves.response_cases hresponded with hold | rfl
  · obtain ⟨i, j, req, base, hcarries, hcut, hbase, hholds⟩ := hr.confirmed cid resp hold hsuccess
    exact ⟨i, j, req, base, h.moves.carries hcarries, hcut, hbase.of_extends h.grows.extends,
      h.holds hholds⟩
  · obtain ⟨req, commit, hlistener, hhandled, haccept, hstate, _⟩ :=
      h.moves.acting.confirmed hsuccess
    obtain ⟨i, hcarries⟩ := h.lead.network.handling _ cid _ hlistener
    obtain ⟨o, L, base, hw, hpre, hcut⟩ := h.ledger.handling h.lead.network hlistener
    have hbase := (h.ledger.written _ _ _ hw).1.of_isPrefix hpre
    have hlog : (s'.nodes l.node).state.log = base := by
      rw [hstate]
      simpa using h.ledger.splice_eq hbase hcut haccept (h.accepts_at_end hhandled haccept)
    have hterm : (s'.nodes l.node).state.nodeTerm = req.term := by rw [hstate]; simp
    refine ⟨i, l.node, req, base, h.moves.carries hcarries, hcut,
      hbase.of_extends h.grows.extends, ?_⟩
    rw [← hterm]
    exact h.lead'.holds (by rw [hlog])

theorem step_next (i : Fin n) (hrole : (s'.nodes i).state.nodeType = .leader) (conn : Addr)
    (hconn : conn ∈ (C.conf i).connections) :
    ∃ next, (s'.nodes i).state.nextIndex.lookup conn = some next ∧ 1 ≤ next := by
  by_cases hi : i = l.node
  · subst hi
    rcases (h.lead.phase _).maps_cases h.moves.acting hrole with ⟨hrole₀, hnext, _⟩ |
      ⟨peer, logSize, cid, conns, resp, hrole₀, _, _, hstate⟩ | ⟨hrole₀, hstate⟩ |
      ⟨req, log, htick, hstate⟩
    · rw [hnext]
      exact hr.next _ hrole₀ conn hconn
    · rw [hstate]
      exact Raft.heartbeatResponse_nextIndex peer logSize resp (Nat.le_add_left 1 _)
        (fun _ hlt _ => Nat.le_sub_one_of_lt hlt) (hr.next _ hrole₀ conn hconn)
    · have hne : conn ≠ (C.conf l.node).listenerAddr := by
        rintro rfl
        exact C.own_addr_notMem _ hconn
      obtain ⟨next, hnext, hpos⟩ := hr.next _ hrole₀ conn hconn
      refine ⟨next, ?_, hpos⟩
      rw [hstate, ← hnext]
      exact AList.lookup_insert_ne hne
    · have hphase := (h.lead.phase l.node).at_tick htick
      refine ⟨log.length + 1, ?_, Nat.le_add_left 1 _⟩
      rw [hstate, hphase.2.2.2.1, IndexMap.lookup_insertAll, if_pos hconn]
  · rw [h.moves.others i hi] at hrole ⊢
    exact hr.next i hrole conn hconn

/-- The peer that has confirmed a heartbeat holds the leader's log. -/
theorem holds_of_reply {conn : Addr} {logSize cid : Nat} {conns : List Addr}
    {resp : AppendEntriesResponse} (haction : action = .appendAnswer (.reply resp))
    (htick : (s.nodes l.node).tick = .heartbeatWait conn logSize cid conns)
    (hrole : (s.nodes l.node).state.nodeType = .leader) (hsuccess : resp.success = true) :
    ∃ j, (C.conf j).listenerAddr = conn ∧
      s.Holds b j (s.nodes l.node).state.nodeTerm (s.nodes l.node).state.log := by
  subst haction
  obtain ⟨d, hwaits, hresponded⟩ := h.moves.responded_append
  obtain rfl : cid = d := by simpa [htick, Tick.waitsOn] using hwaits
  obtain ⟨i, j, req, base, hcarries, hcut, hbase, hholds⟩ :=
    hr.confirmed cid resp hresponded hsuccess
  obtain ⟨req', hbuilt, hcarries'⟩ := h.lead.network.heartbeatWait _ _ _ _ _ htick
  obtain ⟨rfl, hconn, hreq⟩ := hcarries'.unique hcarries
  obtain rfl := RequestPattern.appendEntries.inj hreq
  obtain ⟨hterm, _, _, base', hbase', hcut'⟩ := Raft.heartbeatRequest_eq_some hbuilt
  -- the request was cut from the whole log, because the next index is usable
  have hphase := (h.lead.phase l.node).at_tick htick
  obtain ⟨next, hnext, hpos⟩ := hr.next _ hrole conn (hphase.2.1.subset List.mem_cons_self)
  have hwhole : base' = (s.nodes l.node).state.log := by
    rcases hbase' with hlog | ⟨_, hzero⟩
    · exact hlog
    · have := hzero next hnext
      omega
  subst hwhole
  have hsame := TermLog.Cuts.unique hcut' hcut (h.ledger.log l.node) hbase
  exact ⟨j, hconn.symm, by rw [hsame, ← hterm]; exact hholds⟩

/-- A match index of before the step keeps its meaning. -/
theorem matches_keep {i : Fin n} {a : Addr} {index : Nat}
    (hrole : (s.nodes i).state.nodeType = .leader)
    (hterm : (s'.nodes i).state.nodeTerm = (s.nodes i).state.nodeTerm)
    (hmatch : (s.nodes i).state.matchIndex.lookup a = some index) :
    s'.Matches (b.record s s' l.node) i a index := by
  obtain ⟨hle, j, haddr, hholds⟩ := hr.matched i hrole a index hmatch
  obtain ⟨rest, hrest⟩ := h.log_isPrefix i
  unfold Matches
  rw [hterm, ← hrest, List.take_append_of_le_length hle, List.length_append]
  exact ⟨hle.trans (Nat.le_add_right _ _), j, haddr, h.holds hholds⟩

/-- A heartbeat that was confirmed gives the peer the whole log as it was sent. -/
theorem matches_of_reply {conn : Addr} {logSize cid : Nat} {conns : List Addr}
    {resp : AppendEntriesResponse} (haction : action = .appendAnswer (.reply resp))
    (htick : (s.nodes l.node).tick = .heartbeatWait conn logSize cid conns)
    (hstate : (s'.nodes l.node).state =
      Raft.heartbeatResponse (s.nodes l.node).state conn logSize resp)
    (hsuccess : resp.success = true) :
    s'.Matches (b.record s s' l.node) l.node conn logSize := by
  obtain ⟨hrole, _, hsize⟩ := (h.lead.phase l.node).at_tick htick
  obtain ⟨j, haddr, hholds⟩ := holds_of_reply h hr haction htick hrole hsuccess
  unfold Matches
  rw [hstate, Raft.heartbeatResponse_toPersistentState, hsize, List.take_length]
  exact ⟨le_rfl, j, haddr, h.holds hholds⟩

theorem step_matched (i : Fin n) (hrole : (s'.nodes i).state.nodeType = .leader) (a : Addr)
    (index : Nat) (hmatch : (s'.nodes i).state.matchIndex.lookup a = some index) :
    s'.Matches (b.record s s' l.node) i a index := by
  by_cases hi : i = l.node
  · subst hi
    have hterm := h.moves.acting.leader_nodeTerm hrole
    rcases (h.lead.phase _).maps_cases h.moves.acting hrole with ⟨hrole₀, _, hsame⟩ |
      ⟨peer, logSize, cid, conns, resp, hrole₀, htick, haction, hstate⟩ | ⟨hrole₀, hstate⟩ |
      ⟨req, log, htick, hstate⟩
    · rw [hsame] at hmatch
      exact matches_keep h hr hrole₀ hterm hmatch
    · rw [hstate] at hmatch
      rcases Raft.heartbeatResponse_matchIndex hmatch with hold | ⟨hsuccess, rfl, rfl⟩
      · exact matches_keep h hr hrole₀ hterm hold
      · exact matches_of_reply h hr haction htick hstate hsuccess
    · by_cases ha : a = (C.conf l.node).listenerAddr
      · -- a node holds its own log
        have hindex : index = (s.nodes l.node).state.log.length := by
          rw [hstate, ha, Raft.heartbeatEnd] at hmatch
          simpa [State.resetHeartbeatTimeout, eq_comm] using hmatch
        refine ⟨?_, l.node, ha.symm, h.lead'.holds (List.take_prefix _ _)⟩
        rw [hindex, hstate, Raft.heartbeatEnd_toPersistentState]
      · refine matches_keep h hr hrole₀ hterm ?_
        rw [← hmatch, hstate]
        exact (AList.lookup_insert_ne ha).symm
    · -- a new leader starts from zero
      obtain ⟨_, _, _, _, hzero⟩ := (h.lead.phase l.node).at_tick htick
      rw [hstate, hzero, IndexMap.lookup_insertAll] at hmatch
      split at hmatch
      · rename_i hconn
        obtain ⟨j, _, haddr⟩ := (C.mem_connections _ _).1 hconn
        obtain rfl := Option.some.inj hmatch
        exact ⟨Nat.zero_le _, j, haddr, List.nil_prefix, fun _ _ _ => List.nil_prefix⟩
      · cases hmatch
  · have hother := h.moves.others i hi
    rw [hother] at hrole hmatch
    exact matches_keep h hr hrole (by rw [hother]) hmatch

theorem step : ReplicationSound s' (w.record s' l.node) (b.record s s' l.node) where
  next := step_next h hr
  matched := step_matched h hr
  confirmed := step_confirmed h hr

end Step

/-- **A commit point is held by a majority**, in the term of the leader that counts it. -/
theorem majority (hr : ReplicationSound s w b)
    (hquorum : ∀ i, n < 2 * getQuorumLength (C.conf i)) {i : Fin n}
    (hrole : (s.nodes i).state.nodeType = .leader) {order : List (Nat × Nat)} {index freq : Nat}
    (horder : order.Perm (Raft.frequencyPairs (s.nodes i).state))
    (hcand : Raft.commitCandidate (getQuorumLength (C.conf i)) order = some (index, freq)) :
    Majority fun j =>
      s.Holds b j (s.nodes i).state.nodeTerm ((s.nodes i).state.log.take index) := by
  have hcount := (Raft.commitCandidate_count horder hcand).2
  let A := Finset.univ.filter fun j =>
    (s.nodes i).state.matchIndex.lookup (C.conf j).listenerAddr = some index
  have hle : (s.nodes i).state.matchIndex.values.count index ≤ A.card := by
    rw [← Finset.card_image_of_injective A C.addr_injective]
    refine IndexMap.count_values_le fun a ha => ?_
    obtain ⟨_, j, rfl, _⟩ := hr.matched i hrole a index ha
    exact Finset.mem_image_of_mem _ (Finset.mem_filter.2 ⟨Finset.mem_univ j, ha⟩)
  refine ⟨A, ?_, fun j hj => ?_⟩
  · have := hquorum i
    rw [Fintype.card_fin]
    omega
  · obtain ⟨_, j', haddr, hholds⟩ := hr.matched i hrole _ index (Finset.mem_filter.1 hj).2
    exact C.addr_injective haddr ▸ hholds

end ReplicationSound

/-! ## Runs -/

/-- What a run has recorded fits its present state. -/
structure Recorded (s : Cluster C T) (w : Writers n T) (b : Ballots n T) : Prop where
  ledger : LedgerSound s w
  ballots : BallotSound s w b
  replication : ReplicationSound s w b

namespace Recorded

theorem start (C : ClusterConfig n) (T : Type) (boot : Fin n → Env) :
    Recorded (Cluster.start C T boot) (fun _ => none) fun _ _ => [] :=
  ⟨.start C T boot, .start C T boot, .start C T boot⟩

/-- A step of `ExtendOk`, and the record it leads to. -/
theorem moves (hquorum : ∀ i, n < 2 * getQuorumLength (C.conf i)) (hrec : Recorded s w b)
    (hm : s.Moves s' l action effect) (hext : ExtendOk (s.nodes l.node) action)
    (hlead : LeadSound s) (hlead' : LeadSound s') :
    s.ExtendStep s' l action effect w ∧
      Recorded s' (w.record s' l.node) (b.record s s' l.node) := by
  have hledger' := LedgerSound.step hquorum hm hlead hlead' hrec.ledger hext.matchOk
  have hstep : s.ExtendStep s' l action effect w :=
    ⟨hquorum, hm, hext, hlead, hlead', hrec.ledger,
      LedgerSound.le_record hquorum hm hlead hlead' hrec.ledger⟩
  exact ⟨hstep, hledger', BallotSound.step hstep hrec.ballots,
    ReplicationSound.step hstep hrec.replication⟩

/-- A step of such a run. -/
theorem step (hquorum : ∀ i, n < 2 * getQuorumLength (C.conf i)) (hrec : Recorded s w b)
    (hreach : (clusterSystem C T).Reachable (Lift ExtendOk) s) (hok : Lift ExtendOk s l)
    (hl : (clusterSystem C T).step s l = some s') :
    ∃ action effect, s.ExtendStep s' l action effect w ∧
      Recorded s' (w.record s' l.node) (b.record s s' l.node) := by
  obtain ⟨action, effect, hm⟩ := step_cases hl
  exact ⟨action, effect, hrec.moves hquorum hm (hok action hm.resolved)
    (.of_reachable (fun _ _ h => h.1) hreach)
    (.of_reachable (fun _ _ h => h.1) (hreach.step hok hl))⟩

theorem of_reachable (hquorum : ∀ i, n < 2 * getQuorumLength (C.conf i))
    (h : (clusterSystem C T).Reachable (Lift ExtendOk) s) : ∃ w b, Recorded s w b := by
  refine h.invariant (I := fun s => ∃ w b, Recorded s w b) ?_ ?_
  · rintro s ⟨boot, rfl⟩
    exact ⟨_, _, start C T boot⟩
  · rintro s l s' hreach ⟨w, b, hrec⟩ hok hl
    obtain ⟨action, effect, _, hrec'⟩ := hrec.step hquorum hreach hok hl
    exact ⟨_, _, hrec'⟩

end Recorded
end Cluster
end Quaso
