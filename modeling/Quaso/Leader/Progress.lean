import Mathlib.Data.Finset.Lattice.Fold
import Quaso.Leader.Commit
import Quaso.Leader.Exchange

/-!
# The cluster can do its work

The safety theorems are about runs whose steps all meet `ExtendOk`: they keep a term to
one leader and only extend logs.  Such runs suffice: in a cluster of two nodes or more, any
node can be elected, and any commands can then be delivered everywhere.  The tick tasks keep
to the order of their loop.

* `Cluster.Led` — an idle leader whose peers all have the beginning of its log.
* `Cluster.Round.complete` — a round of heartbeats brings all peers to the end of the log.
* `Cluster.elected` — an election that the candidate wins.
* `TickCluster.Led.turn` — a turn of the leader's loop: a round, and a commit.
* `TickCluster.Led.deliver` — a command is appended, replicated, committed and delivered.
* `deliverable` — the same for all commands, from the start.
-/

namespace Quaso

variable {T : Type}

/-! ## Logs that are continued -/

/-- Where every node of a cluster has the same index, it occurs once for each. -/
theorem IndexMap.count_values_of_matched {m : IndexMap} {conf : Config} {index : Nat}
    (hkeyed : ∀ a ∈ m, a ∈ conf.connections ∨ a = conf.listenerAddr)
    (hmatched : ∀ a, a ∈ conf.connections ∨ a = conf.listenerAddr → m.lookup a = some index)
    (hnodup : conf.connections.Nodup) (hown : conf.listenerAddr ∉ conf.connections) :
    m.values.count index = conf.connections.length + 1 := by
  have hall : ∀ value ∈ m.values, index = value := by
    intro value hvalue
    obtain ⟨entry, hentry, rfl⟩ := List.mem_map.1 hvalue
    have hlookup : m.lookup entry.1 = some entry.2 := AList.mem_lookup_iff.2 hentry
    have hkey := hkeyed entry.1 (AList.lookup_isSome.1 (by simp [hlookup]))
    exact Option.some.inj ((hmatched _ hkey).symm.trans hlookup)
  have hperm : m.keys.Perm (conf.listenerAddr :: conf.connections) := by
    rw [List.perm_ext_iff_of_nodup m.keys_nodup (List.nodup_cons.2 ⟨hown, hnodup⟩)]
    intro a
    rw [← AList.mem_keys, List.mem_cons]
    constructor
    · exact fun ha => (hkeyed a ha).symm
    · exact fun ha => AList.lookup_isSome.1 (by simp [hmatched a ha.symm])
  rw [List.count_eq_length.2 hall, IndexMap.values, List.length_map]
  simpa [AList.keys, List.keys] using hperm.length_eq

/-- Where a log continues another, the beginning of both is sent alike. -/
theorem entriesBetween_of_isPrefix {base log : List (LogEntry T)} {start stop : Nat}
    (hbase : base <+: log) (hle : stop ≤ base.length) :
    entriesBetween base start stop = entriesBetween log start stop := by
  obtain ⟨rest, rfl⟩ := hbase
  simp only [entriesBetween, List.take_append_of_le_length hle]

/-- What is sent up to one index and from there to the next is what is sent up to that. -/
theorem entriesBetween_append {log : List (LogEntry T)} {mid stop : Nat} (hmid : mid ≤ stop)
    (hle : stop ≤ log.length) :
    entriesBetween log 0 mid ++ entriesBetween log mid stop = entriesBetween log 0 stop := by
  have hrange : List.range' 0 mid ++ List.range' mid (stop - mid) = List.range' 0 stop := by
    have happend := List.range'_append_1 (s := 0) (m := mid) (n := stop - mid)
    rwa [Nat.zero_add, Nat.add_sub_cancel' hmid] at happend
  have htake : log.take mid ++ (log.take stop).drop mid = log.take stop := by
    conv_rhs => rw [← List.take_append_drop mid (log.take stop), List.take_take,
      Nat.min_eq_left hmid]
  have hlength : (List.range' 0 mid).length = (log.take mid).length := by
    rw [List.length_range', List.length_take]
    omega
  simp only [entriesBetween, Nat.sub_zero, List.drop_zero]
  rw [← List.zip_append hlength, hrange, htake]

namespace Raft

/-- A leader whose next index is right continues the log of its peer. -/
theorem heartbeatRequest_continues (conf : Config) {state : State T} {conn : Addr}
    {base : List (LogEntry T)} (hbase : base <+: state.log)
    (hnext : state.nextIndex.lookup conn = some (base.length + 1)) :
    ∃ req, heartbeatRequest conf state conn = some req ∧ req.term = state.nodeTerm ∧
      req.leaderCommit = state.commitedIndex ∧ req.prevLogIndex = base.length ∧
      base ++ req.entries = state.log ∧
      Server.checkPrevLog base req.prevLogIndex req.prevLogTerm = .passes := by
  obtain ⟨rest, hrest⟩ := hbase
  induction base using List.reverseRecOn with
  | nil => exact ⟨_, heartbeatRequest_of_one conf hnext, rfl, rfl, rfl, rfl, rfl⟩
  | append_singleton base entry =>
    rw [List.length_append, List.length_singleton] at hnext
    have hentry : state.log[base.length]? = some entry := by simp [← hrest]
    refine ⟨_, heartbeatRequest_of_succ conf hnext hentry, rfl, rfl, by simp, ?_, ?_⟩
    · simp [← hrest]
    · exact Server.checkPrevLog_eq_passes.2 (Or.inr ⟨Nat.succ_pos _, entry, by simp, rfl⟩)

/-- A peer that has confirmed the log. -/
theorem heartbeatResponse_of_success (state : State T) (conn : Addr) {logSize : Nat}
    {resp : AppendEntriesResponse} (hsuccess : resp.success = true) (hpos : 0 < logSize) :
    heartbeatResponse state conn logSize resp =
      { state with
        nextIndex := state.nextIndex.insert conn (logSize + 1)
        matchIndex := state.matchIndex.insert conn logSize } := by
  simp [heartbeatResponse, hsuccess, hpos]

end Raft

/-- A request that continues the log to its end is accepted, and what it commits is sent. -/
theorem Server.appendEntries_continues (nodeId : NodeId) (env : Env) (state : State T)
    {req : AppendEntriesRequest T} {log : List (LogEntry T)} (hterm : state.nodeTerm ≤ req.term)
    (hcheck : checkPrevLog state.log req.prevLogIndex req.prevLogTerm = .passes)
    (hprev : req.prevLogIndex = state.log.length) (hlog : state.log ++ req.entries = log)
    (hcommit : state.commitedIndex ≤ req.leaderCommit) (hle : req.leaderCommit ≤ log.length) :
    ∃ state', appendEntries nodeId env state req
        = ⟨state', entriesBetween log state.commitedIndex req.leaderCommit,
            some ⟨nodeId, req.term, true⟩⟩ ∧
      state'.nodeTerm = req.term ∧ state'.log = log ∧ state'.commitedIndex = req.leaderCommit := by
  have hspliced : (acceptEntries env state req).log = log := by
    rw [acceptEntries_log, hprev, spliceEntries, if_neg (by omega), hlog]
  have hpasses : ¬ (req.term < state.nodeTerm ∧ state.nodeType = .leader) := fun h =>
    absurd h.1 (not_lt.2 hterm)
  unfold appendEntries
  rw [if_neg hpasses, hcheck]
  simp only [acceptEntries_commitedIndex, hspliced]
  rcases hcommit.lt_or_eq with hlt | heq
  · rw [if_pos hlt, deliverRange_eq hlt hle]
    exact ⟨_, rfl, rfl, hspliced, rfl⟩
  · rw [if_neg (by omega), ← heq]
    exact ⟨_, by simp [entriesBetween], rfl, hspliced, by simp⟩

/-- Where a quorum has the end of the log, the leader commits all of it. -/
theorem Raft.maybeCommitLogEntries_all {conf : Config} {state : State T}
    (hof : OfCluster conf state) (hrole : state.nodeType = .leader)
    (hle : state.commitedIndex ≤ state.log.length)
    (hcount : getQuorumLength conf ≤ state.matchIndex.values.count state.log.length) :
    maybeCommitLogEntries conf (frequencyPairs state) state
      = ⟨{ state with commitedIndex := state.log.length },
          entriesBetween state.log state.commitedIndex state.log.length, true⟩ := by
  have hquorum : 0 < getQuorumLength conf := by
    rw [getQuorumLength_of_lt hof.size]
    omega
  have hmem : state.log.length ∈ state.matchIndex.values :=
    List.count_pos_iff.1 (hquorum.trans_le hcount)
  have hcandidate : commitCandidate (getQuorumLength conf) (frequencyPairs state) = _ :=
    (hof.commitCandidate_eq_some_iff (.refl _)).2 ⟨hmem, rfl, hcount⟩
  unfold maybeCommitLogEntries
  rw [if_neg (not_not.2 hrole), hcandidate]
  simp only
  rcases hle.lt_or_eq with hlt | heq
  · rw [if_pos hlt, deliverRange_eq hlt le_rfl]
    rfl
  · rw [if_neg (by omega), ← heq]
    simp [entriesBetween]

/-! ## Rounds of heartbeats -/

/-- A free node that has a log and has delivered its beginning. -/
structure Node.Follows (m : Node T) (now : Nat) (term : NodeTerm) (log : List (LogEntry T))
    (commit : Nat) : Prop extends m.Free now where
  term_le : m.state.nodeTerm ≤ term
  log_eq : m.state.log = log
  commit_eq : m.state.commitedIndex = commit
  delivered_eq : m.delivered = entriesBetween log 0 commit

theorem Node.Follows.later {m : Node T} {now now' : Nat} {term : NodeTerm}
    {log : List (LogEntry T)} {commit : Nat} (h : m.Follows now term log commit)
    (hle : now ≤ now') : m.Follows now' term log commit :=
  { h with clock := h.clock.trans hle }

/-- A leader that has a log and has delivered its beginning. -/
structure Node.Leads (m : Node T) (now : Nat) (term : NodeTerm) (log : List (LogEntry T))
    (commit : Nat) : Prop where
  clock : m.clock ≤ now
  role : m.state.nodeType = .leader
  term_eq : m.state.nodeTerm = term
  log_eq : m.state.log = log
  commit_eq : m.state.commitedIndex = commit
  delivered_eq : m.delivered = entriesBetween log 0 commit

/-- The peers have the beginning `base` of the log, and have delivered no more of it than
the leader. -/
structure Behind (base log : List (LogEntry T)) (old commit : Nat) : Prop where
  isPrefix : base <+: log
  nonempty : log ≠ []
  old_le : old ≤ commit
  bound : old ≤ base.length
  commit_le : commit ≤ log.length

/-- What the leader has noted of a peer that has its log. -/
def Node.Matches (m : Node T) (log : List (LogEntry T)) (conn : Addr) : Prop :=
  m.state.nextIndex.lookup conn = some (log.length + 1) ∧
    m.state.matchIndex.lookup conn = some log.length

namespace Cluster

variable {n : Nat} {C : ClusterConfig n} {s : Cluster C T} {i : Fin n} {now : Nat}
  {due : Nat} {term : NodeTerm} {log base : List (LogEntry T)} {commit old : Nat}

/-- The leader's match indices belong to the cluster. -/
def Keyed (s : Cluster C T) (i : Fin n) : Prop :=
  ∀ a ∈ (s.nodes i).state.matchIndex,
    a ∈ (C.conf i).connections ∨ a = (C.conf i).listenerAddr

/-- A round of heartbeats, with the peers that have not been asked yet. -/
structure Round (s : Cluster C T) (i : Fin n) (now : Nat) (term : NodeTerm)
    (log base : List (LogEntry T)) (commit old : Nat) (todo : List Addr) : Prop
    extends (s.nodes i).Leads now term log commit where
  tick : (s.nodes i).tick = .heartbeat todo
  keyed : s.Keyed i
  pending : ∀ conn ∈ todo, (s.nodes i).state.nextIndex.lookup conn = some (base.length + 1)
  done : ∀ conn ∈ (C.conf i).connections, conn ∉ todo → (s.nodes i).Matches log conn
  waiting : ∀ j, j ≠ i → (C.conf j).listenerAddr ∈ todo →
    (s.nodes j).Follows now term base old
  served : ∀ j, j ≠ i → (C.conf j).listenerAddr ∉ todo →
    (s.nodes j).Follows now term log commit

/-- **One peer of a round.** -/
theorem Round.next {conn : Addr} {todo : List Addr}
    (h : s.Round i now term log base commit old (conn :: todo))
    (hbehind : Behind base log old commit) (hconn : conn ∈ (C.conf i).connections)
    (hnew : conn ∉ todo) :
    ∃ s', s.Goes s' ∧ s'.Round i now term log base commit old todo := by
  obtain ⟨j, hij, rfl⟩ := (C.mem_connections i _).1 hconn
  have hpeer := h.waiting j hij List.mem_cons_self
  obtain ⟨req, hreq, hreqTerm, hreqCommit, hprev, hentries, hcheck⟩ :=
    Raft.heartbeatRequest_continues (C.conf i) (h.log_eq ▸ hbehind.isPrefix)
      (h.pending _ List.mem_cons_self)
  rw [h.term_eq] at hreqTerm
  rw [h.commit_eq] at hreqCommit
  rw [h.log_eq] at hentries
  obtain ⟨state, hresult, hterm, hlog, hcommit⟩ :=
    Server.appendEntries_continues (C.conf j).nodeId (.atTime now) (s.nodes j).state
      (hreqTerm ▸ hpeer.term_le) (hpeer.log_eq ▸ hcheck) (hpeer.log_eq ▸ hprev)
      (hpeer.log_eq.symm ▸ hentries) (by rw [hpeer.commit_eq, hreqCommit]; exact hbehind.old_le)
      (by rw [hreqCommit]; exact hbehind.commit_le)
  obtain ⟨s', hgoes, hleader, hserved, hothers⟩ := goes_heartbeat hij h.tick h.clock hreq
    hpeer.toFree (hreqTerm ▸ hpeer.term_le) (hpeer.log_eq ▸ hprev) hresult
  have hpeer' : (s'.nodes j).Follows now term log commit := by
    rw [hserved]
    refine ⟨⟨hpeer.tick, hpeer.listener, le_rfl⟩, (hterm.trans hreqTerm).le, hlog,
      hcommit.trans hreqCommit, ?_⟩
    rw [hpeer.delivered_eq, hpeer.commit_eq, hreqCommit,
      entriesBetween_of_isPrefix hbehind.isPrefix hbehind.bound]
    exact entriesBetween_append hbehind.old_le hbehind.commit_le
  have hpos := List.length_pos_iff.2 hbehind.nonempty
  rw [h.log_eq, Raft.heartbeatResponse_of_success _ _ rfl hpos] at hleader
  refine ⟨s', hgoes, hleader ▸ ⟨le_rfl, h.role, h.term_eq, h.log_eq, h.commit_eq, h.delivered_eq⟩,
    by rw [hleader], ?_, ?_, ?_, ?_, ?_⟩
  · intro a ha
    rw [hleader] at ha
    rcases (AList.mem_insert _).1 ha with rfl | hold
    · exact Or.inl hconn
    · exact h.keyed a hold
  · intro a ha
    have hne : a ≠ (C.conf j).listenerAddr := fun heq => hnew (heq ▸ ha)
    rw [hleader]
    simp only [AList.lookup_insert_ne hne]
    exact h.pending a (List.mem_cons_of_mem _ ha)
  · intro a hpeers ha
    rw [Node.Matches, hleader]
    by_cases heq : a = (C.conf j).listenerAddr
    · subst heq
      exact ⟨AList.lookup_insert _, AList.lookup_insert _⟩
    · simp only [AList.lookup_insert_ne heq]
      exact h.done a hpeers fun hmem => (List.mem_cons.1 hmem).elim heq ha
  · intro k hki hk
    have hkj : k ≠ j := fun heq => hnew (heq ▸ hk)
    rw [hothers k hki hkj]
    exact h.waiting k hki (List.mem_cons_of_mem _ hk)
  · intro k hki hk
    by_cases hkj : k = j
    · subst hkj
      exact hpeer'
    · rw [hothers k hki hkj]
      refine h.served k hki fun hmem => (List.mem_cons.1 hmem).elim ?_ hk
      exact fun heq => hkj (C.addr_injective heq)

/-- The whole round. -/
theorem Round.complete {todo : List Addr} (h : s.Round i now term log base commit old todo)
    (hbehind : Behind base log old commit) (hsub : ∀ conn ∈ todo, conn ∈ (C.conf i).connections)
    (hnodup : todo.Nodup) : ∃ s', s.Goes s' ∧ s'.Round i now term log base commit old [] := by
  induction todo generalizing s with
  | nil => exact ⟨s, .refl _ _ s, h⟩
  | cons conn todo ih =>
    obtain ⟨hnew, hrest⟩ := List.nodup_cons.1 hnodup
    obtain ⟨s₁, hgoes₁, h₁⟩ := h.next hbehind (hsub _ List.mem_cons_self) hnew
    obtain ⟨s₂, hgoes₂, h₂⟩ := ih h₁ (fun a ha => hsub a (List.mem_cons_of_mem _ ha)) hrest
    exact ⟨s₂, hgoes₁.trans hgoes₂, h₂⟩

/-- An idle leader with a log, whose peers have the beginning `base` of it; its next round of
heartbeats is due. -/
structure Led (s : Cluster C T) (i : Fin n) (now due : Nat) (term : NodeTerm)
    (log base : List (LogEntry T)) (commit old : Nat) : Prop
    extends (s.nodes i).Leads now term log commit where
  tick : (s.nodes i).tick = .idle
  timeout : (s.nodes i).state.heartbeatTimeout ≤ due
  keyed : s.Keyed i
  next : ∀ conn ∈ (C.conf i).connections,
    (s.nodes i).state.nextIndex.lookup conn = some (base.length + 1)
  followers : ∀ j, j ≠ i → (s.nodes j).Follows now term base old

theorem Led.later {now' : Nat} (h : s.Led i now due term log base commit old)
    (hle : now ≤ now') : s.Led i now' due term log base commit old :=
  { h with
    clock := h.clock.trans hle
    followers := fun j hij => (h.followers j hij).later hle }

/-- Neither the time of the next save nor the flag matters to a leader. -/
theorem Led.moved {s' : Cluster C T} {conns : List (Connection n T)} {timeout : Nat}
    {flag : Bool} (h : s.Led i now due term log base commit old)
    (hmoved : s.Moved s' i { s.nodes i with
      clock := now
      state := { (s.nodes i).state with
        persistTimeout := timeout
        recievedLeaderHeartbeat := flag } } conns) :
    s'.Led i now due term log base commit old where
  clock := hmoved.acting ▸ le_rfl
  role := hmoved.acting ▸ h.role
  term_eq := hmoved.acting ▸ h.term_eq
  log_eq := hmoved.acting ▸ h.log_eq
  commit_eq := hmoved.acting ▸ h.commit_eq
  delivered_eq := hmoved.acting ▸ h.delivered_eq
  tick := hmoved.acting ▸ h.tick
  timeout := hmoved.acting ▸ h.timeout
  keyed := by
    intro a ha
    rw [hmoved.acting] at ha
    exact h.keyed a ha
  next := hmoved.acting ▸ h.next
  followers := by
    intro j hij
    rw [hmoved.others j hij]
    exact h.followers j hij

/-- The end of a round. -/
theorem Round.finish (h : s.Round i now term log base commit old [])
    (hdue : now + 5 ≤ due) :
    ∃ s', s.Goes s' ∧ s'.Led i now due term log log commit commit ∧
      ∀ a, a ∈ (C.conf i).connections ∨ a = (C.conf i).listenerAddr →
        (s'.nodes i).state.matchIndex.lookup a = some log.length := by
  have hend : (s.nodes i).step (C.conf i) (.atTime now) (.advance s.conns.length)
      = some ({ s.nodes i with
          clock := now
          state := Raft.heartbeatEnd (C.conf i) (.atTime now) (s.nodes i).state
          tick := .idle }, .quiet) := by
    simp [Node.step, Node.advance, h.tick, h.clock]
  obtain ⟨s', hgoes, hmoved⟩ := goes_act (by simp [isLocal])
    (.of_quiet rfl (by simp [termWraps, h.tick]) (by simp [Node.settles, h.tick]) rfl) rfl hend
  have hown := C.own_addr_notMem i
  have hmatches : ∀ a ∈ (C.conf i).connections, (s'.nodes i).Matches log a := by
    intro a ha
    have hne : a ≠ (C.conf i).listenerAddr := fun heq => hown (heq ▸ ha)
    obtain ⟨hnext, hmatch⟩ := h.done a ha List.not_mem_nil
    rw [Node.Matches, hmoved.acting]
    exact ⟨(AList.lookup_insert_ne hne).trans hnext, (AList.lookup_insert_ne hne).trans hmatch⟩
  refine ⟨s', hgoes,
    ⟨hmoved.acting ▸ ⟨le_rfl, h.role, h.term_eq, h.log_eq, h.commit_eq, h.delivered_eq⟩,
      by rw [hmoved.acting], ?_, ?_, fun a ha => (hmatches a ha).1, ?_⟩, ?_⟩
  · rw [hmoved.acting]
    exact hdue
  · intro a ha
    rw [hmoved.acting] at ha
    rcases (AList.mem_insert _).1 ha with rfl | hold
    · exact Or.inr rfl
    · exact h.keyed a hold
  · intro j hij
    rw [hmoved.others j hij]
    exact h.served j hij List.not_mem_nil
  · rintro a (ha | rfl)
    · exact (hmatches a ha).2
    · rw [hmoved.acting, ← h.log_eq]
      exact AList.lookup_insert _

/-- A command is appended to the leader's log. -/
theorem Led.append (h : s.Led i now due term log log commit old) (hle : commit ≤ log.length)
    (value : T) :
    ∃ s', s.Goes s' ∧ s'.Led i now due term (log ++ [⟨value, term⟩]) log commit old := by
  have happend : (s.nodes i).step (C.conf i) (.atTime now) (.appendEntry value)
      = some ({ s.nodes i with
          clock := now
          state := Raft.appendEntry (s.nodes i).state value }, .quiet) := by
    simp [Node.step, h.tick, Tick.holdsLock, h.clock]
  obtain ⟨s', hgoes, hmoved⟩ := goes_act rfl (.of_quiet rfl rfl rfl rfl) rfl happend
  have hacting := hmoved.acting
  rw [Raft.appendEntry_of_leader h.role, h.term_eq, h.log_eq] at hacting
  have hdelivered : (s.nodes i).delivered = entriesBetween (log ++ [⟨value, term⟩]) 0 commit := by
    rw [h.delivered_eq, entriesBetween_of_isPrefix (List.prefix_append log _) hle]
  refine ⟨s', hgoes,
    hacting ▸ ⟨le_rfl, h.role, rfl, rfl, h.commit_eq, hdelivered⟩,
    hacting ▸ h.tick, hacting ▸ h.timeout, ?_, hacting ▸ h.next, fun j hij => ?_⟩
  · intro a ha
    rw [hacting] at ha
    exact h.keyed a ha
  · rw [hmoved.others j hij]
    exact h.followers j hij

/-- The leader commits what all nodes have. -/
theorem Led.step_commit (h : s.Led i now due term log log commit old)
    (hle : commit ≤ log.length) (hsize : n < 2 ^ 24)
    (hmatched : ∀ a, a ∈ (C.conf i).connections ∨ a = (C.conf i).listenerAddr →
      (s.nodes i).state.matchIndex.lookup a = some log.length) :
    (s.nodes i).step (C.conf i) (.atTime now) (.commit (Raft.frequencyPairs (s.nodes i).state))
      = some ({ s.nodes i with
          clock := now
          state := { (s.nodes i).state with commitedIndex := log.length }
          delivered := (s.nodes i).delivered ++ entriesBetween log commit log.length
          tick := .idle }, .quiet) := by
  have hlen := C.length_connections i
  have hof : Raft.OfCluster (C.conf i) (s.nodes i).state := ⟨h.keyed, hlen.symm ▸ hsize⟩
  have hcount : getQuorumLength (C.conf i)
      ≤ (s.nodes i).state.matchIndex.values.count log.length := by
    rw [IndexMap.count_values_of_matched h.keyed hmatched (C.connections_nodup i)
      (C.own_addr_notMem i), getQuorumLength_of_lt (by omega)]
    omega
  have hresult := Raft.maybeCommitLogEntries_all hof h.role
    (by rw [h.commit_eq, h.log_eq]; exact hle) (by rw [h.log_eq]; exact hcount)
  rw [h.log_eq, h.commit_eq] at hresult
  simp [Node.step, Node.whenIdle, Node.commit, h.tick, Tick.isIdle, h.clock, hresult]

/-- Then all of the log is committed. -/
theorem Led.commits {s' : Cluster C T} {conns : List (Connection n T)}
    (h : s.Led i now due term log log commit old) (hle : commit ≤ log.length)
    (hmoved : s.Moved s' i { s.nodes i with
      clock := now
      state := { (s.nodes i).state with commitedIndex := log.length }
      delivered := (s.nodes i).delivered ++ entriesBetween log commit log.length
      tick := .idle } conns) :
    s'.Led i now due term log log log.length old := by
  have hacting := hmoved.acting
  rw [h.delivered_eq, entriesBetween_append hle le_rfl] at hacting
  refine ⟨hacting ▸ ⟨le_rfl, h.role, h.term_eq, h.log_eq, rfl, rfl⟩,
    hacting ▸ rfl, hacting ▸ h.timeout, ?_, hacting ▸ h.next, fun j hij => ?_⟩
  · intro a ha
    rw [hacting] at ha
    exact h.keyed a ha
  · rw [hmoved.others j hij]
    exact h.followers j hij

end Cluster

/-! ## An election -/

namespace Cluster

variable {n : Nat} {C : ClusterConfig n} {s : Cluster C T} {i : Fin n} {now : Nat}

/-- An election in a cluster that has just been started, with the peers that have not been
asked yet. -/
structure Polling (s : Cluster C T) (i : Fin n) (now : Nat) (todo : List Addr) : Prop where
  clock : (s.nodes i).clock ≤ now
  time : now ≤ (s.nodes i).state.electionTimeout
  timeout : (s.nodes i).state.heartbeatTimeout ≤ now + 5
  tick : (s.nodes i).tick = .election ⟨1, (C.conf i).nodeId, 0, 0⟩ todo
  term_eq : (s.nodes i).state.nodeTerm = 1
  log_eq : (s.nodes i).state.log = []
  commit_eq : (s.nodes i).state.commitedIndex = 0
  delivered_eq : (s.nodes i).delivered = []
  few : (s.nodes i).state.votesRecieved.length < getQuorumLength (C.conf i)
  enough : getQuorumLength (C.conf i)
    ≤ (s.nodes i).state.votesRecieved.length + todo.length
  unasked : ∀ j, j ≠ i → (C.conf j).listenerAddr ∈ todo → (s.nodes j).state.votedFor = none
  followers : ∀ j, j ≠ i → (s.nodes j).Follows now 1 [] 0

/-- A node that has not voted grants to the first candidate. -/
theorem grants_first {m : Node T} {now : Nat} (candidate : NodeId)
    (h : m.Follows now 1 [] 0) (hvoted : m.state.votedFor = none) :
    Server.grants m.state ⟨1, candidate, 0, 0⟩ = true :=
  Server.grants_iff.2 ⟨h.term_le, fun _ => Server.votedForOther_eq_false.2 (Or.inl hvoted), by
    simp [Server.logGrants, h.log_eq, hvoted]⟩

/-- With its quorum the candidate becomes the leader. -/
theorem goes_won (state : State T) {req : ElectionVoteRequest} {log : List (LogEntry T)}
    (hclock : (s.nodes i).clock ≤ now) (htick : (s.nodes i).tick = .won req log)
    (hstate : (s.nodes i).state = Raft.initLeaderState (C.conf i) state)
    (hterm : state.nodeTerm = 1) (hlog : state.log = []) (hcommit : state.commitedIndex = 0)
    (hdelivered : (s.nodes i).delivered = []) (htimeout : state.heartbeatTimeout ≤ now + 5)
    (hfollowers : ∀ j, j ≠ i → (s.nodes j).Follows now 1 [] 0) :
    ∃ s', s.Goes s' ∧ s'.Led i now (now + 5) 1 [] [] 0 0 := by
  have hsettle : (s.nodes i).step (C.conf i) (.atTime now) (.advance s.conns.length)
      = some ({ s.nodes i with
          clock := now
          isLeader := true
          state := (Raft.initLeaderState (C.conf i) state).transition .leader 0
          tick := .idle }, .quiet) := by
    simp [Node.step, Node.advance, htick, hclock, Node.transitionWrapper, hstate]
  obtain ⟨s', hgoes, hmoved⟩ := goes_act (by simp [isLocal])
    (.of_quiet rfl (by simp [termWraps, htick]) (by simp [Node.settles, htick]) rfl) rfl hsettle
  have hterm' : state.nodeTerm + 0 = 1 := by rw [hterm]; rfl
  refine ⟨s', hgoes,
    hmoved.acting ▸ ⟨le_rfl, rfl, hterm', hlog, hcommit, hdelivered⟩,
    hmoved.acting ▸ rfl, hmoved.acting ▸ htimeout, ?_, ?_, fun j hij => ?_⟩
  · intro a ha
    rw [hmoved.acting] at ha
    have hlookup := AList.lookup_isSome.2 ha
    simp only [State.transition, Raft.initLeaderState, IndexMap.lookup_insertAll] at hlookup
    split at hlookup
    · rename_i hconn
      exact Or.inl hconn
    · cases hlookup
  · intro conn hconn
    rw [hmoved.acting]
    simp [State.transition, Raft.initLeaderState, IndexMap.lookup_insertAll, hconn, hlog]
  · rw [hmoved.others j hij]
    exact hfollowers j hij

/-- **One peer of an election**: with its vote the candidate wins, or asks the next. -/
theorem Polling.next {conn : Addr} {todo : List Addr} (h : s.Polling i now (conn :: todo))
    (hconn : conn ∈ (C.conf i).connections) (hnew : conn ∉ todo) :
    ∃ s', s.Goes s' ∧ (s'.Led i now (now + 5) 1 [] [] 0 0 ∨ s'.Polling i now todo) := by
  obtain ⟨j, hij, rfl⟩ := (C.mem_connections i _).1 hconn
  have hpeer := h.followers j hij
  have hgrants := grants_first (C.conf i).nodeId hpeer
    (h.unasked j hij List.mem_cons_self)
  have hvoted : ∀ s' : Cluster C T,
      s'.nodes j = { s.nodes j with
        clock := now
        state := Server.grantVote (.atTime now) (s.nodes j).state ⟨1, (C.conf i).nodeId, 0, 0⟩
        cast := (s.nodes j).cast ++ [(1, (C.conf i).nodeId)] } →
      (∀ k, k ≠ i → k ≠ j → s'.nodes k = s.nodes k) →
      ∀ k, k ≠ i → (s'.nodes k).Follows now 1 [] 0 := by
    intro s' hserved hothers k hki
    by_cases hkj : k = j
    · subst hkj
      rw [hserved]
      exact ⟨⟨hpeer.tick, hpeer.listener, le_rfl⟩, le_rfl, hpeer.log_eq, hpeer.commit_eq,
        hpeer.delivered_eq⟩
    · rw [hothers k hki hkj]
      exact h.followers k hki
  set state := { (s.nodes i).state with
    votesRecieved := (s.nodes i).state.votesRecieved ++ [(C.conf j).nodeId] } with hstate
  have hlength : state.votesRecieved.length = (s.nodes i).state.votesRecieved.length + 1 := by
    simp [hstate]
  have hcount : Raft.countVote (C.conf i) (s.nodes i).state ⟨(C.conf j).nodeId, 1, true⟩
      = Raft.testQuorum (C.conf i) state := if_pos rfl
  by_cases hquorum : getQuorumLength (C.conf i) ≤ state.votesRecieved.length
  · rw [Raft.testQuorum, if_pos hquorum] at hcount
    obtain ⟨s', hgoes, hacting, hserved, hothers⟩ := goes_vote { s.nodes i with
        clock := now
        state := Raft.initLeaderState (C.conf i) state
        tick := .won ⟨1, (C.conf i).nodeId, 0, 0⟩ (Raft.initLeaderState (C.conf i) state).log }
      hij h.tick h.clock h.time hpeer.toFree hgrants (by simp only [Node.voteAnswer, hcount])
    obtain ⟨s'', hgoes', hled⟩ := goes_won state (by rw [hacting])
      (by rw [hacting]) (by rw [hacting]) h.term_eq h.log_eq h.commit_eq
      (hacting ▸ h.delivered_eq) h.timeout (hvoted s' hserved hothers)
    exact ⟨s'', hgoes.trans hgoes', Or.inl hled⟩
  · rw [Raft.testQuorum, if_neg hquorum] at hcount
    obtain ⟨s', hgoes, hacting, hserved, hothers⟩ := goes_vote { s.nodes i with
        clock := now
        state := state
        tick := .election ⟨1, (C.conf i).nodeId, 0, 0⟩ todo }
      hij h.tick h.clock h.time hpeer.toFree hgrants (by simp only [Node.voteAnswer, hcount])
    have henough := h.enough
    rw [List.length_cons] at henough
    refine ⟨s', hgoes, Or.inr ⟨hacting ▸ le_rfl, hacting ▸ h.time, hacting ▸ h.timeout,
      hacting ▸ rfl, hacting ▸ h.term_eq, hacting ▸ h.log_eq, hacting ▸ h.commit_eq,
      hacting ▸ h.delivered_eq, hacting ▸ not_le.1 hquorum, ?_, ?_, hvoted s' hserved hothers⟩⟩
    · rw [hacting]
      simp only
      omega
    · intro k hki hk
      have hkj : k ≠ j := fun heq => hnew (heq ▸ hk)
      rw [hothers k hki hkj]
      exact h.unasked k hki (List.mem_cons_of_mem _ hk)

/-- The whole election. -/
theorem Polling.complete {todo : List Addr} (h : s.Polling i now todo)
    (hsub : ∀ conn ∈ todo, conn ∈ (C.conf i).connections) (hnodup : todo.Nodup) :
    ∃ s', s.Goes s' ∧ s'.Led i now (now + 5) 1 [] [] 0 0 := by
  induction todo generalizing s with
  | nil => exact absurd h.enough (not_le.2 h.few)
  | cons conn todo ih =>
    obtain ⟨hnew, hrest⟩ := List.nodup_cons.1 hnodup
    obtain ⟨s₁, hgoes₁, hled | h₁⟩ := h.next (hsub _ List.mem_cons_self) hnew
    · exact ⟨s₁, hgoes₁, hled⟩
    · obtain ⟨s₂, hgoes₂, hled⟩ := ih h₁ (fun a ha => hsub a (List.mem_cons_of_mem _ ha)) hrest
      exact ⟨s₂, hgoes₁.trans hgoes₂, hled⟩

/-- **A started cluster elects any of its nodes**, once it is to become a candidate. -/
theorem elected (hpeers : 1 < n) (hsize : n < 2 ^ 24) {boot : Fin n → Env} {timeout : Nat}
    (hnow : ∀ j, (boot j).now + 300 < now)
    (hacting : s.nodes i = { Node.start (C.conf i) (boot i) with
      clock := now
      state := { State.new (boot i) (C.conf i).connections .fresh with persistTimeout := timeout }
      tick := .becoming })
    (hothers : ∀ j, j ≠ i → s.nodes j = Node.start (C.conf j) (boot j)) :
    ∃ s', s.Goes s' ∧ s'.Led i now (now + 5) 1 [] [] 0 0 := by
  have hcandidate : (s.nodes i).step (C.conf i) (.atTime now) (.advance s.conns.length)
      = some ({ s.nodes i with
          clock := now
          isLeader := false
          state := (s.nodes i).state.transition .candidate 1
          tick := .candidate }, .quiet) := by
    simp [hacting, Node.step, Node.advance, Node.transitionWrapper]
  obtain ⟨s₁, hgoes₁, hmoved₁⟩ := goes_act (by simp [isLocal])
    (.of_quiet rfl (by rw [hacting]; rfl) (by rw [hacting]; rfl) rfl) rfl hcandidate
  rw [hacting] at hmoved₁
  have helection : (s₁.nodes i).step (C.conf i) (.atTime now) (.advance s₁.conns.length)
      = some (Node.startElection (C.conf i) (.atTime now) (s₁.nodes i), .quiet) := by
    rw [hmoved₁.acting]
    simp [Node.step, Node.advance]
  obtain ⟨s₂, hgoes₂, hmoved₂⟩ := goes_act (by simp [isLocal])
    (.of_quiet rfl (by rw [hmoved₁.acting]; rfl) (by rw [hmoved₁.acting]; rfl) rfl) rfl helection
  rw [hmoved₁.acting] at hmoved₂
  have hlen := C.length_connections i
  have hquorum : getQuorumLength (C.conf i) = ((C.conf i).connections.length + 1) / 2 + 1 :=
    getQuorumLength_of_lt (by omega)
  have hstarted : ∀ j, j ≠ i → s₂.nodes j = Node.start (C.conf j) (boot j) := fun j hij => by
    rw [hmoved₂.others j hij, hmoved₁.others j hij, hothers j hij]
  have hheartbeat : (boot i).now + (boot i).heartbeatTime ≤ now + 5 := by
    have := hnow i
    have := (boot i).heartbeat_range.2
    omega
  have hcandidates := hmoved₂.acting
  have hpolling : s₂.Polling i now (C.conf i).connections := by
    refine ⟨hcandidates ▸ le_rfl, ?_, hcandidates ▸ hheartbeat, hcandidates ▸ rfl,
      hcandidates ▸ rfl, hcandidates ▸ rfl, hcandidates ▸ rfl, hcandidates ▸ rfl, ?_, ?_,
      fun j hij _ => ?_, fun j hij => ?_⟩
    · rw [hcandidates]
      exact Nat.le_add_right now 150
    · rw [hcandidates]
      change 1 < _
      omega
    · rw [hcandidates]
      change _ ≤ 1 + _
      omega
    · rw [hstarted j hij]
      rfl
    · rw [hstarted j hij]
      have hlate : (boot j).now ≤ now := by have := hnow j; omega
      exact ⟨⟨rfl, rfl, hlate⟩, Fin.zero_le _, rfl, rfl, rfl⟩
  obtain ⟨s₃, hgoes₃, hled⟩ := hpolling.complete (fun _ => id) (C.connections_nodup i)
  exact ⟨s₃, (hgoes₁.trans hgoes₂).trans hgoes₃, hled⟩

end Cluster

/-! ## Turns of the loop -/

namespace TickCluster

variable {n : Nat} {C : ClusterConfig n} {s : TickCluster C T} {i : Fin n} {now due : Nat}
  {term : NodeTerm} {log base : List (LogEntry T)} {commit old : Nat}

/-- A run in the order of the loops, whose steps all meet `ExtendOk`. -/
abbrev Goes (s s' : TickCluster C T) : Prop := (tickSystem C T).Steps (OnCluster ExtendOk) s s'

/-- An operation is called at its turn. -/
theorem goes_call {env : Env} {action : Action T} {stage : Stage} {m : Node T}
    (hcalls : action.calls = some stage) (hstage : (s.loops i).stage = stage)
    (hwake : stage = .persist → (s.loops i).wake ≤ env.now)
    (hok : ExtendOk (s.cluster.nodes i) action) (hlocal : s.cluster.isLocal action = true)
    (hstep : (s.cluster.nodes i).step (C.conf i) env action = some (m, .quiet)) :
    ∃ s', s.Goes s' ∧ s.cluster.Moved s'.cluster i m s.cluster.conns ∧
      s'.loops i = (s.loops i).settle env m :=
  ⟨_, call hcalls hstage hwake hok hlocal hstep,
    ⟨s.cluster.setNode_self i m, fun _ hk => s.cluster.setNode_of_ne m hk, rfl⟩, if_pos rfl⟩

/-- Only the first operation of a turn waits for the sleep. -/
theorem goes_later {env : Env} {action : Action T} {stage : Stage} {m : Node T}
    (hcalls : action.calls = some stage) (hstage : (s.loops i).stage = stage)
    (hlater : stage ≠ .persist) (hok : ExtendOk (s.cluster.nodes i) action)
    (hlocal : s.cluster.isLocal action = true)
    (hstep : (s.cluster.nodes i).step (C.conf i) env action = some (m, .quiet)) :
    ∃ s', s.Goes s' ∧ s.cluster.Moved s'.cluster i m s.cluster.conns ∧
      s'.loops i = (s.loops i).settle env m :=
  goes_call hcalls hstage (fun hfirst => absurd hfirst hlater) hok hlocal hstep

/-- `try_persist_state` finds nothing to do, or writes the file. -/
theorem goes_persist (hstage : (s.loops i).stage = .persist) (hwake : (s.loops i).wake ≤ now)
    (htick : (s.cluster.nodes i).tick = .idle) (hclock : (s.cluster.nodes i).clock ≤ now)
    (hle : (s.cluster.nodes i).state.commitedIndex ≤ (s.cluster.nodes i).state.log.length) :
    ∃ s' timeout, s.Goes s' ∧ s.cluster.Moved s'.cluster i { s.cluster.nodes i with
        clock := now
        state := { (s.cluster.nodes i).state with persistTimeout := timeout } }
      s.cluster.conns ∧ (s'.loops i).stage = .heartbeat := by
  have hstep : ∃ timeout, (s.cluster.nodes i).step (C.conf i) (.atTime now) .tryPersist
      = some ({ s.cluster.nodes i with
          clock := now
          state := { (s.cluster.nodes i).state with persistTimeout := timeout } }, .quiet) := by
    have hpersist : ((s.cluster.nodes i).state.toPersistentState.persist
        (s.cluster.nodes i).state.commitedIndex).isSome = true := by
      by_cases hpos : 0 < (s.cluster.nodes i).state.commitedIndex
      · rw [PersistentState.persist, if_pos hpos, if_pos hle]
        rfl
      · rw [PersistentState.persist, if_neg hpos]
        rfl
    obtain ⟨image, himage⟩ := Option.isSome_iff_exists.1 hpersist
    by_cases htime : (s.cluster.nodes i).state.persistTimeout < now
    · exact ⟨now + 5000, by
        simp [Node.step, Node.whenIdle, Node.tryPersist, htick, Tick.isIdle, hclock, htime, himage]⟩
    · exact ⟨(s.cluster.nodes i).state.persistTimeout, by
        simp [Node.step, Node.whenIdle, Node.tryPersist, htick, Tick.isIdle, hclock, htime]⟩
  obtain ⟨timeout, hstep⟩ := hstep
  obtain ⟨s', hgoes, hmoved, hloop⟩ := goes_call rfl hstage (fun _ => hwake)
    (.of_quiet rfl rfl rfl rfl) rfl hstep
  refine ⟨s', timeout, hgoes, hmoved, ?_⟩
  simp [hloop, Loop.settle, htick, Tick.isIdle, Loop.next, hstage]

/-- The flag is cleared, and the loop sleeps. -/
theorem goes_clear (hstage : (s.loops i).stage = .clear)
    (htick : (s.cluster.nodes i).tick = .idle) (hclock : (s.cluster.nodes i).clock ≤ now) :
    ∃ s', s.Goes s' ∧ s.cluster.Moved s'.cluster i { s.cluster.nodes i with
        clock := now
        state := { (s.cluster.nodes i).state with recievedLeaderHeartbeat := false } }
      s.cluster.conns ∧ s'.loops i = ⟨.persist, now + 5⟩ := by
  have hstep : (s.cluster.nodes i).step (C.conf i) (.atTime now) .clearFlag
      = some ({ s.cluster.nodes i with
          clock := now
          state := { (s.cluster.nodes i).state with recievedLeaderHeartbeat := false } },
        .quiet) := by
    simp [Node.step, Node.whenIdle, htick, Tick.isIdle, hclock]
  obtain ⟨s', hgoes, hmoved, hloop⟩ := goes_later rfl hstage (by decide)
    (.of_quiet rfl rfl rfl rfl) rfl hstep
  refine ⟨s', hgoes, hmoved, ?_⟩
  simp only [hloop, Loop.settle, htick, Tick.isIdle, Loop.next, hstage]
  rfl

/-- An operation that finds nothing to do gives the turn to the next. -/
theorem goes_skip {action : Action T} {stage : Stage} (hcalls : action.calls = some stage)
    (hstage : (s.loops i).stage = stage) (hlater : stage ≠ .persist)
    (hlocal : s.cluster.isLocal action = true) (hok : ExtendOk (s.cluster.nodes i) action)
    (htick : (s.cluster.nodes i).tick = .idle)
    (hstep : (s.cluster.nodes i).step (C.conf i) (.atTime now) action
      = some ({ s.cluster.nodes i with clock := now }, .quiet)) :
    ∃ s', s.Goes s' ∧ s.cluster.Moved s'.cluster i { s.cluster.nodes i with clock := now }
        s.cluster.conns ∧ s'.loops i = (s.loops i).next (.atTime now) := by
  obtain ⟨s', hgoes, hmoved, hloop⟩ := goes_later hcalls hstage hlater hok hlocal hstep
  refine ⟨s', hgoes, hmoved, ?_⟩
  simp [hloop, Loop.settle, htick, Tick.isIdle]

/-- A node that does not lead gets to `maybe_transition_candidate`: the operations before it
find nothing to do, except that the file may be written. -/
theorem goes_follower (hstage : (s.loops i).stage = .persist) (hwake : (s.loops i).wake ≤ now)
    (htick : (s.cluster.nodes i).tick = .idle) (hclock : (s.cluster.nodes i).clock ≤ now)
    (hle : (s.cluster.nodes i).state.commitedIndex ≤ (s.cluster.nodes i).state.log.length)
    (hrole : (s.cluster.nodes i).state.nodeType ≠ .leader) :
    ∃ s' timeout, s.Goes s' ∧ s.cluster.Moved s'.cluster i { s.cluster.nodes i with
        clock := now
        state := { (s.cluster.nodes i).state with persistTimeout := timeout } }
      s.cluster.conns ∧ (s'.loops i).stage = .candidate := by
  obtain ⟨s₁, timeout, hgoes₁, hmoved₁, hstage₁⟩ := goes_persist hstage hwake htick hclock hle
  have hskip₁ : (s₁.cluster.nodes i).step (C.conf i) (.atTime now) .sendHeartbeat
      = some ({ s₁.cluster.nodes i with clock := now }, .quiet) := by
    simp [hmoved₁.acting, Node.step, Node.whenIdle, Node.sendHeartbeat, htick, Tick.isIdle, hrole]
  obtain ⟨s₂, hgoes₂, hmoved₂, hloop₂⟩ := goes_skip rfl hstage₁ (by decide) rfl
    (.of_quiet rfl rfl rfl rfl) (by rw [hmoved₁.acting]; exact htick) hskip₁
  have hstage₂ : (s₂.loops i).stage = .commit := by rw [hloop₂, Loop.next, hstage₁]
  rw [hmoved₁.acting] at hmoved₂
  have hskip₂ : (s₂.cluster.nodes i).step (C.conf i) (.atTime now)
        (.commit (Raft.frequencyPairs (s₂.cluster.nodes i).state))
      = some ({ s₂.cluster.nodes i with clock := now }, .quiet) := by
    simp [hmoved₂.acting, Node.step, Node.whenIdle, Node.commit, Raft.maybeCommitLogEntries,
      htick, Tick.isIdle, hrole]
  obtain ⟨s₃, hgoes₃, hmoved₃, hloop₃⟩ := goes_skip rfl hstage₂ (by decide) rfl
    (.of_quiet rfl rfl rfl rfl) (by rw [hmoved₂.acting]; exact htick) hskip₂
  rw [hmoved₂.acting] at hmoved₃
  have hmoved := (hmoved₁.trans hmoved₂).trans hmoved₃
  rw [hmoved₂.conns, hmoved₁.conns] at hmoved
  exact ⟨s₃, timeout, (hgoes₁.trans hgoes₂).trans hgoes₃, hmoved,
    by rw [hloop₃, Loop.next, hstage₂]⟩

/-- An idle leader, between two turns of its loop. -/
structure Led (s : TickCluster C T) (i : Fin n) (now : Nat) (term : NodeTerm)
    (log base : List (LogEntry T)) (commit old : Nat) : Prop where
  led : s.cluster.Led i now (now + 5) term log base commit old
  stage : (s.loops i).stage = .persist
  wake : (s.loops i).wake ≤ now + 5

/-- **A round of heartbeats** brings all peers to the end of the log, and to the commit
index that the leader has at its start. -/
theorem goes_round (h : s.cluster.Led i now due term log base commit old) (hdue : due ≤ now)
    (hstage : (s.loops i).stage = .heartbeat) (hbehind : Behind base log old commit) :
    ∃ s', s.Goes s' ∧ s'.cluster.Led i now (now + 5) term log log commit commit ∧
      (s'.loops i).stage = .commit ∧
      ∀ a, a ∈ (C.conf i).connections ∨ a = (C.conf i).listenerAddr →
        (s'.cluster.nodes i).state.matchIndex.lookup a = some log.length := by
  have hstart : (s.cluster.nodes i).step (C.conf i) (.atTime now) .sendHeartbeat
      = some ({ s.cluster.nodes i with
          clock := now
          tick := .heartbeat (C.conf i).connections }, .quiet) := by
    have htime : ¬ now < (s.cluster.nodes i).state.heartbeatTimeout :=
      not_lt.2 (h.timeout.trans hdue)
    simp [Node.step, Node.whenIdle, Node.sendHeartbeat, h.tick, Tick.isIdle, h.role, htime, h.clock]
  obtain ⟨s₁, hgoes₁, hmoved₁, hloop₁⟩ := goes_later rfl hstage (by decide)
    (.of_quiet rfl rfl rfl rfl) rfl hstart
  have hround : s₁.cluster.Round i now term log base commit old (C.conf i).connections := by
    refine ⟨hmoved₁.acting ▸ ⟨le_rfl, h.role, h.term_eq, h.log_eq, h.commit_eq, h.delivered_eq⟩,
      by rw [hmoved₁.acting], ?_, ?_, fun a ha hnot => absurd ha hnot, ?_, ?_⟩
    · intro a ha
      rw [hmoved₁.acting] at ha
      exact h.keyed a ha
    · rw [hmoved₁.acting]
      exact h.next
    · intro j hij _
      rw [hmoved₁.others j hij]
      exact h.followers j hij
    · intro j hij hnot
      exact absurd ((C.mem_connections i _).2 ⟨j, hij, rfl⟩) hnot
  obtain ⟨c₂, hgoes₂, h₂⟩ := hround.complete hbehind (fun _ => id) (C.connections_nodup i)
  obtain ⟨c₃, hgoes₃, h₃, hmatched⟩ := h₂.finish le_rfl
  obtain ⟨loops, hgoes, hcarried⟩ := carry (hgoes₂.trans hgoes₃)
  have hbusy : (s₁.cluster.nodes i).tick.isIdle = false := by rw [hmoved₁.acting]; rfl
  obtain ⟨env, hnext⟩ := (hcarried i).returned hbusy (by rw [h₃.tick]; rfl)
  refine ⟨⟨c₃, loops⟩, hgoes₁.trans hgoes, h₃, ?_, hmatched⟩
  have hloop : s₁.loops i = s.loops i := by
    rw [hloop₁]
    rfl
  change (loops i).stage = .commit
  rw [hnext, hloop, Loop.next, hstage]

/-- **A turn of the leader's loop** brings all nodes to the end of the log, and its commit
index with them. -/
theorem Led.turn (h : s.Led i now term log base commit old) (hsize : n < 2 ^ 24)
    (hbehind : Behind base log old commit) :
    ∃ s', s.Goes s' ∧ s'.Led i (now + 5) term log log log.length commit := by
  have h₀ := h.led.later (Nat.le_add_right now 5)
  obtain ⟨s₁, timeout, hgoes₁, hmoved₁, hstage₁⟩ := goes_persist h.stage h.wake h₀.tick h₀.clock
    (by rw [h₀.commit_eq, h₀.log_eq]; exact hbehind.commit_le)
  obtain ⟨s₂, hgoes₂, h₂, hstage₂, hmatched₂⟩ :=
    goes_round (h₀.moved hmoved₁) le_rfl hstage₁ hbehind
  obtain ⟨s₃, hgoes₃, hmoved₃, hloop₃⟩ := goes_later rfl hstage₂ (by decide)
    (.of_quiet rfl rfl rfl rfl) rfl (h₂.step_commit hbehind.commit_le hsize hmatched₂)
  have h₃ := h₂.commits hbehind.commit_le hmoved₃
  have hstage₃ : (s₃.loops i).stage = .candidate := by
    simp [hloop₃, Loop.settle, Tick.isIdle, Loop.next, hstage₂]
  have hskip : (s₃.cluster.nodes i).step (C.conf i) (.atTime (now + 5)) .transitionCandidate
      = some ({ s₃.cluster.nodes i with clock := now + 5 }, .quiet) := by
    simp [Node.step, Node.whenIdle, Node.transitionCandidate, h₃.tick, Tick.isIdle, h₃.role,
      h₃.clock]
  obtain ⟨s₄, hgoes₄, hmoved₄, hloop₄⟩ := goes_skip rfl hstage₃ (by decide) rfl
    (.of_quiet rfl rfl rfl rfl) h₃.tick hskip
  have h₄ := h₃.moved hmoved₄
  have hstage₄ : (s₄.loops i).stage = .clear := by rw [hloop₄, Loop.next, hstage₃]
  obtain ⟨s₅, hgoes₅, hmoved₅, hloop₅⟩ := goes_clear hstage₄ h₄.tick h₄.clock
  refine ⟨s₅, (((hgoes₁.trans hgoes₂).trans hgoes₃).trans hgoes₄).trans hgoes₅,
    h₄.moved hmoved₅, ?_, ?_⟩
  · rw [hloop₅]
  · rw [hloop₅]

/-- A command is appended while the loop sleeps. -/
theorem Led.append (h : s.Led i now term log log commit old) (hle : commit ≤ log.length)
    (value : T) :
    ∃ s', s.Goes s' ∧ s'.Led i now term (log ++ [⟨value, term⟩]) log commit old := by
  obtain ⟨c, hgoes, hled⟩ := h.led.append hle value
  obtain ⟨loops, hgoes', hcarried⟩ := carry hgoes
  have hloop : (⟨c, loops⟩ : TickCluster C T).loops i = s.loops i :=
    ((hcarried i).idle (by rw [h.led.tick]; rfl)).2
  exact ⟨⟨c, loops⟩, hgoes', hled, hloop ▸ h.stage, hloop ▸ h.wake⟩

/-- **A command is delivered everywhere** after two turns: one replicates and commits it, one
carries the commit index. -/
theorem Led.deliver (h : s.Led i now term log log log.length log.length) (hsize : n < 2 ^ 24)
    (value : T) :
    ∃ s' now' log', s.Goes s' ∧ log' = log ++ [⟨value, term⟩] ∧
      s'.Led i now' term log' log' log'.length log'.length := by
  obtain ⟨s₁, hgoes₁, h₁⟩ := h.append le_rfl value
  have hlonger : log.length ≤ (log ++ [(⟨value, term⟩ : LogEntry T)]).length := by simp
  have hnew : log ++ [(⟨value, term⟩ : LogEntry T)] ≠ [] := by simp
  obtain ⟨s₂, hgoes₂, h₂⟩ :=
    h₁.turn hsize ⟨List.prefix_append log _, hnew, le_rfl, le_rfl, hlonger⟩
  obtain ⟨s₃, hgoes₃, h₃⟩ := h₂.turn hsize ⟨List.prefix_rfl, hnew, hlonger, hlonger, le_rfl⟩
  exact ⟨s₃, _, _, (hgoes₁.trans hgoes₂).trans hgoes₃, rfl, h₃⟩

/-- One command after the other. -/
theorem Led.deliver_all (h : s.Led i now term log log log.length log.length) (hsize : n < 2 ^ 24)
    (values : List T) :
    ∃ s' now' log', s.Goes s' ∧ log' = log ++ values.map (⟨·, term⟩) ∧
      s'.Led i now' term log' log' log'.length log'.length := by
  induction values generalizing s now log with
  | nil => exact ⟨s, now, log, .refl _ _ s, by simp, h⟩
  | cons value values ih =>
    obtain ⟨s₁, now₁, log₁, hgoes₁, rfl, h₁⟩ := h.deliver hsize value
    obtain ⟨s₂, now₂, log₂, hgoes₂, rfl, h₂⟩ := ih h₁
    exact ⟨s₂, now₂, _, hgoes₁.trans hgoes₂, by simp, h₂⟩

/-- **A started cluster elects any of its nodes** in a turn of the node's loop. -/
theorem elected (hpeers : 1 < n) (hsize : n < 2 ^ 24) (hinit : (tickSystem C T).Init s)
    (i : Fin n) : ∃ s' now, s.Goes s' ∧ s'.Led i now 1 [] [] 0 0 := by
  obtain ⟨boot, hstart, hloops⟩ := hinit
  -- late enough for every clock and every timeout
  obtain ⟨now, hnow⟩ : ∃ now, ∀ j, (boot j).now + 300 < now :=
    ⟨Finset.univ.sup (fun j => (boot j).now) + 301, fun j => by
      have hle := Finset.le_sup (f := fun j => (boot j).now) (Finset.mem_univ j)
      omega⟩
  have hnode : ∀ j, s.cluster.nodes j = Node.start (C.conf j) (boot j) := fun j => by
    rw [hstart]
    rfl
  have hwake : (s.loops i).wake ≤ now := by
    have := (hloops i).2.2
    have := hnow i
    omega
  have hclock : (boot i).now ≤ now := by have := hnow i; omega
  have htime : (boot i).now + (boot i).electionTime < now :=
    (Nat.add_le_add_left (boot i).election_range.2 _).trans_lt (hnow i)
  obtain ⟨s₁, timeout, hgoes₁, hmoved₁, hstage₁⟩ := goes_follower (hloops i).1 hwake
    (by rw [hnode]; rfl) (by rw [hnode]; exact hclock) (by rw [hnode]; exact le_rfl)
    (by simp [hnode, Node.start, State.new, VolatileState.initState])
  rw [hnode] at hmoved₁
  have hbecoming : (s₁.cluster.nodes i).step (C.conf i) (.atTime now) .transitionCandidate
      = some ({ s₁.cluster.nodes i with clock := now, tick := .becoming }, .quiet) := by
    simp [hmoved₁.acting, Node.step, Node.whenIdle, Node.transitionCandidate, Node.start,
      Tick.isIdle, State.new, VolatileState.initState, htime]
  obtain ⟨s₂, hgoes₂, hmoved₂, hloop₂⟩ := goes_later rfl hstage₁ (by decide)
    (.of_quiet rfl rfl rfl rfl) rfl hbecoming
  rw [hmoved₁.acting] at hmoved₂
  have hothers : ∀ j, j ≠ i → s₂.cluster.nodes j = Node.start (C.conf j) (boot j) :=
    fun j hij => by rw [hmoved₂.others j hij, hmoved₁.others j hij, hnode]
  obtain ⟨c₃, hgoes₃, hled⟩ := Cluster.elected hpeers hsize hnow hmoved₂.acting hothers
  obtain ⟨loops, hgoes₃', hcarried⟩ := carry hgoes₃
  obtain ⟨env, hnext⟩ := (hcarried i).returned (by rw [hmoved₂.acting]; rfl)
    (by rw [hled.tick]; rfl)
  have hstage₃ : ((⟨c₃, loops⟩ : TickCluster C T).loops i).stage = .clear := by
    have hloop : s₂.loops i = s₁.loops i := by
      rw [hloop₂]
      rfl
    change (loops i).stage = .clear
    rw [hnext, hloop, Loop.next, hstage₁]
  obtain ⟨s₄, hgoes₄, hmoved₄, hloop₄⟩ := goes_clear hstage₃ hled.tick hled.clock
  refine ⟨s₄, now, ((hgoes₁.trans hgoes₂).trans hgoes₃').trans hgoes₄, hled.moved hmoved₄, ?_, ?_⟩
  · rw [hloop₄]
  · rw [hloop₄]

end TickCluster

/-- **The cluster can do its work.**  In a cluster of two nodes or more, however it has been
started, any node can be elected and any commands delivered on all nodes, in a run in which
every tick task keeps to its loop, and whose steps all meet `ExtendOk`. -/
theorem deliverable {n : Nat} {C : ClusterConfig n} (hpeers : 1 < n) (hsize : n < 2 ^ 24)
    {s₀ : TickCluster C T} (hinit : (tickSystem C T).Init s₀) (i : Fin n) (values : List T) :
    ∃ s, (tickSystem C T).Steps (TickCluster.OnCluster ExtendOk) s₀ s ∧
      (s.cluster.nodes i).state.nodeType = .leader ∧
      ∀ j, (s.cluster.nodes j).delivered.map (fun p => p.2.value) = values := by
  obtain ⟨s₁, now₁, hgoes₁, hled₁⟩ := TickCluster.elected hpeers hsize hinit i
  obtain ⟨s₂, now₂, log, hgoes₂, hlog, hled₂⟩ := hled₁.deliver_all hsize values
  have hvalues : (entriesBetween log 0 log.length).map (fun p => p.2.value) = values := by
    have hsnd : (entriesBetween log 0 log.length).map Prod.snd = (log.take log.length).drop 0 :=
      map_snd_entriesBetween le_rfl
    rw [show (fun p : Nat × LogEntry T => p.2.value) = LogEntry.value ∘ Prod.snd from rfl,
      ← List.map_map, hsnd, List.take_length, List.drop_zero, hlog]
    simp [Function.comp_def]
  refine ⟨s₂, hgoes₁.trans hgoes₂, hled₂.led.role, fun j => ?_⟩
  by_cases hij : j = i
  · rw [hij, hled₂.led.delivered_eq]
    exact hvalues
  · rw [(hled₂.led.followers j hij).delivered_eq]
    exact hvalues

/-- The last of three nodes leads and delivers three commands everywhere. -/
theorem deliverable_trio : ∃ s : TickCluster trio Nat,
    (s.cluster.nodes 2).state.nodeType = .leader ∧
      ∀ j, (s.cluster.nodes j).delivered.map (fun p => p.2.value) = [7, 8, 9] := by
  have hinit : (tickSystem trio Nat).Init ⟨.start₀ trio Nat, fun _ => ⟨.persist, 5⟩⟩ :=
    ⟨_, rfl, fun _ => ⟨rfl, le_rfl, Nat.le_add_left 5 5⟩⟩
  obtain ⟨s, _, hs⟩ := deliverable (by decide) (by decide) hinit 2 [7, 8, 9]
  exact ⟨s, hs⟩

end Quaso
