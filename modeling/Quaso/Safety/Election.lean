import Quaso.Lib.Majority
import Quaso.Safety.Network
import Quaso.Safety.Phases
import Quaso.Safety.Vote

/-!
# Elections

* `Cluster.Elected` — a quorum has voted for a node in a term.  Votes stay cast,
  so once elected is elected for ever.
* `Cluster.Tallied` — what the votes counted so far stand for: distinct nodes
  that have voted, none of which is asked again.
* `Cluster.ElectionSound` — the invariant.  It needs only that no handler changes
  the term or the log after the count of the votes.
* `leader_legitimate`, `election_safety` — a node that becomes leader was elected
  in its term with the log it has, and two leaders of one term are one node.
-/

namespace Quaso

variable {n : Nat} {C : ClusterConfig n} {T : Type} {s s' : Cluster C T} {l : Label n T}
  {action : Action T} {effect : Effect T}

namespace Cluster

/-- Node `j` has voted for node `i` in term `t`. -/
def Voted (s : Cluster C T) (j i : Fin n) (t : NodeTerm) : Prop :=
  (t, (C.conf i).nodeId) ∈ (s.nodes j).cast

/-- A quorum of nodes, node `i` among them, has voted for `i` in term `t`. -/
def Elected (s : Cluster C T) (i : Fin n) (t : NodeTerm) : Prop :=
  ∃ voters : Finset (Fin n), i ∈ voters ∧ getQuorumLength (C.conf i) ≤ voters.card ∧
    ∀ j ∈ voters, s.Voted j i t

/-- The votes node `i` has counted in term `t`: as many distinct nodes have voted for
it, and none of them is among the peers it has still to ask. -/
def Tally (s : Cluster C T) (i : Fin n) (t : NodeTerm) (remaining : List Addr) : Prop :=
  ∃ voters : Finset (Fin n), i ∈ voters ∧
    (s.nodes i).state.votesRecieved.length = voters.card ∧
    ∀ j ∈ voters, s.Voted j i t ∧ (C.conf j).listenerAddr ∉ remaining

/-- What the counted votes stand for, at each place of the tick task. -/
def Tallied (s : Cluster C T) (i : Fin n) : Tick T → Prop
  | .election req conns => s.Tally i req.term conns
  | .electionWait req conn _ conns => s.Tally i req.term (conn :: conns)
  | .won req _ => s.Elected i req.term
  | _ => True

theorem Moves.voted (hm : s.Moves s' l action effect) {i j : Fin n} {t : NodeTerm}
    (h : s.Voted j i t) : s'.Voted j i t := by
  by_cases hj : j = l.node
  · subst hj
    exact hm.acting.cast_isPrefix.mem h
  · unfold Voted
    rw [hm.others j hj]
    exact h

theorem Moves.elected (hm : s.Moves s' l action effect) {i : Fin n} {t : NodeTerm}
    (h : s.Elected i t) : s'.Elected i t := by
  obtain ⟨voters, hi, hquorum, hvoted⟩ := h
  exact ⟨voters, hi, hquorum, fun j hj => hm.voted (hvoted j hj)⟩

/-- A tally survives a step that counts no vote, and asking fewer peers. -/
theorem Moves.tally (hm : s.Moves s' l action effect) {i : Fin n} {t : NodeTerm}
    {remaining remaining' : List Addr} (h : s.Tally i t remaining)
    (hvotes : (s'.nodes i).state.votesRecieved = (s.nodes i).state.votesRecieved)
    (hsub : ∀ a ∈ remaining', a ∈ remaining) : s'.Tally i t remaining' := by
  obtain ⟨voters, hi, hcard, hvoted⟩ := h
  refine ⟨voters, hi, by rw [hvotes, hcard], fun j hj => ?_⟩
  exact ⟨hm.voted (hvoted j hj).1, fun hmem => (hvoted j hj).2 (hsub _ hmem)⟩

theorem Moves.tallied (hm : s.Moves s' l action effect) {i : Fin n} {tick : Tick T}
    (h : s.Tallied i tick)
    (hvotes : (s'.nodes i).state.votesRecieved = (s.nodes i).state.votesRecieved) :
    s'.Tallied i tick := by
  cases tick with
  | election req conns => exact hm.tally h hvotes fun _ => id
  | electionWait req conn cid conns => exact hm.tally h hvotes fun _ => id
  | won req log => exact hm.elected h
  | _ => trivial

/-- A vote that was answered was cast. -/
def GrantsCast (s : Cluster C T) : Prop :=
  ∀ cid resp, s.Responded cid (.requestVote resp) → resp.voteGranted = true →
    ∃ i j req, s.Carries cid i (C.conf j).listenerAddr (.requestVote req) ∧
      (req.term, req.candidateId) ∈ (s.nodes j).cast

/-- The invariant of the elections. -/
structure ElectionSound (s : Cluster C T) : Prop where
  granted : s.GrantsCast
  tallied : ∀ i, s.Tallied i (s.nodes i).tick
  /-- Leaders are elected. -/
  leader : ∀ i, (s.nodes i).state.nodeType = .leader → s.Elected i (s.nodes i).state.nodeTerm

/-- The tally after one response that is not a denial. -/
theorem Moves.tally_counted {req : ElectionVoteRequest} {conn : Addr} {cid : Nat}
    {conns : List Addr} {resp : ElectionVoteResponse} {votes : List NodeId}
    (hm : s.Moves s' l (.voteAnswer (.reply resp)) effect)
    (hnet : NetworkSound s) (hgranted : s.GrantsCast)
    (htick : (s.nodes l.node).tick = .electionWait req conn cid conns)
    (hcandidate : req.candidateId = (C.conf l.node).nodeId)
    (hsuffix : (conn :: conns) <:+ (C.conf l.node).connections)
    (htally : s.Tally l.node req.term (conn :: conns))
    (hvotes : Raft.CountsTo resp (s.nodes l.node).state.votesRecieved votes)
    (hvotes' : (s'.nodes l.node).state.votesRecieved = votes) :
    s'.Tally l.node req.term conns := by
  rcases hvotes with rfl | ⟨hgrant, rfl⟩
  · exact hm.tally htally hvotes' fun _ => List.mem_cons_of_mem _
  · obtain ⟨voters, hself, hcard, hvoted⟩ := htally
    obtain ⟨d, hwaits, hresponded⟩ := hm.responded_vote
    obtain rfl : cid = d := by simpa [htick, Tick.waitsOn] using hwaits
    obtain ⟨k, j, req', hcarries, hcast⟩ := hgranted cid resp hresponded hgrant
    obtain ⟨rfl, hconn, hreq⟩ := (hnet.electionWait _ _ _ _ _ htick).unique hcarries
    obtain rfl := RequestPattern.requestVote.inj hreq
    have hnodup : (conn :: conns).Nodup := (C.connections_nodup _).sublist hsuffix.sublist
    -- the peer that was just asked is not among those already counted
    have hj : j ∉ voters := fun hj => (hvoted j hj).2 (by simp [hconn])
    refine ⟨insert j voters, Finset.mem_insert_of_mem hself, ?_, fun k hk => ?_⟩
    · rw [hvotes', List.length_append, hcard, Finset.card_insert_of_notMem hj]
      rfl
    · rcases Finset.mem_insert.1 hk with rfl | hk
      · refine ⟨hm.voted ?_, ?_⟩
        · rw [Voted, ← hcandidate]
          exact hcast
        · rw [← hconn]
          exact (List.nodup_cons.1 hnodup).1
      · refine ⟨hm.voted (hvoted k hk).1, fun hmem => (hvoted k hk).2 ?_⟩
        exact List.mem_cons_of_mem _ hmem

namespace ElectionSound

theorem step_granted (hm : s.Moves s' l action effect) (hs : ElectionSound s)
    (hnet : NetworkSound s) : s'.GrantsCast := by
  intro cid resp hresponded hgrant
  rcases hm.response_cases hresponded with hold | rfl
  · obtain ⟨i, j, req, hcarries, hcast⟩ := hs.granted cid resp hold hgrant
    refine ⟨i, j, req, hm.carries hcarries, ?_⟩
    by_cases hj : j = l.node
    · subst hj
      exact hm.acting.cast_isPrefix.mem hcast
    · rw [hm.others j hj]
      exact hcast
  · obtain ⟨req, hlistener, _, _, _, _, hcast⟩ := hm.acting.granted hgrant
    obtain ⟨i, hcarries⟩ := hnet.handling _ cid _ hlistener
    exact ⟨i, l.node, req, hm.carries hcarries, hcast⟩

/-- The acting node's votes are tallied after its step. -/
theorem step_tallied (hm : s.Moves s' l action effect) (hs : ElectionSound s)
    (hnet : NetworkSound s) (hphase : (s.nodes l.node).PhaseSound (C.conf l.node)) :
    s'.Tallied l.node (s'.nodes l.node).tick := by
  have hstep := hm.acting
  have hold := hs.tallied l.node
  generalize hn' : s'.nodes l.node = n' at hstep
  cases hstep with
  | skip | persist | clearFlag | accept | abortListener | handlePing | handleRefuse
  | handleReject =>
    exact hm.tallied hold (by rw [hn'])
  | appendEntry | handleGrant | handleAppend =>
    exact hm.tallied hold (by rw [hn']; simp)
  | tickDies | heartbeatStart | heartbeatSend | heartbeatReply | heartbeatNone | heartbeatEnd
  | becoming | becomeCandidate | electionEnd | electionTimeout | electionDenied | timedOut
  | settle | takeLead =>
    trivial
  | commit order tick htick htick' => rcases htick' with rfl | rfl <;> trivial
  | electionStart cid htick =>
    refine ⟨{l.node}, Finset.mem_singleton_self _, by rw [hn']; rfl, fun j hj => ?_⟩
    obtain rfl := Finset.mem_singleton.1 hj
    refine ⟨?_, C.own_addr_notMem _⟩
    rw [Voted, hn']
    simp
  | electionSend cid req conn conns htick =>
    rw [htick] at hold
    exact hm.tally hold (by rw [hn']) fun _ => id
  | electionSkip req conn cid conns answer hanswer htick =>
    rw [htick] at hold
    exact hm.tally hold (by rw [hn']) fun _ => List.mem_cons_of_mem _
  | electionNext req conn cid conns resp state htick hcount =>
    obtain ⟨votes, hvotes, rfl⟩ := Raft.countVote_eq_next hcount
    rw [htick] at hold
    obtain ⟨_, hsuffix, hreq⟩ := hphase.at_tick htick
    exact hm.tally_counted hnet hs.granted htick (by rw [hreq]; simp) hsuffix hold hvotes
      (by rw [hn'])
  | electionWon req conn cid conns resp state htick hcount =>
    obtain ⟨votes, hvotes, hquorum, rfl⟩ := Raft.countVote_eq_won hcount
    rw [htick] at hold
    obtain ⟨_, hsuffix, hreq⟩ := hphase.at_tick htick
    have hvotes' : (s'.nodes l.node).state.votesRecieved = votes := by rw [hn']; rfl
    obtain ⟨voters, hself, hcard, hvoted⟩ := hm.tally_counted hnet hs.granted htick
      (by rw [hreq]; simp) hsuffix hold hvotes hvotes'
    refine ⟨voters, hself, ?_, fun j hj => (hvoted j hj).1⟩
    rwa [← hcard, hvotes']

/-- **The invariant of the elections is kept by every step**, where the phases are
sound. -/
theorem step (hm : s.Moves s' l action effect) (hs : ElectionSound s) (hnet : NetworkSound s)
    (hphase : (s.nodes l.node).PhaseSound (C.conf l.node)) : ElectionSound s' where
  granted := hs.step_granted hm hnet
  tallied := by
    intro i
    by_cases hi : i = l.node
    · subst hi
      exact hs.step_tallied hm hnet hphase
    · have htallied := hs.tallied i
      rw [hm.others i hi]
      exact hm.tallied htallied (by rw [hm.others i hi])
  leader := by
    intro i hrole
    by_cases hi : i = l.node
    · subst hi
      rcases hm.acting.leader_cases hrole with ⟨hrole₀, hterm⟩ | ⟨req, log, htick, _, hstate⟩
      · rw [hterm]
        exact hm.elected (hs.leader _ hrole₀)
      · have helected := hs.tallied l.node
        rw [htick] at helected
        have hterm : req.term = (s.nodes l.node).state.nodeTerm := by
          rw [(hphase.at_tick htick).2.1, Raft.voteRequest_term]
        rw [hstate]
        simpa only [← hterm] using hm.elected helected
    · rw [hm.others i hi] at hrole ⊢
      exact hm.elected (hs.leader i hrole)

theorem of_reachable {ok : Node T → Action T → Prop}
    (hok : ∀ n action, ok n action → GapOk n action)
    (h : (clusterSystem C T).Reachable (Lift ok) s) : ElectionSound s := by
  refine h.invariant ?_ ?_
  · rintro s ⟨boot, rfl⟩
    refine ⟨?_, fun i => trivial, fun i hrole => by cases hrole⟩
    rintro cid resp ⟨c, hget, _⟩
    cases hget
  · intro s l s' hreach hs _ hl
    obtain ⟨action, effect, hm⟩ := step_cases hl
    exact hs.step hm (.of_reachable hreach) (.of_reachable hok hreach _)

end ElectionSound

/-- Once elected is elected at every later moment. -/
theorem Elected.steps {ok : Cluster C T → Label n T → Prop} {i : Fin n} {t : NodeTerm}
    (h : s.Elected i t) (hsteps : (clusterSystem C T).Steps ok s s') : s'.Elected i t :=
  hsteps.invariant (I := fun s => s.Elected i t)
    (fun _ _ _ h _ hl =>
      let ⟨_, _, hm⟩ := step_cases hl
      hm.elected h) h

/-- Who is elected has the votes of a majority, if quorums are majorities. -/
theorem Elected.majority (hquorum : ∀ i, n < 2 * getQuorumLength (C.conf i)) {i : Fin n}
    {t : NodeTerm} (h : s.Elected i t) : Majority fun j => s.Voted j i t := by
  obtain ⟨voters, _, hcard, hvoted⟩ := h
  refine ⟨voters, ?_, hvoted⟩
  have := hquorum i
  rw [Fintype.card_fin]
  omega

/-- **A term elects one node**, if quorums are majorities and nodes vote once. -/
theorem Elected.unique (hquorum : ∀ i, n < 2 * getQuorumLength (C.conf i))
    (hvotes : ∀ i, VotesSound (s.nodes i)) {i j : Fin n} {t : NodeTerm} (hi : s.Elected i t)
    (hj : s.Elected j t) : i = j := by
  obtain ⟨k, hki, hkj⟩ := (hi.majority hquorum).meet (hj.majority hquorum)
  exact C.nodeId_injective ((hvotes k).unique t _ _ hki hkj)

/-- What the runs of `LeadOk` keep sound. -/
structure LeadSound (s : Cluster C T) : Prop where
  network : NetworkSound s
  election : ElectionSound s
  votes : ∀ i, VotesSound (s.nodes i)
  phase : ∀ i, (s.nodes i).PhaseSound (C.conf i)

theorem LeadSound.of_reachable {ok : Node T → Action T → Prop}
    (hok : ∀ n action, ok n action → LeadOk n action)
    (h : (clusterSystem C T).Reachable (Lift ok) s) : LeadSound s where
  network := .of_reachable h
  election := .of_reachable (fun n action hn => (hok n action hn).2) h
  votes := VotesSound.of_cluster (fun n action hn => (hok n action hn).1) h
  phase := Node.PhaseSound.of_reachable (fun n action hn => (hok n action hn).2) h

/-- A node that has counted enough votes is elected in its present term. -/
theorem LeadSound.won (h : LeadSound s) {i : Fin n} {req : ElectionVoteRequest}
    {log : List (LogEntry T)} (htick : (s.nodes i).tick = .won req log) :
    (s.nodes i).tick.campaign = some (s.nodes i).state.nodeTerm ∧
      s.Elected i (s.nodes i).state.nodeTerm := by
  have helected := h.election.tallied i
  have hterm : req.term = (s.nodes i).state.nodeTerm := by
    rw [((h.phase i).at_tick htick).2.1, Raft.voteRequest_term]
  rw [htick] at helected ⊢
  rw [← hterm]
  exact ⟨rfl, helected⟩

/-- A node that leads is the one elected in its term. -/
theorem LeadSound.eq_leader (h : LeadSound s) (hquorum : ∀ i, n < 2 * getQuorumLength (C.conf i))
    {i j : Fin n} (hi : s.Elected i (s.nodes j).state.nodeTerm)
    (hj : (s.nodes j).state.nodeType = .leader) : i = j :=
  hi.unique hquorum h.votes (h.election.leader j hj)

end Cluster

/-! ## The role of the leader -/

/-- **Legitimate leadership.**  In a run in which no handler changes the term or the log
between a count of votes and the leader role, a node that becomes leader has the
votes of a quorum for the term it leads, its own among them, and the log whose
length all its next indices were initialised from. -/
theorem leader_legitimate (hreach : (clusterSystem C T).Reachable (Lift GapOk) s)
    (hstep : (clusterSystem C T).step s l = some s') {i : Fin n}
    (hbefore : (s.nodes i).state.nodeType ≠ .leader)
    (hafter : (s'.nodes i).state.nodeType = .leader) :
    s'.Elected i (s'.nodes i).state.nodeTerm ∧
      (∃ req, (s.nodes i).tick = .won req (s'.nodes i).state.log) ∧
      ∀ conn ∈ (C.conf i).connections, (s'.nodes i).state.nextIndex.lookup conn
        = some ((s'.nodes i).state.log.length + 1) := by
  obtain ⟨action, effect, hm⟩ := Cluster.step_cases hstep
  have hphase := Node.PhaseSound.of_reachable (fun _ _ => id) hreach i
  have hsound := (Cluster.ElectionSound.of_reachable (fun _ _ => id) hreach).step hm
    (.of_reachable hreach) (Node.PhaseSound.of_reachable (fun _ _ => id) hreach _)
  refine ⟨hsound.leader i hafter, ?_⟩
  by_cases hi : i = l.node
  · subst hi
    rcases hm.acting.leader_cases hafter with ⟨hrole, _⟩ | ⟨req, log, htick, _, hstate⟩
    · exact absurd hrole hbefore
    · obtain ⟨_, _, hlog, hnext, _⟩ := hphase.at_tick htick
      rw [hstate]
      refine ⟨⟨req, by rw [htick, hlog]⟩, fun conn hconn => ?_⟩
      rw [hnext, IndexMap.lookup_insertAll, if_pos hconn, hlog]
  · rw [hm.others i hi] at hafter
    exact absurd hafter hbefore

theorem leader_legitimate_elect : ∃ s : Cluster duo Nat,
    (s.nodes 0).state.nodeTerm = 1 ∧ s.Elected 0 1 := by
  obtain ⟨s, hs, hbefore, hrest⟩ := System.exec_any (clusterSystem duo Nat) (Lift GapOk)
    (.start₀ duo Nat) ((elect 200 0 0 1).take 7)
    (P := fun s => (s.nodes 0).state.nodeType ≠ .leader ∧
      ((clusterSystem duo Nat).step s (.atTime 200 0 (.act (.advance 1)))).any (fun s' =>
        decide ((s'.nodes 0).state.nodeType = .leader ∧ (s'.nodes 0).state.nodeTerm = 1)) = true)
    (by decide +kernel)
  obtain ⟨s', hstep, hafter⟩ := (Option.any_eq_true _ _).1 hrest
  obtain ⟨hrole, hterm⟩ := of_decide_eq_true hafter
  have hlegitimate := leader_legitimate ⟨_, Cluster.init_start₀ duo Nat, hs⟩ hstep hbefore hrole
  exact ⟨s', hterm, hterm ▸ hlegitimate.1⟩

/-- Node 1 leads term 1 and leaves a heartbeat of that term on connection 2; then node
0 collects the votes of term 2 and handles the heartbeat before it takes the role. -/
def heartbeatInGap : List (Label 2 Nat) :=
  elect 200 0 1 0 ++
  [.atTime 200 1 (.act (.appendEntry 7)), .atTime 210 1 (.act .sendHeartbeat)] ++
  exchange 210 1 1 0 ++ commitAfter 210 2 1 [(1, 2)] ++
  [.atTime 220 1 (.act .sendHeartbeat)] ++ unanswered 220 2 1 ++
  commitAfter 220 3 1 [(1, 2)] ++ [.atTime 390 0 (.act .clearFlag)] ++
  campaign 400 3 0 ++ exchange 400 3 0 1 ++
  [.atTime 400 0 (.deliver 2), .atTime 400 0 (.act (.handle true))]

/-- The node leads term 1, for which it has not even its own vote. -/
theorem leader_not_legitimate : ¬ ∀ (s s' : Cluster duo Nat) (l : Label 2 Nat),
    (clusterSystem duo Nat).Reachable System.Always s →
      (clusterSystem duo Nat).step s l = some s' → ∀ i, (s.nodes i).state.nodeType ≠ .leader →
        (s'.nodes i).state.nodeType = .leader → s'.Elected i (s'.nodes i).state.nodeTerm := by
  intro hall
  obtain ⟨s, hs, hbefore, hrest⟩ := System.exec_any (clusterSystem duo Nat)
    System.Always (.start₀ duo Nat) heartbeatInGap
    (P := fun s => (s.nodes 0).state.nodeType ≠ .leader ∧
      ((clusterSystem duo Nat).step s (.atTime 400 0 (.act (.advance 4)))).any (fun s' =>
        decide ((s'.nodes 0).state.nodeType = .leader ∧ (s'.nodes 0).state.nodeTerm = 1 ∧
          (1, 1) ∉ (s'.nodes 0).cast)) = true) (by decide +kernel)
  obtain ⟨s', hstep, hafter⟩ := (Option.any_eq_true _ _).1 hrest
  obtain ⟨hrole, hterm, hcast⟩ := of_decide_eq_true hafter
  obtain ⟨voters, hself, _, hvoted⟩ :=
    hall s s' _ ⟨_, Cluster.init_start₀ duo Nat, hs⟩ hstep 0 hbefore hrole
  rw [hterm] at hvoted
  exact hcast (hvoted 0 hself)

/-- **Election safety.**  In a run whose steps all meet `LeadOk`, with quorums that are
majorities, two leaders of one term are one node, at whatever moments they lead. -/
theorem election_safety (hquorum : ∀ i, n < 2 * getQuorumLength (C.conf i))
    (hreach : (clusterSystem C T).Reachable (Lift LeadOk) s)
    (h : (clusterSystem C T).Steps (Lift LeadOk) s s') {i j : Fin n}
    (hi : (s.nodes i).state.nodeType = .leader) (hj : (s'.nodes j).state.nodeType = .leader)
    (hterm : (s.nodes i).state.nodeTerm = (s'.nodes j).state.nodeTerm) : i = j := by
  have hreach' := hreach.steps h
  have helected := (Cluster.ElectionSound.of_reachable (fun _ _ hok => hok.2) hreach).leader i hi
  have helected' := (Cluster.ElectionSound.of_reachable (fun _ _ hok => hok.2) hreach').leader j hj
  rw [← hterm] at helected'
  exact Cluster.Elected.unique hquorum (VotesSound.of_cluster (fun _ _ hok => hok.1) hreach')
    (helected.steps h) helected'

/-- Node 0 leads term 1 when node 2 becomes a candidate of that term. -/
theorem election_safety_elect : ∃ s s' : Cluster trio Nat,
    (s.nodes 0).state.nodeType = .leader ∧
      ∀ j, (s'.nodes j).state.nodeType = .leader → (s'.nodes j).state.nodeTerm = 1 → 0 = j := by
  obtain ⟨s, hs, hrole, hterm, hrest⟩ := System.exec_any (clusterSystem trio Nat)
    (Lift LeadOk) (.start₀ trio Nat) (elect 200 0 0 1)
    (P := fun s => (s.nodes 0).state.nodeType = .leader ∧ (s.nodes 0).state.nodeTerm = 1 ∧
      ((clusterSystem trio Nat).exec (Lift LeadOk) s
        [.atTime 300 2 (.act .transitionCandidate), .atTime 300 2 (.act (.advance 1))]).any
        (fun s' => decide ((s'.nodes 2).state.nodeType = .candidate)) = true) (by decide +kernel)
  obtain ⟨s', hs', _⟩ := System.exec_any _ _ _ _ hrest
  exact ⟨s, s', hrole, fun j hj hterm' => election_safety
    (trio.lt_two_mul_getQuorumLength (by decide)) ⟨_, Cluster.init_start₀ trio Nat, hs⟩ hs' hrole hj
    (hterm.trans hterm'.symm)⟩

/-- Node 0 has become a candidate of term 1 when it grants node 1 its vote of that term;
then it starts its own election and gets the vote of node 2. -/
def twoLeaders : List (Label 3 Nat) :=
  [.atTime 200 0 (.act .transitionCandidate), .atTime 200 0 (.act (.advance 0))] ++
  elect 200 0 1 0 ++
  [.atTime 202 0 (.act (.advance 1)), .atTime 202 0 (.act (.advance 1)),
    .atTime 203 0 (.act (.voteAnswer .none))] ++
  exchange 203 2 0 2 ++ [.atTime 204 0 (.act (.advance 3))]

/-- Nodes 0 and 1 lead term 1 at the same time. -/
theorem election_not_safe : ¬ ∀ s s' : Cluster trio Nat,
    (clusterSystem trio Nat).Reachable System.Always s →
      (clusterSystem trio Nat).Steps System.Always s s' → ∀ i j,
        (s.nodes i).state.nodeType = .leader → (s'.nodes j).state.nodeType = .leader →
          (s.nodes i).state.nodeTerm = (s'.nodes j).state.nodeTerm → i = j := by
  intro hall
  obtain ⟨s, hs, h₀, h₁, hterm⟩ := System.exec_any (clusterSystem trio Nat)
    System.Always (.start₀ trio Nat) twoLeaders
    (P := fun s => (s.nodes 0).state.nodeType = .leader ∧ (s.nodes 1).state.nodeType = .leader ∧
      (s.nodes 0).state.nodeTerm = (s.nodes 1).state.nodeTerm) (by decide +kernel)
  have heq := hall s s ⟨_, Cluster.init_start₀ trio Nat, hs⟩ (.refl _ _ _) 0 1 h₀ h₁ hterm
  exact absurd heq (by decide)

end Quaso
