import Quaso.Safety.Replication

/-!
# State machine safety

Where logs only grow, an entry that a majority has at a position stays there, and
no other entry can get a majority at that position: it is chosen, in the sense of
`Quaso.Lib.Majority`.  `Cluster.AgreementSound` says that whatever is committed,
announced as committed, or delivered has been chosen, so no two nodes deliver
different entries at one position.
-/

namespace Quaso
namespace Cluster

variable {n : Nat} {C : ClusterConfig n} {T : Type} {s s' : Cluster C T} {l : Label n T}
  {action : Action T} {effect : Effect T} {w : Writers n T} {b : Ballots n T}

/-- The logs of the nodes. -/
def logs (s : Cluster C T) : Fin n → List (LogEntry T) := fun i => (s.nodes i).state.log

/-- What is committed or delivered has been chosen. -/
structure AgreementSound (s : Cluster C T) (w : Writers n T) : Prop where
  committed : ∀ i k, k < (s.nodes i).state.commitedIndex →
    ∃ e, (s.nodes i).state.log[k]? = some e ∧ Chosen s.logs k e
  /-- What the sender of a request has committed. -/
  announced : ∀ cid i dst req, s.Carries cid i dst (.appendEntries req) →
    ∃ base, TermLog.Consistent LogEntry.term w.logs base ∧ req.CutFrom base ∧
      ∀ k e, k < req.leaderCommit → base[k]? = some e → Chosen s.logs k e
  delivered : ∀ i k e, (k, e) ∈ (s.nodes i).delivered → Chosen s.logs k e

namespace AgreementSound

theorem start (C : ClusterConfig n) (T : Type) (boot : Fin n → Env) :
    AgreementSound (Cluster.start C T boot) fun _ => none where
  committed := by
    intro i k hk
    cases hk
  announced := by
    rintro cid i dst req ⟨c, hget, _⟩
    cases hget
  delivered := by
    intro i k e h
    cases h

section Step

variable (h : s.ExtendStep s' l action effect w) (ha : AgreementSound s w)

include h in
theorem chosen_mono {k : Nat} {e : LogEntry T} (hchosen : Chosen s.logs k e) :
    Chosen s'.logs k e :=
  hchosen.mono h.log_isPrefix

include h in
/-- The entries below a commit point are chosen. -/
theorem chosen_of_commit (hr : ReplicationSound s w b) {order : List (Nat × Nat)}
    {index freq k : Nat} {e : LogEntry T}
    (hrole : (s.nodes l.node).state.nodeType = .leader)
    (horder : order.Perm (Raft.frequencyPairs (s.nodes l.node).state))
    (hcand : Raft.commitCandidate (getQuorumLength (C.conf l.node)) order = some (index, freq))
    (hk : k < index) (he : (s.nodes l.node).state.log[k]? = some e) : Chosen s.logs k e := by
  refine (hr.majority h.quorum hrole horder hcand).mono fun j hholds => ?_
  refine getElem?_of_isPrefix hholds.log ?_
  rw [List.getElem?_take_of_lt hk, he]

include h ha

theorem committed_keep (i : Fin n) (k : Nat) (hk : k < (s.nodes i).state.commitedIndex) :
    ∃ e, (s'.nodes i).state.log[k]? = some e ∧ Chosen s'.logs k e := by
  obtain ⟨e, he, hchosen⟩ := ha.committed i k hk
  exact ⟨e, getElem?_of_isPrefix (h.log_isPrefix i) he, chosen_mono h hchosen⟩

/-- An accepted request leaves the log it was cut from, in which everything below the
sender's commit index is chosen. -/
theorem chosen_of_accept {cid : Nat} {req : AppendEntriesRequest T}
    (hlistener : (s.nodes l.node).listener = .handling cid (.appendEntries req))
    (hhandled : (s.nodes l.node).handled action = some (.appendEntries req))
    (haccept : Server.accepts (s.nodes l.node).state req = true)
    (hlog : (s'.nodes l.node).state.log = Server.spliceEntries (s.nodes l.node).state.log
      req.prevLogIndex req.entries) {k : Nat} {e : LogEntry T} (hk : k < req.leaderCommit)
    (he : (s'.nodes l.node).state.log[k]? = some e) : Chosen s'.logs k e := by
  obtain ⟨i, hcarries⟩ := h.lead.network.handling _ cid _ hlistener
  obtain ⟨base, hbase, hcut, hchosen⟩ := ha.announced cid i _ req hcarries
  rw [hlog, h.ledger.splice_eq hbase hcut haccept (h.accepts_at_end hhandled haccept)] at he
  exact chosen_mono h (hchosen k e hk he)

theorem step_committed (hr : ReplicationSound s w b) (i : Fin n) (k : Nat)
    (hk : k < (s'.nodes i).state.commitedIndex) :
    ∃ e, (s'.nodes i).state.log[k]? = some e ∧ Chosen s'.logs k e := by
  by_cases hi : i = l.node
  · subst hi
    cases h.moves.acting.logMove with
    | keep hlog hcommit => exact committed_keep h ha _ k (hcommit ▸ hk)
    | append value hrole hstate =>
      rw [hstate] at hk
      exact committed_keep h ha _ k hk
    | commit order haction horder hstate =>
      rcases (Raft.maybeCommitLogEntries_cases (C.conf l.node) order (s.nodes l.node).state).1 with
        hsame | ⟨index, freq, hcand, hrole, hlt, hle, hnew⟩
      · rw [hstate, hsame] at hk
        exact committed_keep h ha _ k hk
      · rw [hstate, hnew] at hk ⊢
        have he := List.getElem?_eq_getElem (Nat.lt_of_lt_of_le hk hle)
        exact ⟨_, he, chosen_mono h (chosen_of_commit h hr hrole horder hcand hk he)⟩
    | accept cid req commit sent hlock hlistener hhandled haccept hstate hcommit =>
      have hlog : (s'.nodes l.node).state.log = Server.spliceEntries (s.nodes l.node).state.log
          req.prevLogIndex req.entries := by
        rw [hstate]
        simp
      have hindex : (s'.nodes l.node).state.commitedIndex = commit := by rw [hstate]
      rw [hindex] at hk
      rcases hcommit with rfl | ⟨_, rfl, hle⟩
      · exact committed_keep h ha _ k hk
      · have he := List.getElem?_eq_getElem (Nat.lt_of_lt_of_le hk hle)
        exact ⟨_, he, chosen_of_accept h ha hlistener hhandled haccept hlog hk he⟩
  · have hother := h.moves.others i hi
    rw [hother] at hk
    exact committed_keep h ha i k hk

theorem step_announced (cid : Nat) (i : Fin n) (dst : Addr) (req : AppendEntriesRequest T)
    (hcarries : s'.Carries cid i dst (.appendEntries req)) :
    ∃ base, TermLog.Consistent LogEntry.term (w.record s' l.node).logs base ∧ req.CutFrom base ∧
      ∀ k e, k < req.leaderCommit → base[k]? = some e → Chosen s'.logs k e := by
  rcases h.moves.carries_cases hcarries with hold | ⟨rfl, rfl⟩
  · obtain ⟨base, hbase, hcut, hchosen⟩ := ha.announced cid i dst req hold
    exact ⟨base, hbase.of_extends h.grows.extends, hcut,
      fun k e hk he => chosen_mono h (hchosen k e hk he)⟩
  · obtain ⟨_, ⟨q, conns, _, _, hreq⟩ | ⟨q, conns, _, hbuilt, hreq⟩⟩ := h.moves.acting.send_cases
    · cases hreq
    · cases hreq
      obtain ⟨_, _, hcommit, base, hbase, hcut⟩ := Raft.heartbeatRequest_eq_some hbuilt
      have hpre : base <+: (s.nodes l.node).state.log := by
        rcases hbase with rfl | ⟨rfl, _⟩
        · exact List.prefix_rfl
        · exact List.nil_prefix
      refine ⟨base, ((h.ledger.log _).of_isPrefix hpre).of_extends h.grows.extends, hcut,
        fun k e hk he => ?_⟩
      obtain ⟨e', he', hchosen⟩ := ha.committed l.node k (hcommit ▸ hk)
      rw [getElem?_of_isPrefix hpre he] at he'
      obtain rfl := Option.some.inj he'
      exact chosen_mono h hchosen

theorem step_delivered (hr : ReplicationSound s w b) (i : Fin n) (k : Nat) (e : LogEntry T)
    (hmem : (k, e) ∈ (s'.nodes i).delivered) : Chosen s'.logs k e := by
  by_cases hi : i = l.node
  · subst hi
    cases h.moves.acting.logMove with
    | keep hlog hcommit hdelivered =>
      exact chosen_mono h (ha.delivered _ k e (hdelivered ▸ hmem))
    | append value hrole hstate hdelivered =>
      exact chosen_mono h (ha.delivered _ k e (hdelivered ▸ hmem))
    | commit order haction horder hstate hdelivered =>
      rw [hdelivered] at hmem
      rcases List.mem_append.1 hmem with hold | hsent
      · exact chosen_mono h (ha.delivered _ k e hold)
      · obtain ⟨hrole, index, freq, hcand, hk, he⟩ :=
          (Raft.maybeCommitLogEntries_cases (C.conf l.node) order _).2 _ hsent
        exact chosen_mono h (chosen_of_commit h hr hrole horder hcand hk he)
    | accept cid req commit sent hlock hlistener hhandled haccept hstate hcommit hdelivered hsent =>
      rw [hdelivered] at hmem
      rcases List.mem_append.1 hmem with hold | hnew
      · exact chosen_mono h (ha.delivered _ k e hold)
      · obtain ⟨_, hk, he⟩ := hsent _ hnew
        exact chosen_of_accept h ha hlistener hhandled haccept (by rw [hstate]; simp) hk he
  · have hother := h.moves.others i hi
    rw [hother] at hmem
    exact chosen_mono h (ha.delivered i k e hmem)

/-- **Every step of `ExtendOk` delivers what has been chosen.** -/
theorem step (hr : ReplicationSound s w b) : AgreementSound s' (w.record s' l.node) where
  committed := step_committed h ha hr
  announced := step_announced h ha
  delivered := step_delivered h ha hr

end Step

theorem of_reachable (hquorum : ∀ i, n < 2 * getQuorumLength (C.conf i))
    (h : (clusterSystem C T).Reachable (Lift ExtendOk) s) :
    ∃ w b, Recorded s w b ∧ AgreementSound s w := by
  refine h.invariant (I := fun s => ∃ w b, Recorded s w b ∧ AgreementSound s w) ?_ ?_
  · rintro s ⟨boot, rfl⟩
    exact ⟨_, _, .start C T boot, start C T boot⟩
  · rintro s l s' hreach ⟨w, b, hrec, ha⟩ hok hl
    obtain ⟨action, effect, hstep, hrec'⟩ := hrec.step hquorum hreach hok hl
    exact ⟨_, _, hrec', step hstep ha hrec.replication⟩

end AgreementSound
end Cluster

variable {n : Nat} {C : ClusterConfig n} {T : Type} {s : Cluster C T}

/-- **State machine safety.**  In a run whose steps all meet `ExtendOk`, with quorums
that are majorities, no two nodes deliver different entries for one index. -/
theorem state_machine_safety (hquorum : ∀ i, n < 2 * getQuorumLength (C.conf i))
    (h : (clusterSystem C T).Reachable (Lift ExtendOk) s) {i j : Fin n} {k : Nat}
    {e e' : LogEntry T} (hi : (k, e) ∈ (s.nodes i).delivered)
    (hj : (k, e') ∈ (s.nodes j).delivered) : e = e' := by
  obtain ⟨w, b, _, ha⟩ := Cluster.AgreementSound.of_reachable hquorum h
  exact (ha.delivered i k e hi).unique (ha.delivered j k e' hj)

/-- The leader tells the follower that it has committed its first entry. -/
def commitFirst : List (Label 2 Nat) :=
  replicateFirst ++ [.atTime 220 0 (.act .sendHeartbeat)] ++ exchange 220 2 0 1

theorem state_machine_safety_commitFirst : ∃ s : Cluster duo Nat,
    (0, ⟨7, 1⟩) ∈ (s.nodes 0).delivered ∧
      ∀ e, (0, e) ∈ (s.nodes 1).delivered → (⟨7, 1⟩ : LogEntry Nat) = e := by
  obtain ⟨s, hs, hmem, _⟩ := System.exec_any (clusterSystem duo Nat) (Lift ExtendOk)
    (.start₀ duo Nat) commitFirst
    (P := fun s => (0, ⟨7, 1⟩) ∈ (s.nodes 0).delivered ∧ (0, ⟨7, 1⟩) ∈ (s.nodes 1).delivered)
    (by decide +kernel)
  exact ⟨s, hmem, fun e he => state_machine_safety (duo.lt_two_mul_getQuorumLength (by decide))
    ⟨_, Cluster.init_start₀ duo Nat, hs⟩ hmem he⟩

/-- After an entry was appended twice, the leader replicates and commits a third one,
and a fourth heartbeat tells the follower to deliver as many. -/
def commitResent : List (Label 2 Nat) :=
  resend ++ [.atTime 240 0 (.act .sendHeartbeat)] ++ exchange 240 4 0 1 ++
  commitAfter 240 5 0 [(3, 2)] ++
  [.atTime 242 0 (.act (.appendEntry 10)), .atTime 250 0 (.act .sendHeartbeat)] ++
  exchange 250 5 0 1

/-- At index 2 the leader delivers 9 and the follower 8. -/
theorem state_machines_not_safe : ¬ ∀ s : Cluster duo Nat,
    (clusterSystem duo Nat).Reachable System.Always s → ∀ i j k e e',
      (k, e) ∈ (s.nodes i).delivered → (k, e') ∈ (s.nodes j).delivered → e = e' := by
  intro hall
  obtain ⟨s, hs, hi, hj⟩ := System.exec_any (clusterSystem duo Nat)
    System.Always (.start₀ duo Nat) commitResent
    (P := fun s => (2, ⟨9, 1⟩) ∈ (s.nodes 0).delivered ∧ (2, ⟨8, 1⟩) ∈ (s.nodes 1).delivered)
    (by decide +kernel)
  exact absurd (hall s ⟨_, Cluster.init_start₀ duo Nat, hs⟩ 0 1 2 _ _ hi hj) (by decide)

end Quaso
