import Quaso.Safety.Fleet
import Quaso.Safety.Provenance
import Quaso.Safety.Returns

/-!
# What a node delivers when it comes back

A node that is started again has committed nothing, and delivers its log from the first
entry on.  So in each of its lives what a node has delivered is the committed part of its
log, and where crashes lose nothing all lives deliver the same entries in the same order.

* `Fleet.LifeSound` — the invariant, of the running nodes and the requests.
* `lives_deliver_log` — in each life a node delivers what it has committed, in order and
  once, whenever processes die.
* `lives_replay` — of two lives the one has delivered a beginning of what the other has.
-/

namespace Quaso

variable {n : Nat} {C : ClusterConfig n} {T : Type} {codec : DiskCodec T} {s s' : Fleet C T}
  {l : FleetLabel n T}

/-! ## Each life -/

/-- A node that has started again has nothing to send and nothing to commit. -/
theorem Cluster.ReturnSound.restarted (hr : s.cluster.ReturnSound)
    (hconns : s'.conns = s.conns) (hnodes : ∀ j,
      (s.cluster.nodes j).Restarted codec (s.machines j).file (s'.cluster.nodes j)) :
    s'.cluster.ReturnSound where
  indexed := by
    intro j hrole
    cases hnodes j with
    | same hstate =>
      rw [hstate] at hrole ⊢
      exact hr.indexed j hrole
    | back _ _ hfollows =>
      rw [hfollows] at hrole
      cases hrole
  covers := by
    rintro cid i dst req ⟨c, hc⟩
    exact hr.covers cid i dst req ⟨c, (congrArg (·[cid]?) hconns) ▸ hc⟩
  numbered := by
    intro j
    have hold := hr.numbered j
    unfold Numbered at hold ⊢
    cases hnodes j with
    | same hstate _ _ hdelivered =>
      simp only [hstate, hdelivered]
      exact hold
    | back _ _ _ hcommit hdelivered => simp [hcommit, hdelivered]
  sent := by
    intro j
    obtain ⟨hinside, hsent⟩ := hr.sent j
    cases hnodes j with
    | same hstate _ _ hdelivered =>
      refine ⟨?_, ?_⟩
      · simp only [hstate]
        exact hinside
      · simp only [hstate, hdelivered]
        exact hsent
    | back _ _ _ hcommit hdelivered => exact ⟨by simp [hcommit], by simp [hcommit, hdelivered]⟩

namespace Fleet

/-- What makes the running nodes deliver what they commit. -/
structure LifeSound (s : Fleet C T) : Prop where
  phase : ∀ j, (s.cluster.nodes j).PhaseSound (C.conf j)
  returns : s.cluster.ReturnSound

namespace LifeSound

theorem start (C : ClusterConfig n) (T : Type) : LifeSound (Fleet.start C T) where
  phase := fun _ => trivial
  returns := .start C T fun _ => .atTime 0

theorem step (hnet : s.cluster.NetworkSound) (hs : LifeSound s) (hok : NodesOk ReturnOk s l)
    (hl : (fleetSystem codec C).step s l = some s') : LifeSound s' := by
  obtain ⟨_, _, _, _, ⟨env, input, hinput, hcluster⟩ | ⟨hconns, hnodes⟩⟩ := step_cases hl
  · obtain ⟨action, effect, hm⟩ := Cluster.step_cases hcluster
    have hact : ReturnOk (s.cluster.nodes l.machine) action := by
      rcases hinput with hlabel | rfl
      · unfold NodesOk at hok
        rw [hlabel] at hok
        exact hok action hm.resolved
      · -- the end of a save
        cases hm.resolved
        exact (ExtendOk.blind.persist _).returnOk
    refine ⟨fun j => ?_, hs.returns.step hm hs.phase hnet hact hcluster⟩
    by_cases hj : j = l.machine
    · subst hj
      exact (hs.phase _).step hm.acting hact.1
    · rw [hm.others j hj]
      exact hs.phase j
  · refine ⟨fun j => ?_, hs.returns.restarted hconns hnodes⟩
    have hold := hs.phase j
    unfold Node.PhaseSound at hold ⊢
    cases hnodes j with
    | same hstate htick => rwa [hstate, htick]
    | back htick =>
      rw [htick]
      trivial

theorem of_reachable (h : (fleetSystem codec C).Reachable (NodesOk ReturnOk) s) :
    LifeSound s := by
  refine h.invariant (I := LifeSound) ?_ ?_
  · rintro s rfl
    exact start C T
  · exact fun s l s' hreach hs hok hl => hs.step (networkSound hreach) hok hl

end LifeSound
end Fleet

/-- **Each life delivers what it commits.**  In every run in which no accepted request
truncates a log, and no handler touches an election that is counted, a node has delivered
since its start exactly the committed part of its log, in order and once, whenever
processes die and whatever their files are. -/
theorem lives_deliver_log (h : (fleetSystem codec C).Reachable (NodesOk ReturnOk) s) {i : Fin n}
    {m : Node T} (hi : (s.machines i).node = some m) :
    m.state.commitedIndex ≤ m.state.log.length ∧
      m.delivered.map Prod.fst = List.range m.state.commitedIndex ∧
      m.delivered.map Prod.snd = m.state.log.take m.state.commitedIndex := by
  have hr := (Fleet.LifeSound.of_reachable h).returns
  have hsent := hr.sent i
  have hnumbered := hr.numbered i
  rw [Fleet.cluster_node hi] at hsent hnumbered
  exact ⟨hsent.inside, hnumbered, hsent.sent⟩

/-- Node 1 dies without having saved anything, and comes back. -/
def forgetAll : List (FleetLabel 2 Nat) :=
  commitOnFleet ++ [⟨1, .process .crash⟩, bootAt 300 1]

/-- The leader has delivered its entry; the other node knows nothing of it any more. -/
theorem lives_deliver_log_forgetAll : ∃ (s : Fleet duo Nat) (m m' : Node Nat),
    (s.machines 0).node = some m ∧ (s.machines 1).node = some m' ∧
      m.delivered.map Prod.snd = [⟨7, 1⟩] ∧ m.state.log.take m.state.commitedIndex = [⟨7, 1⟩] ∧
      m'.delivered.map Prod.snd = m'.state.log.take m'.state.commitedIndex ∧
      m'.state.log = [] := by
  obtain ⟨s, hs, hfirst, hsecond⟩ := System.exec_any (fleetSystem markedCodec duo)
    (NodesOk ReturnOk) (Fleet.start duo Nat) forgetAll
    (P := fun s => (s.machines 0).node.any (fun m =>
        decide (m.state.log.take m.state.commitedIndex = [⟨7, 1⟩])) = true ∧
      (s.machines 1).node.any (fun m => decide (m.state.log = [])) = true) (by decide +kernel)
  obtain ⟨m, hm, hlog⟩ := (Option.any_eq_true _ _).1 hfirst
  obtain ⟨m', hm', hlog'⟩ := (Option.any_eq_true _ _).1 hsecond
  have hlog := of_decide_eq_true hlog
  have hreach : (fleetSystem markedCodec duo).Reachable (NodesOk ReturnOk) s := ⟨_, rfl, hs⟩
  exact ⟨s, m, m', hm, hm', (lives_deliver_log hreach hm).2.2.trans hlog, hlog,
    (lives_deliver_log hreach hm').2.2, of_decide_eq_true hlog'⟩

/-! ## All lives -/

/-- Of two lists that are numbered from 0 on and agree the shorter is a beginning of the
other. -/
theorem isPrefix_of_numbered {α : Type} {l l' : List (Nat × α)} {a b : Nat}
    (hl : l.map Prod.fst = List.range a) (hl' : l'.map Prod.fst = List.range b) (hle : a ≤ b)
    (hagree : ∀ k e e', (k, e) ∈ l → (k, e') ∈ l' → e = e') : l <+: l' := by
  have hget : ∀ {l : List (Nat × α)} {a k : Nat}, l.map Prod.fst = List.range a → k < a →
      ∃ e, l[k]? = some (k, e) := by
    intro l a k hl hk
    have hfst := congrArg (·[k]?) hl
    simp only [List.getElem?_map, List.getElem?_range hk] at hfst
    obtain ⟨⟨k', e⟩, hget, rfl⟩ := Option.map_eq_some_iff.1 hfst
    exact ⟨e, hget⟩
  have hlength : l.length = a := by simpa using congrArg List.length hl
  refine List.prefix_iff_getElem?.2 fun k hk => ?_
  obtain ⟨e, he⟩ := hget hl (hlength ▸ hk)
  obtain ⟨e', he'⟩ := hget hl' ((hlength ▸ hk).trans_le hle)
  rw [← List.getElem?_eq_getElem hk, he, he',
    hagree k e e' (List.mem_of_getElem? he) (List.mem_of_getElem? he')]

/-- **All lives deliver one history.**  Where processes die only when their files hold their
states, and the steps of their nodes all meet `ExtendOk`, take any two lives of any two
nodes, each at any moment: what the one has delivered is a beginning of what the other
has. -/
theorem lives_replay (hquorum : ∀ i, n < 2 * getQuorumLength (C.conf i))
    (hcodec : codec.RejectsPrefixes)
    (hs : (fleetSystem codec C).Reachable (FleetOk codec ExtendOk) s)
    (h : (fleetSystem codec C).Steps (FleetOk codec ExtendOk) s s') {i j : Fin n} {m m' : Node T}
    (hi : (s.machines i).node = some m) (hj : (s'.machines j).node = some m') :
    m.delivered <+: m'.delivered ∨ m'.delivered <+: m.delivered := by
  have hweaker : ∀ (s : Fleet C T) l, FleetOk codec ExtendOk s l → NodesOk ReturnOk s l :=
    fun _ _ hok => hok.nodesOk fun _ _ h => h.returnOk
  have hsound := (Fleet.LifeSound.of_reachable (hs.mono hweaker)).returns.numbered i
  have hsound' := (Fleet.LifeSound.of_reachable ((hs.steps h).mono hweaker)).returns.numbered j
  rw [Fleet.cluster_node hi] at hsound
  rw [Fleet.cluster_node hj] at hsound'
  obtain ⟨logs, hchosen, hchosen'⟩ := Fleet.delivered_chosen hquorum hcodec hs h
  rcases Nat.le_total m.state.commitedIndex m'.state.commitedIndex with hle | hle
  · exact Or.inl (isPrefix_of_numbered hsound hsound' hle fun _ _ _ hk hk' =>
      (hchosen hi hk).unique (hchosen' hj hk'))
  · exact Or.inr (isPrefix_of_numbered hsound' hsound hle fun _ _ _ hk hk' =>
      (hchosen' hj hk).unique (hchosen hi hk'))

/-- What the follower has delivered when it has just come back, and heard from the leader. -/
theorem lives_replay_return : ∃ (s s' : Fleet duo Nat) (m m' : Node Nat),
    (s.machines 1).node = some m ∧ (s'.machines 1).node = some m' ∧
      m.delivered = [] ∧ m'.delivered = [(0, ⟨7, 1⟩)] ∧
      (m.delivered <+: m'.delivered ∨ m'.delivered <+: m.delivered) := by
  obtain ⟨s, hs, hfirst, hrest⟩ := System.exec_any (fleetSystem markedCodec duo)
    (FleetOk markedCodec ExtendOk) (Fleet.start duo Nat)
    (commitOnFleet ++ saveAt 6000 100 1 ++ [⟨1, .process .crash⟩, bootAt 6010 1])
    (P := fun s => (s.machines 1).node.any (fun m => decide (m.delivered = [])) = true ∧
      ((fleetSystem markedCodec duo).exec (FleetOk markedCodec ExtendOk) s
        (onFleet ([.atTime 6010 0 (.act .sendHeartbeat)] ++ exchange 6010 3 0 1))).any
        (fun s' => decide ((s'.machines 1).node.any (fun m' =>
          decide (m'.delivered = [(0, ⟨7, 1⟩)])) = true)) = true) (by decide +kernel)
  obtain ⟨m, hm, hnone⟩ := (Option.any_eq_true _ _).1 hfirst
  obtain ⟨s', hs', hsecond⟩ := System.exec_any _ _ _ _ hrest
  obtain ⟨m', hm', hone⟩ := (Option.any_eq_true _ _).1 hsecond
  exact ⟨s, s', m, m', hm, hm', of_decide_eq_true hnone, of_decide_eq_true hone,
    lives_replay (duo.lt_two_mul_getQuorumLength (by decide)) markedCodec_rejectsPrefixes
      ⟨_, rfl, hs⟩ hs' hm hm'⟩

end Quaso
