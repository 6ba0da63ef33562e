import Quaso.Raft.Fleet
import Quaso.Raft.Past
import Quaso.Safety.CrashPoint
import Quaso.Safety.Rejoin

/-!
# Safety across crashes

A cluster of machines is a cluster whose nodes come back, as far as each process dies only
when its file holds its state: the node that is started is the one that has died.

* `Blind` — a condition on steps that does not look at earlier lives.
* `Machine.StandsFor` — the node that a machine stands for, also while it is off.
* `Fleet.StandsFor` — the cluster that a fleet stands for, and `Fleet.StandsFor.step`: each
  step of the fleet is a step of that cluster, or none.
* `lives_agree` — no two nodes, in whatever lives, deliver different entries for one index.
* `lives_elect_one` — nor do two of them lead one term.
* `lives_disagree` — where processes die at any moment, both may happen.
-/

namespace Quaso

variable {T : Type}

/-- A condition that does not look at earlier lives, and allows every save. -/
structure Blind (ok : Node T → Action T → Prop) : Prop where
  past : ∀ {m action} clock cast sent, ok m action → ok (m.withPast clock cast sent) action
  persist : ∀ m, ok m .tryPersist

theorem ExtendOk.blind : Blind (T := T) ExtendOk where
  past _ _ _ h := h
  persist _ := .of_quiet rfl rfl rfl rfl

theorem LeadOk.blind : Blind (T := T) LeadOk where
  past _ _ _ h := h
  persist m := (ExtendOk.blind.persist m).1

/-! ## Machines -/

/-- The node that a machine stands for.  While the machine is off this is the node that has
died, whose state the next start loads. -/
inductive Machine.StandsFor (codec : DiskCodec T) (machine : Machine T) : Node T → Prop where
  | up {m : Node T} {clock : Nat} {cast : List (NodeTerm × NodeId)}
      {sent : List (Nat × LogEntry T)} (hnode : machine.node = some m) (hclock : clock ≤ m.clock) :
      StandsFor codec machine (m.withPast clock cast sent)
  | off {node : Node T} (hnode : machine.node = none) (hsaving : machine.saving = none)
      (hsettled : node.tick.isDenied = false)
      (hloads : ∀ p, PersistentState.initState codec machine.file = some p →
        p = node.state.toPersistentState)
      (hmissing : machine.file = none → node.state.toPersistentState = .fresh) :
      StandsFor codec machine node

namespace Machine.StandsFor

variable {codec : DiskCodec T} {conf : Config} {env : Env} {machine machine' : Machine T}
  {node : Node T} {m m' : Node T}

/-- The running node. -/
theorem of_up (h : machine.StandsFor codec node) (hnode : machine.node = some m) :
    ∃ clock cast sent, clock ≤ m.clock ∧ node = m.withPast clock cast sent := by
  cases h with
  | up hm hclock =>
    obtain rfl := Option.some.inj (hm.symm.trans hnode)
    exact ⟨_, _, _, hclock, rfl⟩
  | off hm =>
    rw [hm] at hnode
    cases hnode

/-- A step of the running node. -/
theorem act {action : Action T} {effect : Effect T} (h : machine.StandsFor codec node)
    (hnode : machine.node = some m) (hstep : m.step conf env action = some (m', effect)) :
    ∃ clock cast sent, clock ≤ m'.clock ∧
      node.step conf env action = some (m'.withPast clock cast sent, effect) := by
  obtain ⟨clock, cast, sent, hclock, rfl⟩ := h.of_up hnode
  refine ⟨env.now, cast, sent, ?_, Node.step_withPast hstep hclock⟩
  rw [(Node.step_sound hstep).clock_eq]

/-- An event that the node does not notice, except by its clock. -/
theorem keep (h : machine.StandsFor codec node) (hnode : machine.node = some m) {clock' : Nat}
    (hclock' : m.clock ≤ clock') (hnode' : machine'.node = some { m with clock := clock' }) :
    machine'.StandsFor codec node := by
  obtain ⟨clock, cast, sent, hclock, rfl⟩ := h.of_up hnode
  exact .up (m := { m with clock := clock' }) hnode' (hclock.trans hclock')

/-- A call of `persist` begins. -/
theorem beginSave (h : machine.StandsFor codec node)
    (hstep : machine.step codec conf (.beginSave env) = some machine') :
    machine'.StandsFor codec node := by
  cases Machine.step_sound hstep with
  | @beginSave m image _ hnode _ himage =>
    have hclock : m.clock ≤ env.now := by
      unfold Node.savesImage at himage
      have hcond := (Option.ite_none_right_eq_some.1 himage).1
      simp only [Bool.and_eq_true, decide_eq_true_eq] at hcond
      exact hcond.1.2
    exact h.keep hnode hclock rfl

/-- A file operation of `persist`. -/
theorem fileOp {op : FileOp} (h : machine.StandsFor codec node)
    (hstep : machine.step codec conf (.fileOp op) = some machine') :
    machine'.StandsFor codec node := by
  cases Machine.step_sound hstep with
  | @fileOp image saving saving' file' _ hsaving _ =>
    obtain ⟨hnode', _⟩ := machine.afterFileOp_fields image file' saving'
    cases h with
    | up hnode hclock => exact .up (hnode'.trans hnode) hclock
    | off _ hnone =>
      rw [hnone] at hsaving
      cases hsaving

/-- `persist` returns: the node has made a step of its own. -/
theorem endSave (h : machine.StandsFor codec node)
    (hstep : machine.step codec conf (.endSave env) = some machine') :
    ∃ node', node.step conf env .tryPersist = some (node', .quiet) ∧
      machine'.StandsFor codec node' := by
  cases Machine.step_sound hstep with
  | endSave _ hnode _ hpersist =>
    obtain ⟨clock, cast, sent, hclock, hstep⟩ := h.act hnode hpersist
    exact ⟨_, Node.effect_of_tryPersist hpersist ▸ hstep, .up rfl hclock⟩

/-- The process dies, with its state in the file. -/
theorem crash (h : machine.StandsFor codec node) (hsaved : machine.Saved codec)
    (hstep : machine.step codec conf .crash = some machine') :
    machine'.StandsFor codec node := by
  cases Machine.step_sound hstep with
  | @crash m hnode =>
    obtain ⟨clock, cast, sent, hclock, rfl⟩ := h.of_up hnode
    obtain ⟨hloads, hsettled⟩ := hsaved m hnode
    refine .off rfl rfl hsettled (fun p hp => ?_) fun hmissing => ?_
    · exact Option.some.inj (hp.symm.trans hloads)
    · rw [hmissing] at hloads
      exact (Option.some.inj hloads).symm

/-- The process is started: the node comes back. -/
theorem boot {created : Bool} (h : machine.StandsFor codec node)
    (hstep : machine.step codec conf (.boot env created) = some machine') :
    node.tick.isDenied = false ∧ machine'.StandsFor codec (node.rejoin conf env) := by
  cases Machine.step_sound hstep with
  | @boot p _ _ hnode hp =>
    cases h with
    | up hm =>
      rw [hnode] at hm
      cases hm
    | off _ hsaving hsettled hloads =>
      obtain rfl := hloads p hp
      refine ⟨hsettled, ?_⟩
      have hback : node.rejoin conf env
          = (Node.boot conf env node.state.toPersistentState).withPast env.now node.cast
            node.delivered := by
        simp [Node.rejoin, Node.withPast, Node.boot, Node.start]
      rw [hback]
      exact .up rfl le_rfl

/-- The process dies in its first write: the file is no record, or the fresh one. -/
theorem tornBoot {count : Nat} (hcodec : codec.RejectsPrefixes) (h : machine.StandsFor codec node)
    (hstep : machine.step codec conf (.tornBoot count) = some machine') :
    machine'.StandsFor codec node := by
  cases Machine.step_sound hstep with
  | tornBoot _ hnode hfile =>
    cases h with
    | up hm =>
      rw [hnode] at hm
      cases hm
    | off _ hsaving hsettled hloads hmissing =>
      refine .off hnode hsaving hsettled (fun p hp => ?_) (by simp)
      change codec.decode ((codec.encode .fresh).take count) = some p at hp
      rcases Nat.lt_or_ge count (codec.encode .fresh).length with hshort | hwhole
      · rw [hcodec _ _ hshort] at hp
        cases hp
      · rw [List.take_of_length_le hwhole, codec.decode_encode] at hp
        exact (Option.some.inj hp).symm.trans (hmissing hfile).symm

/-- **What happens to a process** leaves the node that the machine stands for alone, or it
is the end of a save, or the node comes back. -/
theorem process (hcodec : codec.RejectsPrefixes) (h : machine.StandsFor codec node)
    {event : Event T} (hact : ∀ env action, event ≠ .act env action)
    (hok : event = .crash → machine.Saved codec)
    (hstep : machine.step codec conf event = some machine') :
    machine'.StandsFor codec node ∨
      (∃ env node', node.step conf env .tryPersist = some (node', .quiet) ∧
        machine'.StandsFor codec node') ∨
      ∃ env, node.tick.isDenied = false ∧ machine'.StandsFor codec (node.rejoin conf env) := by
  cases event with
  | act env action => exact absurd rfl (hact env action)
  | beginSave env => exact Or.inl (h.beginSave hstep)
  | fileOp op => exact Or.inl (h.fileOp hstep)
  | endSave env => exact Or.inr (Or.inl ⟨env, h.endSave hstep⟩)
  | crash => exact Or.inl (h.crash (hok rfl) hstep)
  | boot env created => exact Or.inr (Or.inr ⟨env, h.boot hstep⟩)
  | tornBoot count => exact Or.inl (h.tornBoot hcodec hstep)

end Machine.StandsFor

/-! ## Fleets -/

variable {n : Nat} {C : ClusterConfig n} {codec : DiskCodec T} {s s' : Fleet C T} {c : Cluster C T}
  {ok : Node T → Action T → Prop}

/-- A node is replaced by itself. -/
theorem Cluster.setNode_nodes (c : Cluster C T) (i : Fin n) :
    c.setNode i (c.nodes i) = c.nodes := by
  funext j
  unfold setNode
  split
  · rename_i hj
    rw [hj]
  · rfl

/-- What an input amounts to depends on the connections and on the node's tick task. -/
theorem Cluster.resolve_congr {c c' : Cluster C T} {i : Fin n} (hconns : c.conns = c'.conns)
    (htick : (c.nodes i).tick = (c'.nodes i).tick) (input : Input T) :
    c.resolve i input = c'.resolve i input := by
  cases input with
  | act action =>
    have hlocal : c.isLocal action = c'.isLocal action := by
      unfold isLocal
      rw [hconns]
    simp only [resolve, hlocal]
  | deliver cid => simp only [resolve, hconns]
  | reply cid => simp only [resolve, hconns, htick]

/-- The cluster that a fleet stands for. -/
structure Fleet.StandsFor (codec : DiskCodec T) (s : Fleet C T) (c : Cluster C T) : Prop where
  conns : c.conns = s.conns
  machines : ∀ i, (s.machines i).StandsFor codec (c.nodes i)

namespace Fleet.StandsFor

/-- Machines that have never run stand for nodes that have just been started. -/
theorem start : StandsFor codec (Fleet.start C T) (Cluster.start₀ C T) where
  conns := rfl
  machines i := by
    refine .off rfl rfl rfl (fun p hp => ?_) fun _ => rfl
    exact (Option.some.inj hp).symm

/-- One machine and its node change. -/
theorem set (h : s.StandsFor codec c) {i : Fin n} {machine : Machine T} {node : Node T}
    (hstands : machine.StandsFor codec node) (conns : List (Connection n T)) :
    StandsFor codec ⟨s.setMachine i machine, conns⟩ (⟨c.setNode i node, conns⟩ : Cluster C T) where
  conns := rfl
  machines j := by
    change (s.setMachine i machine j).StandsFor codec (c.setNode i node j)
    by_cases hj : j = i
    · subst hj
      rw [setMachine_self, Cluster.setNode_self]
      exact hstands
    · rw [s.setMachine_of_ne machine hj, c.setNode_of_ne node hj]
      exact h.machines j

/-- The step of a node. -/
theorem nodeStep (hblind : Blind ok) (h : s.StandsFor codec c) {i : Fin n} {env : Env}
    {input : Input T} (hok : Lift ok s.cluster ⟨i, env, input⟩)
    (hl : s.nodeStep codec i env input = some s') :
    ∃ c', Lift ok c ⟨i, env, input⟩ ∧ c.step ⟨i, env, input⟩ = some c' ∧ s'.StandsFor codec c' := by
  obtain ⟨m, action, m', effect, machine, hnode, hresolve, hstep, hmachine, hnode', rfl⟩ :=
    Fleet.nodeStep_cases hl
  have hview : s.cluster.nodes i = m := Fleet.cluster_node hnode
  obtain ⟨clock, cast, sent, _, hnode₀⟩ := (h.machines i).of_up hnode
  have hsame : c.resolve i input = some action := by
    rw [← hresolve]
    refine Cluster.resolve_congr h.conns ?_ input
    rw [hview, hnode₀]
    rfl
  obtain ⟨clock', cast', sent', hclock', hstep'⟩ := (h.machines i).act hnode hstep
  refine ⟨⟨c.setNode i (m'.withPast clock' cast' sent'), _⟩, ?_, ?_,
    h.set (.up hnode' hclock') _⟩
  · intro action' haction'
    obtain rfl := Option.some.inj (hsame.symm.trans haction')
    have hact := hok action hresolve
    change ok (c.nodes i) action
    rw [hnode₀]
    exact hblind.past _ _ _ (hview ▸ hact)
  · simp only [Cluster.step, hsame, hstep', h.conns]

/-- What happens to a process. -/
theorem processStep (hcodec : codec.RejectsPrefixes) (hblind : Blind ok)
    (h : s.StandsFor codec c) {i : Fin n} {event : Event T} {machine : Machine T}
    (hact : ∀ env action, event ≠ .act env action)
    (hok : event = .crash → (s.machines i).Saved codec)
    (hl : (s.machines i).step codec (C.conf i) event = some machine) :
    ∃ c', (rejoinSystem C T).Steps (RejoinOk ok) c c' ∧
      StandsFor codec ⟨s.setMachine i machine, s.conns⟩ c' := by
  have hset : ∀ node, machine.StandsFor codec node →
      StandsFor codec ⟨s.setMachine i machine, s.conns⟩
        (⟨c.setNode i node, s.conns⟩ : Cluster C T) :=
    fun node hstands => h.set hstands s.conns
  rcases (h.machines i).process hcodec hact hok hl with hsame | ⟨env, node, hstep, hstands⟩ |
    ⟨env, hsettled, hstands⟩
  · refine ⟨c, .refl _ _ c, ?_⟩
    have hc : (⟨c.setNode i (c.nodes i), s.conns⟩ : Cluster C T) = c := by
      rw [← h.conns, c.setNode_nodes]
    exact hc ▸ hset _ hsame
  · refine ⟨_, .single ⟨.step ⟨i, env, .act .tryPersist⟩, ?_, ?_⟩, hset node hstands⟩
    · rintro action ⟨⟩
      exact hblind.persist _
    · change c.step ⟨i, env, .act .tryPersist⟩ = _
      simp only [Cluster.step, Cluster.resolve, Cluster.isLocal, if_true, hstep, ← h.conns]
      rfl
  · refine ⟨_, .single ⟨.rejoin i env, hsettled, ?_⟩, hset _ hstands⟩
    rw [← h.conns]
    rfl

/-- **A step of the fleet is a step of the cluster that it stands for, or none.** -/
theorem step (hcodec : codec.RejectsPrefixes) (hblind : Blind ok) (h : s.StandsFor codec c)
    {l : FleetLabel n T} (hok : FleetOk codec ok s l)
    (hl : (fleetSystem codec C).step s l = some s') :
    ∃ c', (rejoinSystem C T).Steps (RejoinOk ok) c c' ∧ s'.StandsFor codec c' := by
  obtain ⟨i, input⟩ := l
  cases input with
  | node env input =>
    obtain ⟨c', hok', hstep, hstands⟩ := h.nodeStep hblind hok hl
    exact ⟨c', .single ⟨.step ⟨i, env, input⟩, hok', hstep⟩, hstands⟩
  | process event =>
    cases event with
    | act env action => cases hl
    | crash =>
      obtain ⟨machine, hmachine, rfl⟩ := Option.map_eq_some_iff.1 hl
      exact h.processStep hcodec hblind (by simp) (fun _ => hok) hmachine
    | _ =>
      obtain ⟨machine, hmachine, rfl⟩ := Option.map_eq_some_iff.1 hl
      exact h.processStep hcodec hblind (by simp) (by simp) hmachine

/-- **A run of a fleet is one of a cluster whose nodes come back.** -/
theorem of_steps (hcodec : codec.RejectsPrefixes) (hblind : Blind ok)
    (hs : (fleetSystem codec C).Reachable (FleetOk codec ok) s)
    (h : (fleetSystem codec C).Steps (FleetOk codec ok) s s') (hc : s.StandsFor codec c) :
    ∃ c', (rejoinSystem C T).Steps (RejoinOk ok) c c' ∧ s'.StandsFor codec c' :=
  System.Steps.simulate (R := fun s c => StandsFor codec s c)
    (fun _ _ _ _ _ hR hok hl => hR.step hcodec hblind hok hl) hs h hc

theorem of_reachable (hcodec : codec.RejectsPrefixes) (hblind : Blind ok)
    (hs : (fleetSystem codec C).Reachable (FleetOk codec ok) s) :
    ∃ c, (rejoinSystem C T).Reachable (RejoinOk ok) c ∧ s.StandsFor codec c := by
  obtain ⟨s₀, hinit, hsteps⟩ := hs
  obtain rfl : s₀ = Fleet.start C T := hinit
  have hs₀ : (fleetSystem codec C).Reachable (FleetOk codec ok) (Fleet.start C T) :=
    ⟨_, rfl, .refl _ _ _⟩
  obtain ⟨c, hc, hstands⟩ := of_steps hcodec hblind hs₀ hsteps start
  exact ⟨c, ⟨_, Cluster.init_start₀ C T, hc⟩, hstands⟩

end Fleet.StandsFor

/-! ## Safety -/

/-- What has been delivered by either of two moments of a run has been chosen in one
collection of logs. -/
theorem Fleet.delivered_chosen (hquorum : ∀ i, n < 2 * getQuorumLength (C.conf i))
    (hcodec : codec.RejectsPrefixes)
    (hs : (fleetSystem codec C).Reachable (FleetOk codec ExtendOk) s)
    (h : (fleetSystem codec C).Steps (FleetOk codec ExtendOk) s s') :
    ∃ logs : Fin n → List (LogEntry T),
      (∀ {i m k e}, (s.machines i).node = some m → (k, e) ∈ m.delivered → Chosen logs k e) ∧
      ∀ {j m k e}, (s'.machines j).node = some m → (k, e) ∈ m.delivered → Chosen logs k e := by
  obtain ⟨c, hc, hstands⟩ := StandsFor.of_reachable hcodec ExtendOk.blind hs
  obtain ⟨c', hsteps, hstands'⟩ := hstands.of_steps hcodec ExtendOk.blind hs h
  obtain ⟨_, _, _, ha⟩ := (Cluster.SafetySound.of_reachable hquorum (hc.steps hsteps)).record
  refine ⟨c'.logs, fun {i m k e} hi hk => ?_, fun {j m k e} hj hk => ?_⟩
  · obtain ⟨_, _, sent, _, hnode⟩ := (hstands.machines i).of_up hi
    have hmem : (k, e) ∈ (c.nodes i).delivered := by
      rw [hnode]
      exact List.mem_append_right sent hk
    exact ha.delivered i k e (Cluster.delivered_lives hmem hsteps)
  · obtain ⟨_, _, sent, _, hnode⟩ := (hstands'.machines j).of_up hj
    refine ha.delivered j k e ?_
    rw [hnode]
    exact List.mem_append_right sent hk

/-- **Across lives one entry is delivered for an index.**  Where processes die only when
their files hold their states, and the steps of their nodes all meet `ExtendOk`, no two
nodes, at whatever moments and in whatever lives, deliver different entries for one
index. -/
theorem lives_agree (hquorum : ∀ i, n < 2 * getQuorumLength (C.conf i))
    (hcodec : codec.RejectsPrefixes)
    (hs : (fleetSystem codec C).Reachable (FleetOk codec ExtendOk) s)
    (h : (fleetSystem codec C).Steps (FleetOk codec ExtendOk) s s') {i j : Fin n} {m m' : Node T}
    (hi : (s.machines i).node = some m) (hj : (s'.machines j).node = some m') {k : Nat}
    {e e' : LogEntry T} (hk : (k, e) ∈ m.delivered) (hk' : (k, e') ∈ m'.delivered) : e = e' := by
  obtain ⟨logs, hchosen, hchosen'⟩ := Fleet.delivered_chosen hquorum hcodec hs h
  exact (hchosen hi hk).unique (hchosen' hj hk')

/-- The leader commits an entry, and the follower delivers it. -/
def commitOnFleet : List (FleetLabel 2 Nat) :=
  [bootAt 0 0, bootAt 0 1] ++ onFleet (elect 200 0 0 1 ++
    [.atTime 200 0 (.act (.appendEntry 7)), .atTime 210 0 (.act .sendHeartbeat)] ++
    exchange 210 1 0 1 ++ commitAfter 210 2 0 [(1, 2)] ++
    [.atTime 220 0 (.act .sendHeartbeat)] ++ exchange 220 2 0 1 ++ commitAfter 220 3 0 [(1, 2)])

/-- The follower saves its state, dies and comes back, and hears from the leader again. -/
def returnOnFleet : List (FleetLabel 2 Nat) :=
  saveAt 6000 100 1 ++ [⟨1, .process .crash⟩, bootAt 6010 1] ++
  onFleet ([.atTime 6010 0 (.act .sendHeartbeat)] ++ exchange 6010 3 0 1)

/-- The follower delivers the entry in both of its lives. -/
theorem lives_agree_return : ∃ (s s' : Fleet duo Nat) (m m' : Node Nat),
    (s.machines 1).node = some m ∧ (s'.machines 1).node = some m' ∧ m'.delivered.length = 1 ∧
      (0, ⟨7, 1⟩) ∈ m.delivered ∧
      ∀ e, (0, e) ∈ m'.delivered → (⟨7, 1⟩ : LogEntry Nat) = e := by
  obtain ⟨s, hs, hfirst, hrest⟩ := System.exec_any (fleetSystem markedCodec duo)
    (FleetOk markedCodec ExtendOk) (Fleet.start duo Nat) commitOnFleet
    (P := fun s => (s.machines 1).node.any (fun m => decide ((0, ⟨7, 1⟩) ∈ m.delivered)) = true ∧
      ((fleetSystem markedCodec duo).exec (FleetOk markedCodec ExtendOk) s returnOnFleet).any
        (fun s' => decide ((s'.machines 1).node.any (fun m' =>
          decide (m'.delivered.length = 1)) = true)) = true) (by decide +kernel)
  obtain ⟨m, hm, hmem⟩ := (Option.any_eq_true _ _).1 hfirst
  obtain ⟨s', hs', hsecond⟩ := System.exec_any _ _ _ _ hrest
  obtain ⟨m', hm', hlength⟩ := (Option.any_eq_true _ _).1 hsecond
  exact ⟨s, s', m, m', hm, hm', of_decide_eq_true hlength, of_decide_eq_true hmem, fun e he =>
    lives_agree (duo.lt_two_mul_getQuorumLength (by decide)) markedCodec_rejectsPrefixes
      ⟨_, rfl, hs⟩ hs' hm hm' (of_decide_eq_true hmem) he⟩

/-- With node 1 the leader, node 0, commits an entry; node 1 dies and comes back without it,
leads the same term with the vote of node 2 and commits another one with it. -/
def forgetEntry : List (FleetLabel 3 Nat) :=
  [bootAt 0 0, bootAt 0 1, bootAt 0 2] ++ onFleet (elect 200 0 0 1 ++
    [.atTime 200 0 (.act (.appendEntry 7)), .atTime 210 0 (.act .sendHeartbeat)] ++
    exchange 210 1 0 1 ++ unanswered 210 2 0 ++ commitAfter 210 3 0 [(1, 2), (0, 1)]) ++
  [⟨1, .process .crash⟩, bootAt 300 1] ++ onFleet (campaign 700 3 1 ++
    [.atTime 700 1 (.act (.advance 3)), .atTime 700 1 (.act (.voteAnswer .none))] ++
    exchange 700 4 1 2 ++ [.atTime 700 1 (.act (.advance 5)),
      .atTime 700 1 (.act (.appendEntry 9)), .atTime 900 1 (.act .sendHeartbeat)] ++
    unanswered 900 5 1 ++ exchange 900 6 1 2 ++ commitAfter 900 7 1 [(1, 2), (0, 1)])

/-- Where processes die at any moment, nodes 0 and 1 both lead term 1, and deliver 7 and 9
for index 0. -/
theorem lives_disagree : ¬ ∀ s : Fleet trio Nat,
    (fleetSystem markedCodec trio).Reachable (NodesOk ExtendOk) s → ∀ i j m m',
      (s.machines i).node = some m → (s.machines j).node = some m' →
        (m.state.nodeType = .leader → m'.state.nodeType = .leader →
          m.state.nodeTerm = m'.state.nodeTerm → i = j) ∨
        ∀ k e e', (k, e) ∈ m.delivered → (k, e') ∈ m'.delivered → e = e' := by
  intro hall
  obtain ⟨s, hs, hfirst, hsecond⟩ := System.exec_any (fleetSystem markedCodec trio)
    (NodesOk ExtendOk) (Fleet.start trio Nat) forgetEntry
    (P := fun s => (s.machines 0).node.any (fun m => decide (m.state.nodeType = .leader ∧
        m.state.nodeTerm = 1 ∧ (0, ⟨7, 1⟩) ∈ m.delivered)) = true ∧
      (s.machines 1).node.any (fun m => decide (m.state.nodeType = .leader ∧
        m.state.nodeTerm = 1 ∧ (0, ⟨9, 1⟩) ∈ m.delivered)) = true) (by decide +kernel)
  obtain ⟨m, hm, hleads⟩ := (Option.any_eq_true _ _).1 hfirst
  obtain ⟨m', hm', hleads'⟩ := (Option.any_eq_true _ _).1 hsecond
  obtain ⟨hrole, hterm, hmem⟩ := of_decide_eq_true hleads
  obtain ⟨hrole', hterm', hmem'⟩ := of_decide_eq_true hleads'
  rcases hall s ⟨_, rfl, hs⟩ 0 1 m m' hm hm' with hone | hagree
  · exact absurd (hone hrole hrole' (hterm.trans hterm'.symm)) (by decide)
  · exact absurd (hagree 0 _ _ hmem hmem') (by decide)

/-- **Across lives a term has one leader.** -/
theorem lives_elect_one (hquorum : ∀ i, n < 2 * getQuorumLength (C.conf i))
    (hcodec : codec.RejectsPrefixes)
    (hs : (fleetSystem codec C).Reachable (FleetOk codec LeadOk) s)
    (h : (fleetSystem codec C).Steps (FleetOk codec LeadOk) s s') {i j : Fin n} {m m' : Node T}
    (hi : (s.machines i).node = some m) (hj : (s'.machines j).node = some m')
    (hrole : m.state.nodeType = .leader) (hrole' : m'.state.nodeType = .leader)
    (hterm : m.state.nodeTerm = m'.state.nodeTerm) : i = j := by
  obtain ⟨c, hc, hstands⟩ := Fleet.StandsFor.of_reachable hcodec LeadOk.blind hs
  obtain ⟨c', hsteps, hstands'⟩ := hstands.of_steps hcodec LeadOk.blind hs h
  obtain ⟨_, _, _, _, hnode⟩ := (hstands.machines i).of_up hi
  obtain ⟨_, _, _, _, hnode'⟩ := (hstands'.machines j).of_up hj
  have hlead' := Cluster.LeadSound.lives (hc.steps hsteps)
  have helected : c.Elected i m.state.nodeTerm := by
    have := (Cluster.LeadSound.lives hc).election.leader i (by rw [hnode]; exact hrole)
    rwa [hnode] at this
  have helected' : c'.Elected j m'.state.nodeTerm := by
    have := hlead'.election.leader j (by rw [hnode']; exact hrole')
    rwa [hnode'] at this
  exact (helected.lives hsteps).unique hquorum hlead'.votes (hterm ▸ helected')

/-- Node 0 still leads term 1 when node 1, whose vote it has, comes back and knows it. -/
theorem lives_elect_one_return : ∃ (s s' : Fleet duo Nat) (m : Node Nat),
    (s.machines 0).node = some m ∧ m.state.nodeType = .leader ∧
      (s'.machines 1).node.any (fun m' => decide (m'.state.votedFor = some 1)) = true ∧
      ∀ j m', (s'.machines j).node = some m' → m'.state.nodeType = .leader →
        m.state.nodeTerm = m'.state.nodeTerm → 0 = j := by
  obtain ⟨s, hs, hfirst, hrest⟩ := System.exec_any (fleetSystem markedCodec duo)
    (FleetOk markedCodec LeadOk) (Fleet.start duo Nat) commitOnFleet
    (P := fun s => (s.machines 0).node.any (fun m => decide (m.state.nodeType = .leader)) = true ∧
      ((fleetSystem markedCodec duo).exec (FleetOk markedCodec LeadOk) s returnOnFleet).any
        (fun s' => decide ((s'.machines 1).node.any (fun m' =>
          decide (m'.state.votedFor = some 1)) = true)) = true) (by decide +kernel)
  obtain ⟨m, hm, hrole⟩ := (Option.any_eq_true _ _).1 hfirst
  obtain ⟨s', hs', hvote⟩ := System.exec_any _ _ _ _ hrest
  exact ⟨s, s', m, hm, of_decide_eq_true hrole, hvote, fun j m' hm' hrole' hterm =>
    lives_elect_one (duo.lt_two_mul_getQuorumLength (by decide)) markedCodec_rejectsPrefixes
      ⟨_, rfl, hs⟩ hs' hm hm' (of_decide_eq_true hrole) hrole' hterm⟩

end Quaso
