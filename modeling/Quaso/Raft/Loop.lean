import Quaso.Raft.Cluster
import Quaso.Raft.Transitions

/-!
# The loop of the tick task

In a `Node` the tick task calls its operations in any order and at any time.  `Raft::tick`
has one order: it sleeps for 5 to 10 ms, calls `try_persist_state`, `maybe_send_heartbeat`,
`maybe_commit_log_entries` and `maybe_transition_candidate`, each when the one before has
returned, clears `recieved_leader_heartbeat`, and begins again.

* `Stage` — the operations of one turn; `Action.calls` — which one an action calls.
* `Loop` — where the loop of a node stands; `Loop.after` — and where a step takes it.
* `TickCluster` — a cluster whose tick tasks run this loop.
* `TickCluster.call` — an operation is called.
* `TickCluster.carry` — what happens while no operation is called.
-/

namespace Quaso

variable {n : Nat} {C : ClusterConfig n} {T : Type}

/-! ## One loop -/

/-- The operations of a turn of `Raft::tick`, in their order. -/
inductive Stage where
  /-- `try_persist_state`, after the sleep. -/
  | persist
  /-- `maybe_send_heartbeat`. -/
  | heartbeat
  /-- `maybe_commit_log_entries`. -/
  | commit
  /-- `maybe_transition_candidate`, with the election in it. -/
  | candidate
  /-- The flag `recieved_leader_heartbeat` is cleared. -/
  | clear
  deriving DecidableEq, Repr

/-- The operation of the tick task that an action calls. -/
def Action.calls : Action T → Option Stage
  | .tryPersist => some .persist
  | .sendHeartbeat => some .heartbeat
  | .commit _ => some .commit
  | .transitionCandidate => some .candidate
  | .clearFlag => some .clear
  | _ => none

/-- Where the loop of a tick task stands. -/
structure Loop where
  /-- The operation that it calls next, or that it is in. -/
  stage : Stage
  /-- When the sleep of this turn is over. -/
  wake : Nat
  deriving DecidableEq, Repr

namespace Loop

/-- The operation has returned: the next one has its turn, after the last the sleep of the
next turn. -/
def next (loop : Loop) (env : Env) : Loop :=
  match loop.stage with
  | .persist => { loop with stage := .heartbeat }
  | .heartbeat => { loop with stage := .commit }
  | .commit => { loop with stage := .candidate }
  | .candidate => { loop with stage := .clear }
  | .clear => { stage := .persist, wake := env.now + env.heartbeatTime }

/-- The loop goes on when the tick task is between two operations. -/
def settle (loop : Loop) (env : Env) (m : Node T) : Loop :=
  if m.tick.isIdle then loop.next env else loop

/-- The loop after a step of its node from `m` to `m'`; an operation that is not at its turn
is not called. -/
def after (loop : Loop) (env : Env) (action : Action T) (m m' : Node T) : Option Loop :=
  match action.calls with
  | some stage =>
    if stage = loop.stage ∧ (stage = .persist → loop.wake ≤ env.now) then
      some (loop.settle env m')
    else none
  | none => some (if m.tick.isIdle then loop else loop.settle env m')

end Loop

/-- A step that meets a condition and calls no operation. -/
def Continues (ok : Node T → Action T → Prop) (m : Node T) (action : Action T) : Prop :=
  ok m action ∧ action.calls = none

/-- A step that calls no operation leaves a tick task between two operations there. -/
theorem Node.isIdle_of_step {conf : Config} {env : Env} {m m' : Node T} {action : Action T}
    {effect : Effect T} (h : m.step conf env action = some (m', effect))
    (hcalls : action.calls = none) (hidle : m.tick.isIdle = true) : m'.tick.isIdle = true := by
  have htick := Tick.eq_idle hidle
  cases action with
  | tryPersist | sendHeartbeat | commit | transitionCandidate | clearFlag => cases hcalls
  | advance | appendAnswer | voteAnswer =>
    simp [step, advance, appendAnswer, voteAnswer, htick] at h
  | appendEntry | accept | handle | abortListener =>
    cases step_sound h with
    | skip _ _ haction | tickDies _ haction => simp at haction
    | _ => exact hidle

/-- An operation is called between two operations. -/
theorem Node.isIdle_of_calls {conf : Config} {env : Env} {m m' : Node T} {action : Action T}
    {effect : Effect T} {stage : Stage} (h : m.step conf env action = some (m', effect))
    (hcalls : action.calls = some stage) : m.tick.isIdle = true := by
  have hwhen : ∀ {m next : Node T}, m.whenIdle next = some (m', effect) → m.tick.isIdle = true :=
    fun h => (Option.ite_none_right_eq_some.1 h).1
  unfold step at h
  have h := (Option.ite_none_left_eq_some.1 h).2
  cases action with
  | tryPersist | sendHeartbeat | transitionCandidate | clearFlag => exact hwhen h
  | commit => exact hwhen (Option.ite_none_right_eq_some.1 h).2
  | _ => cases hcalls

/-- A loop before and after some steps that call no operation: it has gone on if the operation
that was under way has returned. -/
structure Loop.Carried (loop loop' : Loop) (m m' : Node T) : Prop where
  idle : m.tick.isIdle = true → m'.tick.isIdle = true ∧ loop' = loop
  busy : m.tick.isIdle = false → m'.tick.isIdle = false → loop' = loop
  returned : m.tick.isIdle = false → m'.tick.isIdle = true → ∃ env, loop' = loop.next env

theorem Loop.Carried.refl (loop : Loop) (m : Node T) : loop.Carried loop m m where
  idle h := ⟨h, rfl⟩
  busy _ _ := rfl
  returned h h' := by
    rw [h] at h'
    cases h'

/-- One more step. -/
theorem Loop.Carried.step {conf : Config} {env : Env} {loop loop' loop'' : Loop}
    {m m' m'' : Node T} {action : Action T} {effect : Effect T} (h : loop.Carried loop' m m')
    (hstep : m'.step conf env action = some (m'', effect)) (hcalls : action.calls = none)
    (hafter : loop'.after env action m' m'' = some loop'') : loop.Carried loop'' m m'' := by
  simp only [after, hcalls, Option.some.injEq, settle] at hafter
  cases hidle' : m'.tick.isIdle with
  | true =>
    have hidle'' := Node.isIdle_of_step hstep hcalls hidle'
    simp only [hidle', if_true] at hafter
    rw [← hafter]
    refine ⟨fun hm => ⟨hidle'', (h.idle hm).2⟩, fun _ hm'' => ?_, fun hm _ => h.returned hm hidle'⟩
    rw [hidle''] at hm''
    cases hm''
  | false =>
    simp only [hidle', Bool.false_eq_true, if_false] at hafter
    have hm : m.tick.isIdle = false := by
      cases hm : m.tick.isIdle with
      | false => rfl
      | true =>
        rw [(h.idle hm).1] at hidle'
        cases hidle'
    have hsame := h.busy hm hidle'
    subst hsame
    refine ⟨fun hm' => ?_, fun _ hm'' => ?_, fun _ hm'' => ⟨env, ?_⟩⟩
    · rw [hm] at hm'
      cases hm'
    · rw [← hafter, hm'']
      rfl
    · rw [← hafter, hm'']
      rfl

/-! ## Clusters -/

/-- A cluster with the loops of its tick tasks. -/
structure TickCluster {n : Nat} (C : ClusterConfig n) (T : Type) where
  cluster : Cluster C T
  loops : Fin n → Loop

namespace TickCluster

/-- Replace one loop. -/
def setLoop (s : TickCluster C T) (i : Fin n) (loop : Loop) : Fin n → Loop :=
  fun j => if j = i then loop else s.loops j

/-- One step: of the cluster, where the loop of the acting node allows it. -/
def step (s : TickCluster C T) (l : Label n T) : Option (TickCluster C T) :=
  match s.cluster.resolve l.node l.input, s.cluster.step l with
  | some action, some cluster =>
    ((s.loops l.node).after l.env action (s.cluster.nodes l.node) (cluster.nodes l.node)).map
      fun loop => ⟨cluster, s.setLoop l.node loop⟩
  | _, _ => none

/-- A condition on the steps of the cluster. -/
def OnCluster (ok : Node T → Action T → Prop) (s : TickCluster C T) (l : Label n T) : Prop :=
  Lift ok s.cluster l

end TickCluster

/-- The cluster with its loops as a transition system; a loop begins with its sleep. -/
def tickSystem (C : ClusterConfig n) (T : Type) : System (TickCluster C T) (Label n T) where
  Init := fun s => ∃ boot, s.cluster = Cluster.start C T boot ∧ ∀ i, (s.loops i).stage = .persist ∧
    (boot i).now + 5 ≤ (s.loops i).wake ∧ (s.loops i).wake ≤ (boot i).now + 10
  step := TickCluster.step

namespace TickCluster

variable {ok : Node T → Action T → Prop} {s s' : TickCluster C T} {l : Label n T}

/-- What a step is: one of the cluster, and one of the acting node's loop. -/
theorem step_cases (h : s.step l = some s') :
    ∃ action loop, s.cluster.resolve l.node l.input = some action ∧
      s.cluster.step l = some s'.cluster ∧
      (s.loops l.node).after l.env action (s.cluster.nodes l.node) (s'.cluster.nodes l.node)
        = some loop ∧ s'.loops = s.setLoop l.node loop := by
  unfold step at h
  split at h
  · rename_i action cluster haction hcluster
    obtain ⟨loop, hloop, rfl⟩ := Option.map_eq_some_iff.1 h
    exact ⟨action, loop, haction, hcluster, hloop, rfl⟩
  · cases h

/-- **The loop is a tick task.**  A run is one of the cluster. -/
theorem steps_cluster (h : (tickSystem C T).Steps (OnCluster ok) s s') :
    (clusterSystem C T).Steps (Lift ok) s.cluster s'.cluster := by
  refine h.project (f := TickCluster.cluster) fun s l s' hok hl => ?_
  obtain ⟨_, _, _, hcluster, _⟩ := step_cases hl
  exact Or.inr ⟨l, hok, hcluster⟩

theorem reachable_cluster (h : (tickSystem C T).Reachable (OnCluster ok) s) :
    (clusterSystem C T).Reachable (Lift ok) s.cluster := by
  obtain ⟨s₀, ⟨boot, hstart, _⟩, hsteps⟩ := h
  exact ⟨s₀.cluster, ⟨boot, hstart⟩, steps_cluster hsteps⟩

/-! ## Runs -/

/-- An operation is called, at its turn. -/
theorem call {i : Fin n} {env : Env} {action : Action T} {stage : Stage} {m : Node T}
    (hcalls : action.calls = some stage) (hstage : (s.loops i).stage = stage)
    (hwake : stage = .persist → (s.loops i).wake ≤ env.now) (hok : ok (s.cluster.nodes i) action)
    (hlocal : s.cluster.isLocal action = true)
    (hstep : (s.cluster.nodes i).step (C.conf i) env action = some (m, .quiet)) :
    (tickSystem C T).Steps (OnCluster ok) s
      ⟨⟨s.cluster.setNode i m, s.cluster.conns⟩, s.setLoop i ((s.loops i).settle env m)⟩ := by
  have hresolve : s.cluster.resolve i (.act action) = some action := by
    rw [Cluster.resolve, if_pos hlocal]
  refine Relation.ReflTransGen.single ⟨⟨i, env, .act action⟩, ?_, ?_⟩
  · intro action' haction'
    obtain rfl := Option.some.inj (hresolve.symm.trans haction')
    exact hok
  · have hcluster : s.cluster.step ⟨i, env, .act action⟩
        = some ⟨s.cluster.setNode i m, s.cluster.conns⟩ := by
      simp only [Cluster.step, hresolve, hstep]
      rfl
    change s.step _ = _
    simp only [step, hresolve, hcluster, Loop.after, hcalls, Cluster.setNode_self]
    rw [if_pos ⟨hstage.symm, hwake⟩, Option.map_some]

/-- **Between the calls** a run of the cluster is one of the cluster with its loops. -/
theorem carry {c : Cluster C T}
    (h : (clusterSystem C T).Steps (Lift (Continues ok)) s.cluster c) :
    ∃ loops, (tickSystem C T).Steps (OnCluster ok) s ⟨c, loops⟩ ∧
      ∀ j, (s.loops j).Carried (loops j) (s.cluster.nodes j) (c.nodes j) := by
  induction h with
  | refl => exact ⟨s.loops, .refl _ _ s, fun j => .refl _ _⟩
  | @tail c c' _ hnext ih =>
    obtain ⟨loops, hsteps, hcarried⟩ := ih
    obtain ⟨l, hok, hl⟩ := hnext
    obtain ⟨action, effect, hm⟩ := Cluster.step_cases hl
    obtain ⟨hact, hcalls⟩ := hok action hm.resolved
    obtain ⟨effect', hstep⟩ := hm.node_step hl
    let s' : TickCluster C T := ⟨c, loops⟩
    let loop := if (c.nodes l.node).tick.isIdle then loops l.node
      else (loops l.node).settle l.env (c'.nodes l.node)
    have hafter : (loops l.node).after l.env action (c.nodes l.node) (c'.nodes l.node)
        = some loop := by
      simp only [Loop.after, hcalls]
      rfl
    have hs' : s'.step l = some ⟨c', s'.setLoop l.node loop⟩ := by
      change c.step l = some c' at hl
      simp only [step, s', hm.resolved, hl, hafter, Option.map_some]
    refine ⟨_, hsteps.tail ⟨l, ?_, hs'⟩, fun j => ?_⟩
    · intro action' haction'
      obtain rfl := Option.some.inj (hm.resolved.symm.trans haction')
      exact hact
    · unfold setLoop
      by_cases hj : j = l.node
      · subst hj
        rw [if_pos rfl]
        exact (hcarried l.node).step hstep hcalls hafter
      · rw [if_neg hj, hm.others j hj]
        exact hcarried j

end TickCluster
end Quaso
