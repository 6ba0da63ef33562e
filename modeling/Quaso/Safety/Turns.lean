import Quaso.Raft.Loop
import Quaso.Safety.Timing

/-!
# The turns of the loop

`Raft::tick` sleeps for 5 ms at least at the start of each turn, and calls each operation
once a turn.  So the calls of an operation lie 5 ms apart, however long or short the others
take, and whatever the listener does in between.

* `Loop.ready` — the time from which an operation may be called again.
* `turnTimer` — it is the deadline of a `Timer`.
* `turns_apart` — in every run of a cluster two calls of an operation lie 5 ms apart.
-/

namespace Quaso

variable {T : Type}

/-! ## One loop -/

/-- The place of an operation in a turn. -/
def Stage.place : Stage → Nat
  | .persist => 0
  | .heartbeat => 1
  | .commit => 2
  | .candidate => 3
  | .clear => 4

namespace Loop

variable {loop loop' : Loop} {stage : Stage} {env : Env} {m m' : Node T}

/-- The operation has been called in this turn: the loop is in it, or past it. -/
def past (loop : Loop) (stage : Stage) (m : Node T) : Bool :=
  decide (stage.place < loop.stage.place) ||
    (decide (stage = loop.stage) && !m.tick.isIdle)

/-- The time from which the operation may be called again, as far as it is known. -/
def ready (loop : Loop) (stage : Stage) (m : Node T) : Nat :=
  if loop.past stage m then m.clock + 5
  else if loop.stage = .persist ∧ m.tick.isIdle = true then loop.wake
  else m.clock

/-- While an operation is under way. -/
theorem ready_of_busy (hbusy : m.tick.isIdle = false) :
    loop.ready stage m = if stage.place < loop.stage.place ∨ stage = loop.stage then m.clock + 5
      else m.clock := by
  simp [ready, past, hbusy]

/-- Between two operations. -/
theorem ready_of_idle (hidle : m.tick.isIdle = true) :
    loop.ready stage m = if stage.place < loop.stage.place then m.clock + 5
      else if loop.stage = .persist then loop.wake else m.clock := by
  simp [ready, past, hidle]

/-- When an operation has returned, those of its turn so far wait for the next turn. -/
theorem le_ready_next (hidle : m.tick.isIdle = true) (hclock : m.clock = env.now)
    (hpast : stage.place < loop.stage.place ∨ stage = loop.stage) :
    m.clock + 5 ≤ (loop.next env).ready stage m := by
  have hsleep := env.heartbeat_range.1
  rw [ready_of_idle hidle, next]
  cases hstage : loop.stage <;> cases stage <;>
    simp_all [Stage.place]

/-- The others may have their turn now. -/
theorem clock_le_ready_next (hidle : m.tick.isIdle = true) (hclock : m.clock = env.now) :
    m.clock ≤ (loop.next env).ready stage m := by
  rw [ready_of_idle hidle, next]
  cases hstage : loop.stage <;> cases stage <;>
    simp_all [Stage.place]

/-- The loop after its operation is called, or goes on. -/
theorem le_ready_settle (hclock : m.clock = env.now)
    (hpast : stage.place < loop.stage.place ∨ stage = loop.stage) :
    m.clock + 5 ≤ (loop.settle env m).ready stage m := by
  unfold settle
  cases hidle : m.tick.isIdle with
  | true => exact le_ready_next hidle hclock hpast
  | false =>
    simp only [Bool.false_eq_true, if_false]
    rw [ready_of_busy hidle, if_pos hpast]

theorem clock_le_ready_settle (hclock : m.clock = env.now) :
    m.clock ≤ (loop.settle env m).ready stage m := by
  unfold settle
  cases hidle : m.tick.isIdle with
  | true => exact clock_le_ready_next hidle hclock
  | false =>
    simp only [Bool.false_eq_true, if_false]
    rw [ready_of_busy hidle]
    split
    · exact Nat.le_add_right _ 5
    · exact le_rfl

variable {conf : Config} {action : Action T} {effect : Effect T}

/-- A step that calls the operation comes when it is ready, and makes it wait. -/
theorem ready_call (hstep : m.step conf env action = some (m', effect))
    (hcalls : action.calls = some stage) (hafter : loop.after env action m m' = some loop') :
    loop.ready stage m ≤ m'.clock ∧ m'.clock + 5 ≤ loop'.ready stage m' := by
  have hclock := (Node.step_sound hstep).clock_eq
  have hle := Node.clock_le_of_step hstep
  have hidle := Node.isIdle_of_calls hstep hcalls
  simp only [after, hcalls] at hafter
  obtain ⟨⟨hstage, hwake⟩, hsettle⟩ := Option.ite_none_right_eq_some.1 hafter
  obtain rfl := Option.some.inj hsettle
  refine ⟨?_, le_ready_settle hclock (Or.inr hstage)⟩
  rw [ready_of_idle hidle, hclock, hstage, if_neg (lt_irrefl _)]
  split
  · rename_i hpersist
    exact hwake (hstage.trans hpersist)
  · exact hle

/-- Any step leaves the time where it is, or puts it off. -/
theorem ready_step (hstep : m.step conf env action = some (m', effect))
    (hafter : loop.after env action m m' = some loop') (stage : Stage) :
    loop.ready stage m ≤ loop'.ready stage m' ∨ m'.clock + 5 ≤ loop'.ready stage m' := by
  have hclock := (Node.step_sound hstep).clock_eq
  have hle := Node.clock_le_of_step hstep
  rw [← hclock] at hle
  cases hcalls : action.calls with
  | some called =>
    have hidle := Node.isIdle_of_calls hstep hcalls
    simp only [after, hcalls] at hafter
    obtain ⟨⟨hcalled, hwake⟩, hsettle⟩ := Option.ite_none_right_eq_some.1 hafter
    obtain rfl := Option.some.inj hsettle
    by_cases hpast : stage.place < loop.stage.place
    · exact Or.inr (le_ready_settle hclock (Or.inl hpast))
    · refine Or.inl (le_trans ?_ (clock_le_ready_settle hclock))
      rw [ready_of_idle hidle, if_neg hpast]
      split
      · rename_i hpersist
        rw [hclock]
        exact hwake (hcalled.trans hpersist)
      · exact hle
  | none =>
    simp only [after, hcalls, Option.some.injEq] at hafter
    subst hafter
    cases hidle : m.tick.isIdle with
    | true =>
      simp only [if_true]
      rw [ready_of_idle hidle, ready_of_idle (Node.isIdle_of_step hstep hcalls hidle)]
      split
      · exact Or.inr le_rfl
      · split
        · exact Or.inl le_rfl
        · exact Or.inl hle
    | false =>
      simp only [Bool.false_eq_true, if_false]
      by_cases hpast : stage.place < loop.stage.place ∨ stage = loop.stage
      · exact Or.inr (le_ready_settle hclock hpast)
      · refine Or.inl (le_trans ?_ (clock_le_ready_settle hclock))
        rw [ready_of_busy hidle, if_neg hpast]
        exact hle

end Loop

/-! ## Clusters -/

variable {n : Nat} {C : ClusterConfig n}

/-- The step calls the operation at the node. -/
def TickCluster.Calls (s : TickCluster C T) (l : Label n T) (i : Fin n) (stage : Stage) : Prop :=
  l.node = i ∧ ∃ action, s.cluster.resolve i l.input = some action ∧ action.calls = some stage

/-- What a step is to a node and its loop: theirs, or that of another. -/
theorem TickCluster.step_node {s s' : TickCluster C T} {l : Label n T}
    (h : (tickSystem C T).step s l = some s') (i : Fin n) :
    (l.node = i ∧ ∃ action effect, s.cluster.resolve i l.input = some action ∧
      (s.cluster.nodes i).step (C.conf i) l.env action
        = some (s'.cluster.nodes i, effect) ∧
      (s.loops i).after l.env action (s.cluster.nodes i) (s'.cluster.nodes i)
        = some (s'.loops i)) ∨
    (l.node ≠ i ∧ s'.cluster.nodes i = s.cluster.nodes i ∧ s'.loops i = s.loops i) := by
  obtain ⟨action, loop, haction, hcluster, hafter, hloops⟩ := TickCluster.step_cases h
  obtain ⟨action', _, hm⟩ := Cluster.step_cases hcluster
  by_cases hi : l.node = i
  · subst hi
    obtain ⟨effect, hstep⟩ := hm.node_step hcluster
    obtain rfl := Option.some.inj (haction.symm.trans hm.resolved)
    have hloop : s'.loops l.node = loop := by rw [hloops, setLoop, if_pos rfl]
    exact Or.inl ⟨rfl, action, effect, haction, hstep, hloop ▸ hafter⟩
  · have hi' : i ≠ l.node := fun heq => hi heq.symm
    refine Or.inr ⟨hi, hm.others i hi', ?_⟩
    rw [hloops, setLoop, if_neg hi']

/-- The timer of an operation. -/
def turnTimer (C : ClusterConfig n) (T : Type) (i : Fin n) (stage : Stage) :
    Timer (tickSystem C T) where
  clock s := (s.cluster.nodes i).clock
  deadline s := (s.loops i).ready stage (s.cluster.nodes i)
  span := 5
  arms s l _ := s.Calls l i stage
  fires s l _ := s.Calls l i stage
  clock_le h := by
    rcases TickCluster.step_node h i with ⟨_, _, _, _, hstep, _⟩ | ⟨_, hsame, _⟩
    · rw [(Node.step_sound hstep).clock_eq]
      exact Node.clock_le_of_step hstep
    · rw [hsame]
  armed h harms := by
    obtain ⟨hi, action, haction, hcalls⟩ := harms
    rcases TickCluster.step_node h i with ⟨_, action', _, haction', hstep, hafter⟩ | ⟨hne, _⟩
    · obtain rfl := Option.some.inj (haction.symm.trans haction')
      exact (Loop.ready_call hstep hcalls hafter).2
    · exact absurd hi hne
  moved h := by
    rcases TickCluster.step_node h i with ⟨_, _, _, _, hstep, hafter⟩ | ⟨_, hsame, hloop⟩
    · exact Loop.ready_step hstep hafter stage
    · rw [hsame, hloop]
      exact Or.inl le_rfl
  due h hfires := by
    obtain ⟨hi, action, haction, hcalls⟩ := hfires
    rcases TickCluster.step_node h i with ⟨_, action', _, haction', hstep, hafter⟩ | ⟨hne, _⟩
    · obtain rfl := Option.some.inj (haction.symm.trans haction')
      exact (Loop.ready_call hstep hcalls hafter).1
    · exact absurd hi hne

/-- **The turns lie apart.**  In every run of a cluster whose tick tasks keep to their loops,
two calls of an operation on one node lie 5 ms apart: it saves, sends heartbeats, commits and
stands for election at most once in that time. -/
theorem turns_apart {i : Fin n} {stage : Stage} {s₁ s₂ s₃ s₄ : TickCluster C T}
    {l l' : Label n T} (hcall : s₁.Calls l i stage)
    (hfirst : (tickSystem C T).step s₁ l = some s₂)
    (hsteps : (tickSystem C T).Steps System.Always s₂ s₃) (hagain : s₃.Calls l' i stage)
    (hsecond : (tickSystem C T).step s₃ l' = some s₄) :
    (s₂.cluster.nodes i).clock + 5 ≤ (s₄.cluster.nodes i).clock :=
  (turnTimer C T i stage).gap hfirst hcall hsteps hsecond hagain

/-- The first turn of node 0, after its first call. -/
def firstTurn : List (Label 2 Nat) :=
  [.atTime 5 0 (.act .sendHeartbeat), .atTime 5 0 (.act (.commit [(0, 1)])),
    .atTime 5 0 (.act .transitionCandidate), .atTime 6 0 (.act .clearFlag)]

/-- The second turn begins 6 ms after the first. -/
theorem turns_apart_firstTurn : ∃ s₂ s₄ : TickCluster duo Nat,
    (s₂.cluster.nodes 0).clock = 5 ∧ (s₄.cluster.nodes 0).clock = 11 ∧
      (s₂.cluster.nodes 0).clock + 5 ≤ (s₄.cluster.nodes 0).clock := by
  have hrun : ((tickSystem duo Nat).step ⟨.start₀ duo Nat, fun _ => ⟨.persist, 5⟩⟩
      (.atTime 5 0 (.act .tryPersist))).any (fun s₂ =>
        decide ((s₂.cluster.nodes 0).clock = 5) &&
          ((tickSystem duo Nat).exec System.Always s₂ firstTurn).any (fun s₃ =>
            ((tickSystem duo Nat).step s₃ (.atTime 11 0 (.act .tryPersist))).any (fun s₄ =>
              decide ((s₄.cluster.nodes 0).clock = 11)))) = true := by decide +kernel
  obtain ⟨s₂, hfirst, hrun⟩ := (Option.any_eq_true _ _).1 hrun
  obtain ⟨hclock₂, hrun⟩ := Bool.and_eq_true_iff.1 hrun
  obtain ⟨s₃, hexec, hrun⟩ := (Option.any_eq_true _ _).1 hrun
  obtain ⟨s₄, hsecond, hclock₄⟩ := (Option.any_eq_true _ _).1 hrun
  exact ⟨s₂, s₄, of_decide_eq_true hclock₂, of_decide_eq_true hclock₄,
    turns_apart ⟨rfl, _, rfl, rfl⟩ hfirst (System.exec_steps hexec) ⟨rfl, _, rfl, rfl⟩ hsecond⟩

end Quaso
