import Quaso.Raft.Disk
import Quaso.Safety.Agreement

/-!
# Nodes that come back

A node that is started again has its term, its vote and its log, and nothing else: it
follows, its commit index is 0, and its two tasks are at their beginnings.  None of what
makes the cluster safe rests on the rest, with one exception: between a denial and the
installation of its term a node has forgotten the vote of its present term.

* `Node.rejoin` — a node that is started again from the state that it had.
* `rejoinSystem` — a cluster whose nodes may do so at any time; `RejoinOk` — except after
  a denial.
* `Cluster.Rejoins` — what is known of such a step.
* `Cluster.SafetySound` — all invariants of the safety theorems, and that they survive it.
-/

namespace Quaso

variable {n : Nat} {C : ClusterConfig n} {T : Type}

/-- A node that is started again from its own persistent state.  The votes it has cast and
the entries it has delivered are those of all its lives. -/
def Node.rejoin (conf : Config) (env : Env) (m : Node T) : Node T :=
  { Node.boot conf env m.state.toPersistentState with cast := m.cast, delivered := m.delivered }

/-- What happens in a cluster whose nodes are started again. -/
inductive RejoinLabel (n : Nat) (T : Type) where
  | step (l : Label n T)
  /-- Node `i` is started again. -/
  | rejoin (i : Fin n) (env : Env)

/-- A cluster whose nodes may be started again, as a transition system. -/
def rejoinSystem (C : ClusterConfig n) (T : Type) : System (Cluster C T) (RejoinLabel n T) where
  Init := (clusterSystem C T).Init
  step := fun s l =>
    match l with
    | .step l => s.step l
    | .rejoin i env => some ⟨s.setNode i ((s.nodes i).rejoin (C.conf i) env), s.conns⟩

/-- The steps meet `ok`, and no node is started again between a denial and the
installation of its term. -/
def RejoinOk (ok : Node T → Action T → Prop) (s : Cluster C T) : RejoinLabel n T → Prop
  | .step l => Lift ok s l
  | .rejoin i _ => (s.nodes i).tick.isDenied = false

namespace Cluster

variable {s s' : Cluster C T} {i : Fin n} {w : Writers n T} {b : Ballots n T}

/-- What is known of a step in which node `i` is started again. -/
structure Rejoins (s s' : Cluster C T) (i : Fin n) : Prop where
  conns : s'.conns = s.conns
  persistent : ∀ j, (s'.nodes j).state.toPersistentState = (s.nodes j).state.toPersistentState
  cast : ∀ j, (s'.nodes j).cast = (s.nodes j).cast
  delivered : ∀ j, (s'.nodes j).delivered = (s.nodes j).delivered
  /-- A node that is not at its beginning is another one, which has not moved. -/
  same : ∀ j, s'.nodes j = s.nodes j ∨
    ((s'.nodes j).tick = .idle ∧ (s'.nodes j).listener = .accepting ∧
      (s'.nodes j).state.nodeType = .follower ∧ (s'.nodes j).state.commitedIndex = 0 ∧
      (s.nodes j).tick.isDenied = false)

/-- **What a rejoin is.** -/
theorem rejoin_cases {ok : Node T → Action T → Prop} {env : Env}
    (hok : RejoinOk ok s (.rejoin i env))
    (h : (rejoinSystem C T).step s (.rejoin i env) = some s') : s.Rejoins s' i := by
  have hself : s'.nodes i = (s.nodes i).rejoin (C.conf i) env := by
    rw [← Option.some.inj h]
    exact s.setNode_self _ _
  have hothers : ∀ j, j ≠ i → s'.nodes j = s.nodes j := by
    rw [← Option.some.inj h]
    exact fun j hj => s.setNode_of_ne _ hj
  have hkept : ∀ {α : Type} (f : Node T → α),
      f ((s.nodes i).rejoin (C.conf i) env) = f (s.nodes i) →
        ∀ j, f (s'.nodes j) = f (s.nodes j) := by
    intro α f hf j
    by_cases hj : j = i
    · rw [hj, hself, hf]
    · rw [hothers j hj]
  refine ⟨by rw [← Option.some.inj h], hkept (fun m => m.state.toPersistentState) rfl,
    hkept Node.cast rfl, hkept Node.delivered rfl, fun j => ?_⟩
  by_cases hj : j = i
  · subst hj
    rw [hself]
    exact Or.inr ⟨rfl, rfl, rfl, rfl, hok⟩
  · exact Or.inl (hothers j hj)

namespace Rejoins

variable (h : s.Rejoins s' i)

include h

theorem log (j : Fin n) : (s'.nodes j).state.log = (s.nodes j).state.log :=
  congrArg PersistentState.log (h.persistent j)

theorem nodeTerm (j : Fin n) : (s'.nodes j).state.nodeTerm = (s.nodes j).state.nodeTerm :=
  congrArg PersistentState.nodeTerm (h.persistent j)

theorem votedFor (j : Fin n) : (s'.nodes j).state.votedFor = (s.nodes j).state.votedFor :=
  congrArg PersistentState.votedFor (h.persistent j)

theorem logs : s'.logs = s.logs := funext h.log

theorem of_leader {j : Fin n} (hrole : (s'.nodes j).state.nodeType = .leader) :
    s'.nodes j = s.nodes j := by
  rcases h.same j with hsame | ⟨_, _, hfollower, _⟩
  · exact hsame
  · rw [hfollower] at hrole
    cases hrole

theorem of_tick {j : Fin n} (htick : (s'.nodes j).tick ≠ .idle) : s'.nodes j = s.nodes j :=
  (h.same j).resolve_right fun hnew => htick hnew.1

theorem of_campaign {j : Fin n} {t : NodeTerm} (hcampaign : (s'.nodes j).tick.campaign = some t) :
    s'.nodes j = s.nodes j := by
  refine h.of_tick fun htick => ?_
  rw [htick] at hcampaign
  cases hcampaign

theorem carries {cid : Nat} {j : Fin n} {dst : Addr} {req : RequestPattern T} :
    s'.Carries cid j dst req ↔ s.Carries cid j dst req := by
  unfold Carries
  rw [h.conns]

theorem responded {cid : Nat} {resp : Response} : s'.Responded cid resp ↔ s.Responded cid resp := by
  unfold Responded
  rw [h.conns]

theorem voted {j k : Fin n} {t : NodeTerm} : s'.Voted j k t ↔ s.Voted j k t := by
  unfold Voted
  rw [h.cast]

theorem hasVoted {j : Fin n} {t : NodeTerm} : (s'.nodes j).HasVoted t ↔ (s.nodes j).HasVoted t := by
  unfold Node.HasVoted
  rw [h.cast]

theorem elected {j : Fin n} {t : NodeTerm} (helected : s.Elected j t) : s'.Elected j t := by
  obtain ⟨voters, hself, hcard, hvoted⟩ := helected
  exact ⟨voters, hself, hcard, fun k hk => h.voted.2 (hvoted k hk)⟩

/-! ## The invariants -/

theorem network (hs : NetworkSound s) : NetworkSound s' := by
  refine hs.restarts h.conns fun j => (h.same j).imp (fun hsame => ?_) fun hback => ?_
  · rw [hsame]
    exact ⟨rfl, rfl, rfl⟩
  · exact ⟨hback.1, hback.2.1⟩

theorem tallied {j : Fin n} (hs : s.Tallied j (s.nodes j).tick) :
    s'.Tallied j (s'.nodes j).tick := by
  rcases h.same j with hsame | ⟨hidle, _⟩
  · rw [hsame]
    have htally : ∀ t remaining, s.Tally j t remaining → s'.Tally j t remaining := by
      rintro t remaining ⟨voters, hself, hcount, hvoted⟩
      refine ⟨voters, hself, by rw [hsame, hcount], fun k hk => ?_⟩
      exact ⟨h.voted.2 (hvoted k hk).1, (hvoted k hk).2⟩
    generalize (s.nodes j).tick = tick at hs
    cases tick with
    | election | electionWait => exact htally _ _ hs
    | won => exact h.elected hs
    | _ => trivial
  · rw [hidle]
    trivial

theorem election (hs : ElectionSound s) : ElectionSound s' where
  granted := by
    intro cid resp hresponded hgrant
    obtain ⟨j, k, req, hcarries, hcast⟩ := hs.granted cid resp (h.responded.1 hresponded) hgrant
    exact ⟨j, k, req, h.carries.2 hcarries, h.cast k ▸ hcast⟩
  tallied j := h.tallied (hs.tallied j)
  leader := by
    intro j hrole
    have hsame := h.of_leader hrole
    rw [hsame] at hrole ⊢
    exact h.elected (hs.leader j hrole)

theorem votes {j : Fin n} (hs : VotesSound (s.nodes j)) : VotesSound (s'.nodes j) where
  le_term := by
    rw [h.cast, h.nodeTerm]
    exact hs.le_term
  unique := by
    rw [h.cast]
    exact hs.unique
  recorded := by
    rcases h.same j with hsame | ⟨_, _, _, _, hsettled⟩
    · rw [hsame]
      exact hs.recorded
    · rw [h.cast, h.nodeTerm, h.votedFor]
      intro c hc
      rcases hs.recorded c hc with hvoted | ⟨t, htick, _⟩
      · exact Or.inl hvoted
      · rw [htick] at hsettled
        cases hsettled
  fresh := by
    intro htick
    have hsame := h.of_tick (j := j) (by rw [htick]; simp)
    rw [hsame] at htick ⊢
    exact hs.fresh htick

theorem phase {j : Fin n} (hs : (s.nodes j).PhaseSound (C.conf j)) :
    (s'.nodes j).PhaseSound (C.conf j) := by
  rcases h.same j with hsame | ⟨hidle, _⟩
  · rw [hsame]
    exact hs
  · rw [Node.PhaseSound, hidle]
    trivial

theorem lead (hs : LeadSound s) : LeadSound s' :=
  ⟨h.network hs.network, h.election hs.election, fun j => h.votes (hs.votes j),
    fun j => h.phase (hs.phase j)⟩

theorem ledger (hs : LedgerSound s w) : LedgerSound s' w where
  leader := by
    intro j hrole
    have hsame := h.of_leader hrole
    rw [hsame] at hrole ⊢
    exact hs.leader j hrole
  elected t j L hw := h.elected (hs.elected t j L hw)
  retired := by
    intro t j L hw hcampaign
    rw [h.of_campaign hcampaign] at hcampaign
    exact hs.retired t j L hw hcampaign
  written := hs.written
  log j := h.log j ▸ hs.log j
  bound := by
    intro j
    rw [h.log, h.nodeTerm]
    exact hs.bound j
  request cid j dst req hcarries := hs.request cid j dst req (h.carries.1 hcarries)

theorem ballots (hs : BallotSound s w b) : BallotSound s' w b where
  cast j t hvoted := h.log j ▸ hs.cast j t (h.hasVoted.1 hvoted)
  campaign := by
    intro j t hcampaign
    have hsame := h.of_campaign hcampaign
    rw [hsame] at hcampaign ⊢
    obtain ⟨hvoted, hlog⟩ := hs.campaign j t hcampaign
    exact ⟨h.voted.2 hvoted, hlog⟩
  asked := by
    intro cid j dst req hcarries
    obtain ⟨hcandidate, hvoted, hdescribes⟩ := hs.asked cid j dst req (h.carries.1 hcarries)
    exact ⟨hcandidate, h.voted.2 hvoted, hdescribes⟩
  covered := by
    intro j k t hvoted
    obtain ⟨hself, hcovers⟩ := hs.covered j k t (h.voted.1 hvoted)
    exact ⟨h.voted.2 hself, hcovers⟩
  written := hs.written

theorem holds {j : Fin n} {t : NodeTerm} {N : List (LogEntry T)} (hs : s.Holds b j t N) :
    s'.Holds b j t N where
  log := h.log j ▸ hs.log
  ballot u hu hvoted := hs.ballot u hu (h.hasVoted.1 hvoted)

theorem replication (hs : ReplicationSound s w b) : ReplicationSound s' w b where
  next := by
    intro j hrole
    have hsame := h.of_leader hrole
    rw [hsame] at hrole ⊢
    exact hs.next j hrole
  matched := by
    intro j hrole a index hmatch
    have hsame := h.of_leader hrole
    rw [hsame] at hrole hmatch
    obtain ⟨hle, k, haddr, hholds⟩ := hs.matched j hrole a index hmatch
    unfold Matches
    rw [hsame]
    exact ⟨hle, k, haddr, h.holds hholds⟩
  confirmed := by
    intro cid resp hresponded hsuccess
    obtain ⟨j, k, req, base, hcarries, hcut, hbase, hholds⟩ :=
      hs.confirmed cid resp (h.responded.1 hresponded) hsuccess
    exact ⟨j, k, req, base, h.carries.2 hcarries, hcut, hbase, h.holds hholds⟩

theorem agreement (hs : AgreementSound s w) : AgreementSound s' w where
  committed := by
    intro j k hk
    rcases h.same j with hsame | ⟨_, _, _, hzero, _⟩
    · rw [hsame] at hk ⊢
      rw [h.logs]
      exact hs.committed j k hk
    · omega
  announced := by
    intro cid j dst req hcarries
    rw [h.logs]
    exact hs.announced cid j dst req (h.carries.1 hcarries)
  delivered := by
    intro j k e hmem
    rw [h.logs]
    exact hs.delivered j k e (h.delivered j ▸ hmem)

end Rejoins

/-! ## Runs -/

/-- A step that keeps a term to one leader keeps the elections sound. -/
theorem LeadSound.moves {l : Label n T} {action : Action T} {effect : Effect T}
    (h : LeadSound s) (hm : s.Moves s' l action effect) (hok : LeadOk (s.nodes l.node) action) :
    LeadSound s' where
  network := h.network.step hm
  election := h.election.step hm h.network (h.phase _)
  votes := by
    intro j
    by_cases hj : j = l.node
    · subst hj
      exact (h.votes _).step hm.acting hok.1
    · rw [hm.others j hj]
      exact h.votes j
  phase := by
    intro j
    by_cases hj : j = l.node
    · subst hj
      exact (h.phase _).step hm.acting hok.2
    · rw [hm.others j hj]
      exact h.phase j

theorem Moves.delivered {l : Label n T} {action : Action T} {effect : Effect T}
    (hm : s.Moves s' l action effect) {j : Fin n} {p : Nat × LogEntry T}
    (h : p ∈ (s.nodes j).delivered) : p ∈ (s'.nodes j).delivered := by
  by_cases hj : j = l.node
  · subst hj
    cases hm.acting.logMove with
    | keep _ _ hdelivered => exact hdelivered ▸ h
    | append _ _ _ hdelivered => exact hdelivered ▸ h
    | commit _ _ _ _ hdelivered =>
      rw [hdelivered]
      exact List.mem_append_left _ h
    | accept _ _ _ _ _ _ _ _ _ _ hdelivered =>
      rw [hdelivered]
      exact List.mem_append_left _ h
  · rw [hm.others j hj]
    exact h

section Lives

variable {ok : Node T → Action T → Prop}

/-- Once elected is elected at every later moment, in whatever life. -/
theorem Elected.lives {t : NodeTerm} (h : s.Elected i t)
    (hsteps : (rejoinSystem C T).Steps (RejoinOk ok) s s') : s'.Elected i t := by
  refine hsteps.invariant (I := fun s => s.Elected i t) ?_ h
  intro s l s' h hok hl
  cases l with
  | step l =>
    obtain ⟨_, _, hm⟩ := step_cases hl
    exact hm.elected h
  | rejoin j env => exact (rejoin_cases hok hl).elected h

/-- What is delivered stays delivered. -/
theorem delivered_lives {p : Nat × LogEntry T} (h : p ∈ (s.nodes i).delivered)
    (hsteps : (rejoinSystem C T).Steps (RejoinOk ok) s s') : p ∈ (s'.nodes i).delivered := by
  refine hsteps.invariant (I := fun s => p ∈ (s.nodes i).delivered) ?_ h
  intro s l s' h hok hl
  cases l with
  | step l =>
    obtain ⟨_, _, hm⟩ := step_cases hl
    exact hm.delivered h
  | rejoin j env => exact (rejoin_cases hok hl).delivered i ▸ h

end Lives

/-- The elections of a cluster whose nodes are started again are sound. -/
theorem LeadSound.lives (h : (rejoinSystem C T).Reachable (RejoinOk LeadOk) s) : LeadSound s := by
  refine h.invariant ?_ ?_
  · exact fun s hinit => .of_reachable (fun _ _ hok => hok) ⟨s, hinit, .refl _ _ s⟩
  · intro s l s' _ hs hok hl
    cases l with
    | step l =>
      obtain ⟨action, effect, hm⟩ := step_cases hl
      exact hs.moves hm (hok action hm.resolved)
    | rejoin i env => exact (rejoin_cases hok hl).lead hs

/-- The invariants of the safety theorems. -/
structure SafetySound (s : Cluster C T) : Prop where
  lead : LeadSound s
  record : ∃ w b, Recorded s w b ∧ AgreementSound s w

namespace SafetySound

theorem start (C : ClusterConfig n) (T : Type) (boot : Fin n → Env) :
    SafetySound (Cluster.start C T boot) where
  lead := .of_reachable (fun _ _ h => h) ⟨_, ⟨boot, rfl⟩, .refl _ _ _⟩
  record := ⟨_, _, .start C T boot, .start C T boot⟩

/-- **A rejoin is safe.** -/
theorem rejoins (hs : SafetySound s) (h : s.Rejoins s' i) : SafetySound s' where
  lead := h.lead hs.lead
  record :=
    let ⟨w, b, hrec, ha⟩ := hs.record
    ⟨w, b, ⟨h.ledger hrec.ledger, h.ballots hrec.ballots, h.replication hrec.replication⟩,
      h.agreement ha⟩

theorem step (hquorum : ∀ i, n < 2 * getQuorumLength (C.conf i)) {l : RejoinLabel n T}
    (hs : SafetySound s) (hok : RejoinOk ExtendOk s l)
    (h : (rejoinSystem C T).step s l = some s') : SafetySound s' := by
  cases l with
  | step l =>
    obtain ⟨action, effect, hm⟩ := step_cases h
    have hext := hok action hm.resolved
    have hlead' := hs.lead.moves hm hext.1
    obtain ⟨w, b, hrec, ha⟩ := hs.record
    obtain ⟨hstep, hrec'⟩ := hrec.moves hquorum hm hext hs.lead hlead'
    exact ⟨hlead', _, _, hrec', ha.step hstep hrec.replication⟩
  | rejoin i env => exact hs.rejoins (rejoin_cases hok h)

theorem of_reachable (hquorum : ∀ i, n < 2 * getQuorumLength (C.conf i))
    (h : (rejoinSystem C T).Reachable (RejoinOk ExtendOk) s) : SafetySound s := by
  refine h.invariant ?_ ?_
  · rintro s ⟨boot, rfl⟩
    exact start C T boot
  · exact fun s l s' _ hs hok hl => hs.step hquorum hok hl

end SafetySound
end Cluster
end Quaso
