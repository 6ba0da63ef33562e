import Quaso.Raft.Cluster
import Quaso.Safety.Conditions

/-!
# What a node knows in each phase

While the tick task holds the state lock no handler runs, so what it found when
it took the lock is still there.  `Node.PhaseSound` says, for every place the
tick task can stand at, what that is.  After the count of the votes the lock is
free: there the invariant needs that no handler changes the term or the log.
-/

namespace Quaso

variable {T : Type} {conf : Config} {env : Env} {n n' : Node T} {action : Action T}
  {effect : Effect T}

/-- What holds at a place of the tick task. -/
def Tick.Sound (conf : Config) (state : State T) : Tick T → Prop
  | .idle | .dead => True
  | .becoming | .candidate | .timedOut | .denied _ => state.nodeType ≠ .leader
  | .heartbeat conns => state.nodeType = .leader ∧ conns <:+ conf.connections
  | .heartbeatWait conn logSize _ conns =>
    state.nodeType = .leader ∧ (conn :: conns) <:+ conf.connections ∧
      logSize = state.log.length
  | .election req conns =>
    state.nodeType ≠ .leader ∧ conns <:+ conf.connections ∧ req = Raft.voteRequest conf state
  | .electionWait req conn _ conns =>
    state.nodeType ≠ .leader ∧ (conn :: conns) <:+ conf.connections ∧
      req = Raft.voteRequest conf state
  | .won req log =>
    state.nodeType ≠ .leader ∧ req = Raft.voteRequest conf state ∧ log = state.log ∧
      state.nextIndex = IndexMap.insertAll ∅ conf.connections (log.length + 1) ∧
      state.matchIndex = IndexMap.insertAll ∅ conf.connections 0

/-- The node is in a state that fits the place of its tick task. -/
def Node.PhaseSound (conf : Config) (n : Node T) : Prop := n.tick.Sound conf n.state

/-- A step that leaves the role, the term, the log and the two maps alone keeps what
holds at any place. -/
theorem Tick.Sound.congr {state state' : State T} {tick : Tick T} (h : tick.Sound conf state)
    (hrole : state'.nodeType = state.nodeType) (hterm : state'.nodeTerm = state.nodeTerm)
    (hlog : state'.log = state.log) (hnext : state'.nextIndex = state.nextIndex)
    (hmatch : state'.matchIndex = state.matchIndex) : tick.Sound conf state' := by
  have hreq : Raft.voteRequest conf state' = Raft.voteRequest conf state := by
    unfold Raft.voteRequest
    rw [hlog, hterm]
  cases tick with
  | idle | dead => trivial
  | _ => simpa only [Tick.Sound, hrole, hlog, hnext, hmatch, hreq] using h

/-- Where the lock is free, the role alone matters, except when an election is won. -/
theorem Tick.Sound.of_unlocked {state state' : State T} {tick : Tick T}
    (h : tick.Sound conf state) (hlock : tick.holdsLock = false)
    (hrole : state.nodeType ≠ .leader → state'.nodeType ≠ .leader)
    (hwon : ∀ req log, tick = .won req log → state'.nodeTerm = state.nodeTerm ∧
      state'.log = state.log ∧ state'.nextIndex = state.nextIndex ∧
      state'.matchIndex = state.matchIndex) : tick.Sound conf state' := by
  cases tick with
  | won req log =>
    obtain ⟨hterm, hlog, hnext, hmatch⟩ := hwon req log rfl
    obtain ⟨hnot, hrest⟩ := h
    refine ⟨hrole hnot, ?_⟩
    simpa only [Raft.voteRequest, hterm, hlog, hnext, hmatch] using hrest
  | idle | dead => trivial
  | becoming | candidate | timedOut | denied => exact hrole h
  | heartbeat | heartbeatWait | election | electionWait => simp [Tick.holdsLock] at hlock

namespace Node.PhaseSound

/-- What holds at the place where the tick task stands. -/
theorem at_tick (hn : n.PhaseSound conf) {tick : Tick T} (htick : n.tick = tick) :
    tick.Sound conf n.state := htick ▸ hn

/-- **Every step that does not change the term or the log after the count of the votes
keeps the phases sound.** -/
theorem step (h : Node.Step conf env n action n' effect) (hok : GapOk n action)
    (hn : n.PhaseSound conf) : n'.PhaseSound conf := by
  cases h with
  | skip | persist | clearFlag | accept | abortListener | handlePing | handleRefuse
  | handleReject =>
    exact hn.congr rfl rfl rfl rfl rfl
  | tickDies => trivial
  | heartbeatStart htick hrole => exact ⟨hrole, List.suffix_rfl⟩
  | heartbeatSend cid conn conns req htick =>
    obtain ⟨hrole, hsuffix⟩ := hn.at_tick htick
    exact ⟨hrole, hsuffix, rfl⟩
  | heartbeatReply conn logSize cid conns resp htick =>
    obtain ⟨hrole, hsuffix, _⟩ := hn.at_tick htick
    exact ⟨by simpa using hrole, (List.suffix_cons conn conns).trans hsuffix⟩
  | heartbeatNone conn logSize cid conns htick =>
    obtain ⟨hrole, hsuffix, _⟩ := hn.at_tick htick
    exact ⟨hrole, (List.suffix_cons conn conns).trans hsuffix⟩
  | heartbeatEnd | electionEnd | settle | takeLead => trivial
  | timedOut => trivial
  | commit order tick htick htick' => rcases htick' with rfl | rfl <;> trivial
  | becoming htick hrole => exact hrole
  | becomeCandidate cid htick => simp [PhaseSound, Tick.Sound, State.transition]
  | electionStart cid htick =>
    exact ⟨hn.at_tick htick, List.suffix_rfl, rfl⟩
  | electionTimeout cid req conn conns htick =>
    exact (hn.at_tick htick).1
  | electionSend cid req conn conns htick =>
    obtain ⟨hrole, hsuffix, hreq⟩ := hn.at_tick htick
    exact ⟨hrole, hsuffix, hreq⟩
  | electionSkip req conn cid conns answer hanswer htick =>
    obtain ⟨hrole, hsuffix, hreq⟩ := hn.at_tick htick
    exact ⟨hrole, (List.suffix_cons conn conns).trans hsuffix, hreq⟩
  | electionNext req conn cid conns resp state htick hcount =>
    obtain ⟨votes, _, rfl⟩ := Raft.countVote_eq_next hcount
    obtain ⟨hrole, hsuffix, hreq⟩ := hn.at_tick htick
    exact ⟨hrole, (List.suffix_cons conn conns).trans hsuffix, hreq⟩
  | electionDenied req conn cid conns resp htick =>
    exact (hn.at_tick htick).1
  | electionWon req conn cid conns resp state htick hcount =>
    obtain ⟨votes, _, _, rfl⟩ := Raft.countVote_eq_won hcount
    obtain ⟨hrole, _, hreq⟩ := hn.at_tick htick
    exact ⟨hrole, hreq, rfl, rfl, rfl⟩
  | appendEntry value hlock =>
    by_cases hrole : n.state.nodeType = .leader
    · refine hn.of_unlocked hlock (fun _ => by simpa) fun q log htick => ?_
      exact absurd hrole (hn.at_tick htick).1
    · exact hn.congr (by simp) (by simp) (by rw [Raft.appendEntry_of_not_leader hrole]) (by simp)
        (by simp)
  | handleGrant written cid req listener effect hlock hlistener hgrant =>
    refine hn.of_unlocked hlock (fun _ => by simp) fun q log htick => ?_
    have hterm : req.term = n.state.nodeTerm := by
      simpa [GapOk, wonWrite, handled, hlistener, htick, hgrant] using hok
    simp [hterm]
  | handleAppend written cid req commit sent listener effect hlock hlistener haccept =>
    refine hn.of_unlocked hlock (fun _ => by simp) fun q log htick => ?_
    obtain ⟨⟨hterm, hprev⟩, hentries⟩ : (req.term = n.state.nodeTerm ∧
        req.prevLogIndex = n.state.log.length) ∧ req.entries = [] := by
      simpa [GapOk, wonWrite, handled, hlistener, htick, haccept] using hok
    simp [hterm, hprev, hentries]

/-- A node that campaigns does not lead. -/
theorem not_leader (hn : n.PhaseSound conf) {t : NodeTerm} (hcampaign : n.tick.campaign = some t) :
    n.state.nodeType ≠ .leader := by
  cases htick : n.tick with
  | election | electionWait | won => exact (hn.at_tick htick).1
  | _ =>
    rw [htick] at hcampaign
    cases hcampaign

/-- What a step that ends in the leader role does to the two index maps. -/
theorem maps_cases (hn : n.PhaseSound conf) (h : Node.Step conf env n action n' effect)
    (hrole : n'.state.nodeType = .leader) :
    (n.state.nodeType = .leader ∧ n'.state.nextIndex = n.state.nextIndex ∧
      n'.state.matchIndex = n.state.matchIndex) ∨
    (∃ conn logSize cid conns resp, n.state.nodeType = .leader ∧
      n.tick = .heartbeatWait conn logSize cid conns ∧ action = .appendAnswer (.reply resp) ∧
      n'.state = Raft.heartbeatResponse n.state conn logSize resp) ∨
    (n.state.nodeType = .leader ∧ n'.state = Raft.heartbeatEnd conf env n.state) ∨
    ∃ req log, n.tick = .won req log ∧ n'.state = { n.state with nodeType := .leader } := by
  cases h with
  | heartbeatReply conn logSize cid conns resp htick =>
    exact Or.inr (Or.inl ⟨conn, logSize, cid, conns, resp, by simpa using hrole, htick, rfl, rfl⟩)
  | heartbeatEnd => exact Or.inr (Or.inr (Or.inl ⟨hrole, rfl⟩))
  | takeLead cid req log htick =>
    exact Or.inr (Or.inr (Or.inr ⟨req, log, htick, by simp [State.transition]⟩))
  | becomeCandidate | timedOut | settle => cases hrole
  | handleGrant | handleAppend => simp at hrole
  | commit | appendEntry => exact Or.inl ⟨by simpa using hrole, by simp, by simp⟩
  | electionNext req conn cid conns resp state htick hcount =>
    obtain ⟨votes, _, rfl⟩ := Raft.countVote_eq_next hcount
    exact Or.inl ⟨hrole, rfl, rfl⟩
  | electionWon req conn cid conns resp state htick hcount =>
    obtain ⟨votes, _, _, rfl⟩ := Raft.countVote_eq_won hcount
    exact absurd hrole (hn.at_tick htick).1
  | _ => exact Or.inl ⟨hrole, rfl, rfl⟩

/-- The phases are sound in every run of a cluster without such changes. -/
theorem of_reachable {m : Nat} {C : ClusterConfig m} {ok : Node T → Action T → Prop}
    (hok : ∀ n action, ok n action → GapOk n action) {s : Cluster C T}
    (h : (clusterSystem C T).Reachable (Lift ok) s) (i : Fin m) :
    (s.nodes i).PhaseSound (C.conf i) :=
  Cluster.reachable_node (I := fun i n => n.PhaseSound (C.conf i)) (fun _ _ => trivial)
    (fun _ _ _ _ _ _ hstep hw hn => hn.step hstep (hok _ _ hw)) h i

end Node.PhaseSound
end Quaso
