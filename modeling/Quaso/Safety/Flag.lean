import Quaso.Safety.Term

/-!
# The flag that the clients see

`is_leader` is written by `Raft::transition_wrapper` and
`Raft::transition_to_term` together with the role; the handlers write the role
only, through `State::transition_to_term`.

* `Node.Flagged` — the flag says whether the node leads.
* `Node.flagged_iff` — a step keeps that exactly when no handler deposes a leader.
* `isLeader_agrees` — the flag along a run.
-/

namespace Quaso

variable {T : Type} {conf : Config} {env : Env} {n n' : Node T} {action : Action T}
  {effect : Effect T}

/-- The flag is the role. -/
def Node.Flagged (n : Node T) : Prop := n.isLeader = true ↔ n.state.nodeType = .leader

/-- Only a handler can depose a leader. -/
theorem FlagOk.of_handled (haction : n.handled action = none) : FlagOk n action := by
  simp [FlagOk, deposes, haction]

/-- A step that leaves role and flag alone. -/
theorem Node.Flagged.keep (hflag : n.Flagged) (hrole : n'.state.nodeType = n.state.nodeType)
    (hleader : n'.isLeader = n.isLeader) : n'.Flagged := by
  rw [Flagged, hrole, hleader]
  exact hflag

/-- A node that a handler makes a follower has the right flag if it was no leader. -/
theorem Node.Flagged.follower (hflag : n.Flagged) (hrole : n'.state.nodeType = .follower)
    (hleader : n'.isLeader = n.isLeader) : n'.Flagged ↔ n.state.nodeType ≠ .leader := by
  have hflag' : n.isLeader = true ↔ n.state.nodeType = .leader := hflag
  rw [Flagged, hrole, hleader, hflag']
  simp

/-- **Exactly the steps of `FlagOk` keep the flag.** -/
theorem Node.flagged_iff (h : Node.Step conf env n action n' effect) (hflag : n.Flagged) :
    n'.Flagged ↔ FlagOk n action := by
  cases h with
  | handleGrant written cid req listener effect hlock hlistener hgrant =>
    refine Iff.trans (hflag.follower rfl rfl) ?_
    simp [FlagOk, deposes, Node.handled, hlistener, hgrant]
  | handleAppend written cid req commit sent listener effect hlock hlistener haccept =>
    refine Iff.trans (hflag.follower rfl rfl) ?_
    simp [FlagOk, deposes, Node.handled, hlistener, haccept]
  | handlePing written cid req listener effect hlock hlistener =>
    exact iff_of_true hflag (by simp [FlagOk, deposes, Node.handled, hlistener])
  | handleRefuse written cid req listener effect hlock hlistener hstop
  | handleReject written cid req listener effect hlock hlistener hstop =>
    exact iff_of_true hflag (by simp [FlagOk, deposes, Node.handled, hlistener, hstop])
  | becomeCandidate cid htick | timedOut cid htick | settle cid term htick
  | takeLead cid req log htick =>
    refine iff_of_true ?_ (.of_handled rfl)
    simp [Flagged, State.transition, State.transitionToTerm]
  | skip action htick haction =>
    exact iff_of_true hflag (.of_handled (handled_of_skip haction))
  | tickDies action haction htick =>
    exact iff_of_true hflag (.of_handled (handled_of_tickDies haction))
  | electionSkip req conn cid conns answer hanswer htick =>
    exact iff_of_true hflag (.of_handled rfl)
  | electionNext req conn cid conns resp state htick hcount =>
    obtain ⟨votes, _, rfl⟩ := Raft.countVote_eq_next hcount
    exact iff_of_true hflag (.of_handled rfl)
  | electionWon req conn cid conns resp state htick hcount =>
    obtain ⟨votes, _, _, rfl⟩ := Raft.countVote_eq_won hcount
    exact iff_of_true hflag (.of_handled rfl)
  | commit order tick htick =>
    exact iff_of_true (hflag.keep (by simp) rfl) (.of_handled rfl)
  | heartbeatReply conn logSize cid conns resp htick =>
    exact iff_of_true (hflag.keep (by simp) rfl) (.of_handled rfl)
  | appendEntry value =>
    exact iff_of_true (hflag.keep (by simp) rfl) (.of_handled rfl)
  | persist | clearFlag | heartbeatStart | heartbeatSend | heartbeatNone | heartbeatEnd | becoming
  | electionStart | electionEnd | electionTimeout | electionSend | electionDenied | accept
  | abortListener =>
    exact iff_of_true hflag (.of_handled rfl)

/-- Along a run whose steps all meet `FlagOk` the flag is the role. -/
theorem Node.flagged_of_reachable (h : (nodeSystem conf T).Reachable (OnAction FlagOk) n) :
    n.Flagged := by
  refine h.invariant ?_ ?_
  · rintro n ⟨env, rfl⟩
    simp [Flagged, Node.start, State.new, VolatileState.initState]
  · intro n l n' _ hflag hok hl
    obtain ⟨effect, hstep⟩ := nodeSystem_step hl
    exact (Node.flagged_iff hstep hflag).2 hok

/-- **The leader flag.**  In a run whose steps all meet `FlagOk` a node between two
operations shows the flag exactly while it leads, and the next step keeps flag and role
together exactly when it meets `FlagOk` too. -/
theorem isLeader_agrees (h : (nodeSystem conf T).Reachable (OnAction FlagOk) n) :
    (n.tick.isIdle = true → (n.isLeader = true ↔ n.state.nodeType = .leader)) ∧
      ∀ l n', (nodeSystem conf T).step n l = some n' →
        ((n'.isLeader = true ↔ n'.state.nodeType = .leader) ↔ FlagOk n l.2) := by
  have hflag := Node.flagged_of_reachable h
  refine ⟨fun _ => hflag, fun l n' hl => ?_⟩
  obtain ⟨effect, hstep⟩ := nodeSystem_step hl
  exact Node.flagged_iff hstep hflag

/-- An election that the node wins with the vote of its peer. -/
def wonElection : List (Env × Action Nat) :=
  [(.atTime 200, .transitionCandidate), (.atTime 200, .advance 0), (.atTime 200, .advance 0),
    (.atTime 200, .advance 0), (.atTime 201, .voteAnswer (.reply ⟨2, 1, true⟩)),
    (.atTime 201, .advance 0)]

/-- The winner shows the flag. -/
theorem isLeader_agrees_won : ∃ n : Node Nat, n.state.nodeType = .leader ∧ n.isLeader = true := by
  obtain ⟨n, hn, hidle, hrole⟩ := System.exec_any (nodeSystem pairConf Nat) (OnAction FlagOk)
    (Node.start pairConf (.atTime 0)) wonElection
    (P := fun n => n.tick.isIdle = true ∧ n.state.nodeType = .leader) (by decide +kernel)
  exact ⟨n, hrole, ((isLeader_agrees ⟨_, ⟨_, rfl⟩, hn⟩).1 hidle).2 hrole⟩

/-- A leader of term 1 accepts the heartbeat of a leader of term 2: it follows, and still
shows the flag. -/
theorem isLeader_not_agrees : ¬ ∀ (conf : Config) (n : Node Nat),
    (nodeSystem conf Nat).Reachable System.Always n → n.tick.isIdle = true →
      (n.isLeader = true ↔ n.state.nodeType = .leader) := by
  intro hall
  obtain ⟨n, hn, hidle, hflag, hrole⟩ := System.exec_any (nodeSystem pairConf Nat) System.Always
    (Node.start pairConf (.atTime 0))
    (wonElection ++
      [(.atTime 202, .accept 0 (.appendEntries ⟨2, 2, 0, 0, [], 0⟩)), (.atTime 202, .handle true)])
    (P := fun n => n.tick.isIdle = true ∧ n.isLeader = true ∧ n.state.nodeType = .follower)
    (by decide +kernel)
  have hleader := (hall pairConf n ⟨_, ⟨_, rfl⟩, hn⟩ hidle).1 hflag
  rw [hrole] at hleader
  cases hleader

end Quaso
