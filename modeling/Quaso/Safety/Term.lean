import Quaso.Raft.Cluster
import Quaso.Safety.Conditions

/-!
# The term of a node

`Node.nodeTerm_le_iff` says of every single step exactly when it does not lower
the node's term: unless it accepts an append request of an older term, raises
the term past `u32::MAX`, or installs the term of a denial late.
-/

namespace Quaso

variable {T : Type} {conf : Config} {env : Env} {n n' : Node T} {action : Action T}
  {effect : Effect T}

/-- Raising the term does not lower it, except at `u32::MAX`. -/
theorem le_raise_iff {t : NodeTerm} : t ≤ t + 1 ↔ t ≠ Fin.last _ := by
  by_cases hlast : t = Fin.last _
  · subst hlast
    simp
  · have hval : (t + 1).val = t.val + 1 := Fin.val_add_one_of_lt (Fin.lt_last_iff_ne_last.2 hlast)
    exact iff_of_true (Fin.le_def.2 (by omega)) hlast

theorem ne_raise (t : NodeTerm) : t ≠ t + 1 := by
  intro h
  have hval := congrArg Fin.val h
  rw [Fin.val_add] at hval
  have := t.isLt
  simp only [Fin.val_one] at hval
  omega

/-- Between two operations, and while the tick task holds the lock, only a
handler can break `TermOk`. -/
theorem TermOk.of_tick (htick : n.tick = .idle ∨ n.tick.holdsLock = true)
    (haction : n.handled action = none) : TermOk n action := by
  refine ⟨by simp [staleAppend, haction], ?_, ?_⟩
  · cases action with
    | advance cid => cases h : n.tick <;> simp_all [termWraps, Tick.holdsLock]
    | _ => rfl
  · cases action with
    | advance cid => cases h : n.tick <;> simp_all [lateSettle, Node.settles, Tick.holdsLock]
    | _ => rfl

/-- **Exactly the steps of `TermOk` do not lower the term.** -/
theorem Node.nodeTerm_le_iff (h : Node.Step conf env n action n' effect) :
    n.state.nodeTerm ≤ n'.state.nodeTerm ↔ TermOk n action := by
  cases h with
  | becomeCandidate cid htick | timedOut cid htick =>
    simp [TermOk, staleAppend, termWraps, lateSettle, Node.handled, Node.settles, htick,
      State.transition, le_raise_iff]
  | settle cid term htick =>
    simp [TermOk, staleAppend, termWraps, lateSettle, Node.handled, Node.settles, htick,
      State.transitionToTerm]
  | takeLead cid req log htick =>
    simp [TermOk, staleAppend, termWraps, lateSettle, Node.handled, Node.settles, htick,
      State.transition]
  | electionStart cid htick =>
    simp [TermOk, staleAppend, termWraps, lateSettle, Node.handled, Node.settles, htick,
      Raft.startElection, State.resetElectionTimeout]
  | handleGrant written cid req listener effect hlock hlistener hgrant =>
    simp [TermOk, staleAppend, termWraps, lateSettle, Node.handled, Node.settles, hlistener,
      (Server.grants_iff.1 hgrant).1]
  | handleAppend written cid req commit sent listener effect hlock hlistener haccept =>
    simp [TermOk, staleAppend, termWraps, lateSettle, Node.handled, Node.settles, hlistener,
      haccept]
  | handlePing written cid req listener effect hlock hlistener
  | handleRefuse written cid req listener effect hlock hlistener =>
    simp [TermOk, staleAppend, termWraps, lateSettle, Node.handled, Node.settles, hlistener]
  | handleReject written cid req listener effect hlock hlistener haccept =>
    simp [TermOk, staleAppend, termWraps, lateSettle, Node.handled, Node.settles, hlistener,
      haccept]
  | appendEntry value | accept cid req | abortListener =>
    simp [TermOk, staleAppend, termWraps, lateSettle, Node.handled, Node.settles]
  | skip action htick haction =>
    exact iff_of_true le_rfl (.of_tick (Or.inl htick) (Node.handled_of_skip haction))
  | tickDies action haction htick =>
    exact iff_of_true le_rfl (.of_tick htick (Node.handled_of_tickDies haction))
  | persist htick | clearFlag htick | heartbeatStart htick | becoming htick =>
    exact iff_of_true le_rfl (.of_tick (Or.inl htick) rfl)
  | commit order tick htick =>
    exact iff_of_true (by simp) (.of_tick (Or.inl htick) rfl)
  | heartbeatSend cid conn conns req htick | heartbeatEnd cid htick | electionEnd cid req htick
  | electionTimeout cid req conn conns htick | electionSend cid req conn conns htick
  | heartbeatNone conn logSize cid conns htick
  | electionDenied req conn cid conns resp htick =>
    exact iff_of_true le_rfl (.of_tick (Or.inr (by rw [htick]; rfl)) rfl)
  | electionSkip req conn cid conns answer hanswer htick =>
    exact iff_of_true le_rfl (.of_tick (Or.inr (by rw [htick]; rfl)) rfl)
  | heartbeatReply conn logSize cid conns resp htick =>
    exact iff_of_true (by simp) (.of_tick (Or.inr (by rw [htick]; rfl)) rfl)
  | electionNext req conn cid conns resp state htick hcount =>
    obtain ⟨votes, _, rfl⟩ := Raft.countVote_eq_next hcount
    exact iff_of_true le_rfl (.of_tick (Or.inr (by rw [htick]; rfl)) rfl)
  | electionWon req conn cid conns resp state htick hcount =>
    obtain ⟨votes, _, _, rfl⟩ := Raft.countVote_eq_won hcount
    exact iff_of_true le_rfl (.of_tick (Or.inr (by rw [htick]; rfl)) rfl)

/-- **Term monotonicity.**  Along a run whose steps all meet `TermOk` the term never
falls, and after such a run the next step keeps it exactly when it meets
`TermOk` too. -/
theorem nodeTerm_monotone (hreach : (nodeSystem conf T).Reachable (OnAction TermOk) n)
    (h : (nodeSystem conf T).Steps (OnAction TermOk) n n') :
    n.state.nodeTerm ≤ n'.state.nodeTerm ∧
      ∀ l n'', (nodeSystem conf T).step n' l = some n'' →
        (n'.state.nodeTerm ≤ n''.state.nodeTerm ↔ TermOk n' l.2) := by
  constructor
  · refine h.relates (R := fun n n' => n.state.nodeTerm ≤ n'.state.nodeTerm) (fun _ => le_rfl)
      le_trans ?_ hreach
    intro n l n' _ hok hl
    obtain ⟨effect, hstep⟩ := nodeSystem_step hl
    exact (Node.nodeTerm_le_iff hstep).2 hok
  · intro l n'' hl
    obtain ⟨effect, hstep⟩ := nodeSystem_step hl
    exact Node.nodeTerm_le_iff hstep

/-- A node with one peer. -/
abbrev pairConf : Config := ⟨1, "a", ["b"]⟩

/-- An election that times out: the node is a candidate of term 2 afterwards. -/
def twoElections : List (Env × Action Nat) :=
  [(.atTime 200, .transitionCandidate), (.atTime 200, .advance 0), (.atTime 200, .advance 0),
    (.atTime 400, .advance 0), (.atTime 400, .advance 0)]

theorem nodeTerm_monotone_twoElections : ∃ n n' : Node Nat,
    n.state.nodeTerm = 1 ∧ n'.state.nodeTerm = 2 ∧ n.state.nodeTerm ≤ n'.state.nodeTerm := by
  obtain ⟨n, hn, hterm, hrest⟩ := System.exec_any (nodeSystem pairConf Nat)
    (OnAction TermOk) (Node.start pairConf (.atTime 0)) (twoElections.take 3)
    (P := fun n => n.state.nodeTerm = 1 ∧
      ((nodeSystem pairConf Nat).exec (OnAction TermOk) n (twoElections.drop 3)).any
        (fun n' => decide (n'.state.nodeTerm = 2)) = true) (by decide +kernel)
  obtain ⟨n', hn', hterm'⟩ := System.exec_any _ _ _ _ hrest
  exact ⟨n, n', hterm, hterm', (nodeTerm_monotone ⟨_, ⟨_, rfl⟩, hn⟩ hn').1⟩

/-- A candidate of term 2 accepts the append request of a leader of term 1 and falls
back to that term. -/
theorem nodeTerm_not_monotone : ¬ ∀ (conf : Config) (n n' : Node Nat) (l : Env × Action Nat),
    (nodeSystem conf Nat).Reachable System.Always n →
      (nodeSystem conf Nat).step n l = some n' → n.state.nodeTerm ≤ n'.state.nodeTerm := by
  intro hall
  obtain ⟨n, hn, hterm, hrest⟩ := System.exec_any (nodeSystem pairConf Nat)
    System.Always (Node.start pairConf (.atTime 0))
    (twoElections ++ [(.atTime 400, .accept 0 (.appendEntries ⟨1, 2, 0, 0, [⟨7, 1⟩], 0⟩))])
    (P := fun n => n.state.nodeTerm = 2 ∧
      ((nodeSystem pairConf Nat).step n (.atTime 400, .handle true)).any
        (fun n' => decide (n'.state.nodeTerm = 1)) = true) (by decide +kernel)
  obtain ⟨n', hstep, hterm'⟩ := (Option.any_eq_true _ _).1 hrest
  have hle := hall pairConf n n' _ ⟨_, ⟨_, rfl⟩, hn⟩ hstep
  rw [hterm, of_decide_eq_true hterm'] at hle
  exact absurd hle (by decide)

end Quaso
