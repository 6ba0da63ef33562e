import Quaso.Raft.Cluster
import Quaso.Safety.Conditions

/-!
# The committed prefix

`KeepsCommitted` says of two states of a node what the commit index promises:
it stays inside the log and does not fall, and what was below it is still there.
Every step respects it, unless an accepted request truncates the log into its
committed part.
-/

namespace Quaso

variable {T : Type} {conf : Config} {env : Env} {a b c : Node T} {action : Action T}
  {effect : Effect T}

/-- The later state keeps what the earlier one has committed. -/
def KeepsCommitted (a b : Node T) : Prop :=
  a.state.commitedIndex ≤ a.state.log.length →
    b.state.commitedIndex ≤ b.state.log.length ∧
      a.state.commitedIndex ≤ b.state.commitedIndex ∧
      b.state.log.take a.state.commitedIndex = a.state.log.take a.state.commitedIndex

namespace KeepsCommitted

theorem refl (a : Node T) : KeepsCommitted a a := fun h => ⟨h, le_rfl, rfl⟩

theorem trans (hab : KeepsCommitted a b) (hbc : KeepsCommitted b c) : KeepsCommitted a c := by
  intro ha
  obtain ⟨hb, hle, htake⟩ := hab ha
  obtain ⟨hc, hle', htake'⟩ := hbc hb
  refine ⟨hc, hle.trans hle', ?_⟩
  calc c.state.log.take a.state.commitedIndex
      = (c.state.log.take b.state.commitedIndex).take a.state.commitedIndex := by
        rw [List.take_take, min_eq_left hle]
    _ = (b.state.log.take b.state.commitedIndex).take a.state.commitedIndex := by rw [htake']
    _ = a.state.log.take a.state.commitedIndex := by rw [List.take_take, min_eq_left hle, htake]

/-- A log that is longer at its end keeps any prefix. -/
theorem of_isPrefix (hlog : a.state.log <+: b.state.log)
    (hle : a.state.commitedIndex ≤ b.state.commitedIndex)
    (hbound : a.state.commitedIndex ≤ a.state.log.length →
      b.state.commitedIndex ≤ b.state.log.length) : KeepsCommitted a b := by
  intro ha
  obtain ⟨rest, hrest⟩ := hlog
  exact ⟨hbound ha, hle, by rw [← hrest, List.take_append_of_le_length ha]⟩

end KeepsCommitted

/-- **A step that does not truncate into the committed part keeps it.** -/
theorem Node.keepsCommitted (h : Node.Step conf env a action b effect) (hok : PrefixOk a action) :
    KeepsCommitted a b := by
  cases h.logMove with
  | keep hlog hcommit =>
    exact .of_isPrefix (by rw [hlog]) hcommit.ge (by rw [hlog, hcommit]; exact id)
  | append value hrole hstate =>
    refine .of_isPrefix ?_ (by rw [hstate]) fun hle => ?_
    · rw [hstate]
      exact List.prefix_append _ _
    · rw [hstate, List.length_append]
      exact Nat.le_add_right_of_le hle
  | commit order haction horder hstate =>
    rcases (Raft.maybeCommitLogEntries_cases conf order a.state).1 with
      heq | ⟨index, freq, hcand, hrole, hlt, hle, heq⟩
    · rw [heq] at hstate
      exact .of_isPrefix (by rw [hstate]) (by rw [hstate]) (by rw [hstate]; exact id)
    · rw [heq] at hstate
      exact .of_isPrefix (by rw [hstate]) (by rw [hstate]; exact hlt.le)
        fun _ => by rw [hstate]; exact hle
  | accept cid req commit sent hlock hlistener hhandled haccept hstate hcommit =>
    intro ha
    obtain ⟨hlen, htake⟩ := h.take_log ha fun req hhandled haccept _ hlt => by
      have hbelow : a.state.commitedIndex < req.prevLogIndex := by
        simpa [PrefixOk, cutsCommitted, hhandled, haccept, hlt] using hok
      omega
    have hcommitted : b.state.commitedIndex = commit := by rw [hstate]
    rw [hcommitted]
    rcases hcommit with rfl | ⟨hlt, heq, hle⟩
    · exact ⟨hlen, le_rfl, htake⟩
    · exact ⟨hle, by omega, htake⟩

variable {n : Nat} {C : ClusterConfig n} {s s' : Cluster C T}

/-- **Committed prefix stability.**  In a run whose steps never truncate a log into its
committed part, the commit index of a node stays inside its log, and every entry
below it stays where it is. -/
theorem committed_prefix_stable (hreach : (clusterSystem C T).Reachable (Lift PrefixOk) s)
    (h : (clusterSystem C T).Steps (Lift PrefixOk) s s') (i : Fin n) :
    (s.nodes i).state.commitedIndex ≤ (s.nodes i).state.log.length ∧
      ∀ k < (s.nodes i).state.commitedIndex,
        (s'.nodes i).state.log[k]? = (s.nodes i).state.log[k]? := by
  have hkeeps : ∀ {s s' : Cluster C T}, (clusterSystem C T).Steps (Lift PrefixOk) s s' →
      KeepsCommitted (s.nodes i) (s'.nodes i) := fun h =>
    Cluster.steps_node KeepsCommitted.refl KeepsCommitted.trans
      (fun _ _ _ _ _ _ hstep hok => Node.keepsCommitted hstep hok) h i
  obtain ⟨s₀, ⟨boot, rfl⟩, hsteps⟩ := hreach
  have hbound := (hkeeps hsteps (Nat.zero_le _)).1
  refine ⟨hbound, fun k hk => ?_⟩
  have htake := (hkeeps h hbound).2.2
  have hget := congrArg (·[k]?) htake
  simpa [List.getElem?_take, hk] using hget

/-- A leader of two nodes replicates an entry, commits it, and tells its follower; on
the way it sends the heartbeat on connection 2 that is delayed. -/
def replicateOne : List (Label 2 Nat) :=
  elect 200 0 0 1 ++
  [.atTime 200 0 (.act (.appendEntry 7)), .atTime 210 0 (.act .sendHeartbeat)] ++
  exchange 210 1 0 1 ++
  commitAfter 210 2 0 [(1, 2)] ++ [.atTime 220 0 (.act .sendHeartbeat)] ++
  unanswered 220 2 0 ++ commitAfter 220 3 0 [(1, 2)] ++
  [.atTime 222 0 (.act (.appendEntry 8)), .atTime 230 0 (.act .sendHeartbeat)] ++
  exchange 230 3 0 1

theorem committed_prefix_stable_replicateOne : ∃ s s' : Cluster duo Nat,
    (s.nodes 0).state.commitedIndex = 1 ∧ (s'.nodes 0).state.log = [⟨7, 1⟩, ⟨8, 1⟩] ∧
      (s'.nodes 0).state.log[0]? = (s.nodes 0).state.log[0]? := by
  obtain ⟨s, hs, hcommit, hrest⟩ := System.exec_any (clusterSystem duo Nat)
    (Lift PrefixOk) (.start₀ duo Nat) (replicateOne.take 16)
    (P := fun s => (s.nodes 0).state.commitedIndex = 1 ∧
      ((clusterSystem duo Nat).exec (Lift PrefixOk) s (replicateOne.drop 16)).any
        (fun s' => decide ((s'.nodes 0).state.log = [⟨7, 1⟩, ⟨8, 1⟩])) = true) (by decide +kernel)
  obtain ⟨s', hs', hlog⟩ := System.exec_any _ _ _ _ hrest
  have hstable := committed_prefix_stable ⟨_, Cluster.init_start₀ duo Nat, hs⟩ hs' 0
  exact ⟨s, s', hcommit, hlog, hstable.2 0 (by omega)⟩

/-- The delayed heartbeat announces one entry and carries none: the follower, which
has two entries and has committed the first, is left with an empty log. -/
theorem committed_prefix_not_stable : ¬ ∀ s s' : Cluster duo Nat,
    (clusterSystem duo Nat).Reachable System.Always s →
      (clusterSystem duo Nat).Steps System.Always s s' → ∀ i,
        (s.nodes i).state.commitedIndex ≤ (s.nodes i).state.log.length ∧
          ∀ k < (s.nodes i).state.commitedIndex,
            (s'.nodes i).state.log[k]? = (s.nodes i).state.log[k]? := by
  intro hall
  obtain ⟨s, hs, hcommit, hlog, hrest⟩ := System.exec_any (clusterSystem duo Nat)
    System.Always (.start₀ duo Nat) replicateOne
    (P := fun s => (s.nodes 1).state.commitedIndex = 1 ∧
      (s.nodes 1).state.log = [⟨7, 1⟩, ⟨8, 1⟩] ∧
      ((clusterSystem duo Nat).exec System.Always s
        [.atTime 240 1 (.deliver 2), .atTime 240 1 (.act (.handle true))]).any
        (fun s' => decide ((s'.nodes 1).state.log = [])) = true) (by decide +kernel)
  obtain ⟨s', hs', hlog'⟩ := System.exec_any _ _ _ _ hrest
  have hkept := (hall s s' ⟨_, Cluster.init_start₀ duo Nat, hs⟩ hs' 1).2 0 (by omega)
  rw [hlog, hlog'] at hkept
  cases hkept

end Quaso
