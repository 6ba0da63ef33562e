import Quaso.Lib.Replication
import Quaso.Safety.Agreement
import Quaso.Safety.Returns

/-!
# One order

Where logs only grow, the committed parts of the logs agree with each other, and the
longest of them is an order that all nodes deliver from, each as far as it has
committed.

* `Cluster.committed`, `Cluster.order` — the committed part of a log, and the longest.
* `Cluster.committed_isPrefix_order` — each is a beginning of the longest.
* `Cluster.order_isPrefix` — the order grows at its end.
-/

namespace Quaso
namespace Cluster

variable {n : Nat} {C : ClusterConfig n} {T : Type} {s s' : Cluster C T} {w : Writers n T}

/-- The committed part of the log of node `i`. -/
def committed (s : Cluster C T) (i : Fin n) : List (LogEntry T) :=
  (s.nodes i).state.log.take (s.nodes i).state.commitedIndex

/-- The longest of the committed parts. -/
def order (s : Cluster C T) : List (LogEntry T) := longest ((List.finRange n).map s.committed)

/-- Two nodes agree on what both have committed. -/
theorem AgreementSound.committed_isPrefix (ha : AgreementSound s w) {i j : Fin n}
    (hle : (s.nodes i).state.commitedIndex ≤ (s.nodes j).state.commitedIndex) :
    s.committed i <+: s.committed j := by
  have htake : s.committed i = (s.committed j).take (s.nodes i).state.commitedIndex := by
    refine List.ext_getElem? fun k => ?_
    simp only [Cluster.committed, List.getElem?_take]
    by_cases hk : k < (s.nodes i).state.commitedIndex
    · obtain ⟨e, he, hchosen⟩ := ha.committed i k hk
      obtain ⟨e', he', hchosen'⟩ := ha.committed j k (hk.trans_le hle)
      rw [if_pos hk, if_pos hk, if_pos (hk.trans_le hle), he, he', hchosen.unique hchosen']
    · rw [if_neg hk, if_neg hk]
  rw [htake]
  exact List.take_prefix _ _

/-- **The longest committed part extends every other.** -/
theorem committed_isPrefix_order (hquorum : ∀ i, n < 2 * getQuorumLength (C.conf i))
    (h : (clusterSystem C T).Reachable (Lift ExtendOk) s) (i : Fin n) :
    s.committed i <+: s.order := by
  obtain ⟨w, b, _, ha⟩ := AgreementSound.of_reachable hquorum h
  refine isPrefix_longest ?_ (List.mem_map.2 ⟨i, List.mem_finRange i, rfl⟩)
  intro l hl l' hl'
  obtain ⟨j, _, rfl⟩ := List.mem_map.1 hl
  obtain ⟨k, _, rfl⟩ := List.mem_map.1 hl'
  exact (Nat.le_total _ _).imp ha.committed_isPrefix ha.committed_isPrefix

/-- What a node has committed stays at the beginning of what it commits later. -/
theorem committed_isPrefix (hreach : (clusterSystem C T).Reachable (Lift ExtendOk) s)
    (h : (clusterSystem C T).Steps (Lift ExtendOk) s s') (i : Fin n) :
    s.committed i <+: s'.committed i := by
  have hkeeps : KeepsCommitted (s.nodes i) (s'.nodes i) :=
    Cluster.steps_node KeepsCommitted.refl KeepsCommitted.trans
      (fun _ _ _ _ _ _ hstep hok => Node.keepsCommitted hstep hok.returnOk.prefixOk) h i
  have hr : s.ReturnSound := .of_reachable (fun _ _ hok => hok.returnOk) hreach
  obtain ⟨_, hle, htake⟩ := hkeeps (hr.sent i).inside
  unfold committed
  rw [← htake]
  exact List.take_prefix_take_left hle

/-- **The order grows at its end.** -/
theorem order_isPrefix (hquorum : ∀ i, n < 2 * getQuorumLength (C.conf i))
    (hreach : (clusterSystem C T).Reachable (Lift ExtendOk) s)
    (h : (clusterSystem C T).Steps (Lift ExtendOk) s s') : s.order <+: s'.order := by
  refine longest_isPrefix fun l hl => ?_
  obtain ⟨i, _, rfl⟩ := List.mem_map.1 hl
  exact (committed_isPrefix hreach h i).trans
    (committed_isPrefix_order hquorum (hreach.steps h) i)

/-- The order is part of some log. -/
theorem mem_order {e : LogEntry T} (h : e ∈ s.order) : ∃ i, e ∈ (s.nodes i).state.log := by
  rcases longest_cases ((List.finRange n).map s.committed) with hnil | hmem
  · rw [order, hnil] at h
    cases h
  · obtain ⟨i, _, hi⟩ := List.mem_map.1 hmem
    rw [order, ← hi] at h
    exact ⟨i, List.mem_of_mem_take h⟩

end Cluster
end Quaso
