import Quaso.Lib.Majority
import Quaso.Raft.Operations

/-!
# The commit rule

`maybe_commit_log_entries` counts how many nodes have *equal* match indices, keeps
the values whose count reaches the quorum, and takes the one with the greatest
count.

* `maxByCount_append_singleton`, `le_of_maxByCount` — what `max_by` picks.
* `commitCandidate_eq_some_iff` — in a cluster whose match indices belong to its
  nodes the commit point is the one value that a quorum has.
* `maybeCommitLogEntries_sound` — the rule is sound, and does not depend on the order
  in which the frequency map is iterated.
* `commits_iff` — the rule makes progress to the index that a quorum has reached
  exactly if a quorum stands at that very index, and fewer at any other.
-/

namespace Quaso
namespace Raft

variable {T : Type}

/-! ## The frequency map -/

theorem mem_frequencyPairs {state : State T} {value freq : Nat} :
    (value, freq) ∈ frequencyPairs state ↔
      value ∈ state.matchIndex.values ∧ freq = state.matchIndex.values.count value := by
  have hlookup : (value, freq) ∈ frequencyPairs state ↔
      (matchFrequencies state.matchIndex.values).lookup value = some freq := by
    rw [← Option.mem_def, AList.mem_lookup_iff]
    constructor
    · intro h
      obtain ⟨⟨v, f⟩, hentry, hpair⟩ := List.mem_map.1 h
      obtain ⟨rfl, rfl⟩ : v = value ∧ f = freq := by simpa using hpair
      exact hentry
    · intro h
      exact List.mem_map.2 ⟨_, h, rfl⟩
  rw [hlookup, lookup_matchFrequencies]
  by_cases hmem : value ∈ state.matchIndex.values
  · simp [hmem, eq_comm]
  · simp [hmem]

/-- The number of nodes with the match index, as the `i32` counter shows it. -/
def equalCount (state : State T) (value : Nat) : Int :=
  Float32.wrapI32 (state.matchIndex.values.count value)

/-! ## The greatest count -/

@[simp] theorem maxByCount_nil : maxByCount [] = none := rfl

/-- The last pair wins unless its count is smaller than what was found before. -/
theorem maxByCount_append_singleton (pairs : List (Nat × Nat)) (pair : Nat × Nat) :
    maxByCount (pairs ++ [pair]) =
      match maxByCount pairs with
      | none => some pair
      | some b =>
        if Float32.wrapI32 pair.2 < Float32.wrapI32 b.2 then some b else some pair := by
  unfold maxByCount
  rw [List.foldl_append]
  rfl

theorem maxByCount_eq_none_iff {pairs : List (Nat × Nat)} :
    maxByCount pairs = none ↔ pairs = [] := by
  induction pairs using List.reverseRecOn with
  | nil => simp
  | append_singleton pairs pair ih =>
    rw [maxByCount_append_singleton]
    cases maxByCount pairs with
    | none => simp
    | some b =>
      simp only
      split <;> simp

/-- No pair has a greater count than the one picked. -/
theorem le_of_maxByCount {pairs : List (Nat × Nat)} {best : Nat × Nat}
    (h : maxByCount pairs = some best) {pair : Nat × Nat} (hmem : pair ∈ pairs) :
    Float32.wrapI32 pair.2 ≤ Float32.wrapI32 best.2 := by
  induction pairs using List.reverseRecOn generalizing best with
  | nil => cases hmem
  | append_singleton pairs last ih =>
    rw [maxByCount_append_singleton] at h
    cases hprev : maxByCount pairs with
    | none =>
      obtain rfl := maxByCount_eq_none_iff.1 hprev
      obtain rfl : last = best := by simpa using h
      obtain rfl : pair = last := by simpa using hmem
      exact le_rfl
    | some b =>
      rw [hprev] at h
      simp only at h
      rcases List.mem_append.1 hmem with hold | hnew
      · have hle := ih hprev hold
        split at h
        · exact Option.some.inj h ▸ hle
        · rename_i hlt
          exact Option.some.inj h ▸ hle.trans (not_lt.1 hlt)
      · obtain rfl := List.mem_singleton.1 hnew
        split at h
        · rename_i hlt
          exact Option.some.inj h ▸ hlt.le
        · exact Option.some.inj h ▸ le_rfl

/-- Whatever commit point is found, no value with a quorum has a greater count. -/
theorem commitCandidate_max {quorumLen : Nat} {order : List (Nat × Nat)} {index freq : Nat}
    (h : commitCandidate quorumLen order = some (index, freq)) :
    (quorumLen : Int) ≤ Float32.wrapI32 freq ∧ (index, freq) ∈ order ∧
      ∀ pair ∈ order, (quorumLen : Int) ≤ Float32.wrapI32 pair.2 →
        Float32.wrapI32 pair.2 ≤ Float32.wrapI32 freq := by
  obtain ⟨hmem, hquorum⟩ := List.mem_filter.1 (maxByCount_mem h)
  refine ⟨of_decide_eq_true hquorum, hmem, fun pair hpair hq => ?_⟩
  exact le_of_maxByCount h (List.mem_filter.2 ⟨hpair, decide_eq_true hq⟩)

/-- A value with a quorum guarantees a commit point. -/
theorem commitCandidate_isSome {quorumLen : Nat} {order : List (Nat × Nat)} {pair : Nat × Nat}
    (hmem : pair ∈ order) (hq : (quorumLen : Int) ≤ Float32.wrapI32 pair.2) :
    ∃ index freq, commitCandidate quorumLen order = some (index, freq) := by
  cases hcand : commitCandidate quorumLen order with
  | none =>
    have hnil := maxByCount_eq_none_iff.1 hcand
    have hin := List.eq_nil_iff_forall_not_mem.1 hnil pair
    exact (hin (List.mem_filter.2 ⟨hmem, decide_eq_true hq⟩)).elim
  | some found => exact ⟨found.1, found.2, rfl⟩

/-- A value with a quorum that comes last is the commit point unless one found before has a
greater count. -/
theorem commitCandidate_append_singleton {quorumLen : Nat} (pairs : List (Nat × Nat))
    (pair : Nat × Nat) (hq : (quorumLen : Int) ≤ Float32.wrapI32 pair.2) :
    commitCandidate quorumLen (pairs ++ [pair]) =
      match commitCandidate quorumLen pairs with
      | none => some pair
      | some b =>
        if Float32.wrapI32 pair.2 < Float32.wrapI32 b.2 then some b else some pair := by
  have hlast : [pair].filter (fun pair => decide ((quorumLen : Int) ≤ Float32.wrapI32 pair.2))
      = [pair] := List.filter_eq_self.2 fun p hp => by
    rw [List.mem_singleton.1 hp]
    exact decide_eq_true hq
  unfold commitCandidate
  rw [List.filter_append, hlast, maxByCount_append_singleton]

/-! ## Soundness -/

/-- The nodes of a cluster, as far as they can have a match index. -/
structure OfCluster (conf : Config) (state : State T) : Prop where
  /-- The keys are the peers and the node itself, or fewer. -/
  keys : ∀ a ∈ state.matchIndex, a ∈ conf.connections ∨ a = conf.listenerAddr
  /-- Up to this size `get_quorum_length` is exact. -/
  size : conf.connections.length + 1 < 2 ^ 24

section OfCluster

variable {conf : Config} {state : State T} (h : OfCluster conf state)
include h

/-- There are no more match indices than nodes. -/
theorem OfCluster.length_values_le :
    state.matchIndex.values.length ≤ conf.connections.length + 1 := by
  have hkeys : state.matchIndex.values.length = state.matchIndex.keys.toFinset.card := by
    rw [List.toFinset_card_of_nodup state.matchIndex.keys_nodup]
    simp [IndexMap.values, AList.keys, List.keys]
  have hsub : state.matchIndex.keys.toFinset ⊆
      insert conf.listenerAddr conf.connections.toFinset := by
    intro a ha
    rcases h.keys a (AList.mem_keys.2 (List.mem_toFinset.1 ha)) with hconn | rfl
    · exact Finset.mem_insert_of_mem (List.mem_toFinset.2 hconn)
    · exact Finset.mem_insert_self _ _
  have hcard := Finset.card_insert_le conf.listenerAddr conf.connections.toFinset
  have hconns := conf.connections.toFinset_card_le
  have := Finset.card_le_card hsub
  omega

/-- A quorum is more than half of the match indices. -/
theorem OfCluster.length_values_lt :
    state.matchIndex.values.length < 2 * getQuorumLength conf := by
  have hle := h.length_values_le
  have hq := getQuorumLength_of_lt h.size
  omega

/-- The `i32` counter is large enough. -/
theorem OfCluster.equalCount_eq (value : Nat) :
    equalCount state value = state.matchIndex.values.count value := by
  have hle := h.length_values_le
  have hcount := List.count_le_length (a := value) (l := state.matchIndex.values)
  have hsize := h.size
  exact Float32.wrapI32_of_lt (by omega)

/-- At most one match index has a quorum. -/
theorem OfCluster.quorum_unique {v w : Nat}
    (hv : getQuorumLength conf ≤ state.matchIndex.values.count v)
    (hw : getQuorumLength conf ≤ state.matchIndex.values.count w) : v = w :=
  eq_of_majority_count h.length_values_lt hv hw

/-- The commit point is the value that a quorum has. -/
theorem OfCluster.commitCandidate_eq_some_iff {order : List (Nat × Nat)}
    (horder : order.Perm (frequencyPairs state)) {index freq : Nat} :
    commitCandidate (getQuorumLength conf) order = some (index, freq) ↔
      index ∈ state.matchIndex.values ∧ freq = state.matchIndex.values.count index ∧
        getQuorumLength conf ≤ freq := by
  constructor
  · intro hcand
    obtain ⟨hq, hmem, _⟩ := commitCandidate_max hcand
    obtain ⟨hvalue, rfl⟩ := mem_frequencyPairs.1 (horder.mem_iff.1 hmem)
    exact ⟨hvalue, rfl, (commitCandidate_count horder hcand).2⟩
  · rintro ⟨hvalue, rfl, hq⟩
    have hmem := horder.mem_iff.2 (mem_frequencyPairs.2 ⟨hvalue, rfl⟩)
    have hcount : (getQuorumLength conf : Int) ≤ equalCount state index := by
      rw [h.equalCount_eq]
      exact_mod_cast hq
    obtain ⟨i, f, hcand⟩ := commitCandidate_isSome hmem hcount
    obtain ⟨_, hfound, _⟩ := commitCandidate_max hcand
    obtain ⟨_, rfl⟩ := mem_frequencyPairs.1 (horder.mem_iff.1 hfound)
    obtain rfl := h.quorum_unique (commitCandidate_count horder hcand).2 hq
    exact hcand

/-- Every order of the frequency map gives the same commit point. -/
theorem OfCluster.commitCandidate_perm {order order' : List (Nat × Nat)}
    (horder : order.Perm (frequencyPairs state)) (horder' : order'.Perm (frequencyPairs state)) :
    commitCandidate (getQuorumLength conf) order
      = commitCandidate (getQuorumLength conf) order' := by
  refine Option.ext fun ⟨index, freq⟩ => ?_
  rw [h.commitCandidate_eq_some_iff horder, h.commitCandidate_eq_some_iff horder']

end OfCluster

/-- The ways a call ends: with nothing to do, or with the delivery loop run up to the commit
point or out of the log. -/
theorem maybeCommitLogEntries_outcome (conf : Config) (order : List (Nat × Nat))
    (state : State T) :
    maybeCommitLogEntries conf order state = ⟨state, [], true⟩ ∨
      ∃ index freq, commitCandidate (getQuorumLength conf) order = some (index, freq) ∧
        state.commitedIndex < index ∧
        (((deliverRange state.log state.commitedIndex index).2 = true ∧
          maybeCommitLogEntries conf order state
            = ⟨{ state with commitedIndex := index },
                (deliverRange state.log state.commitedIndex index).1, true⟩) ∨
        ((deliverRange state.log state.commitedIndex index).2 = false ∧
          maybeCommitLogEntries conf order state
            = ⟨state, (deliverRange state.log state.commitedIndex index).1, false⟩)) := by
  unfold maybeCommitLogEntries
  by_cases hrole : state.nodeType ≠ .leader
  · exact Or.inl (if_pos hrole)
  · rw [if_neg hrole]
    cases hcand : commitCandidate (getQuorumLength conf) order with
    | none => exact Or.inl rfl
    | some pair =>
      simp only
      by_cases hlt : state.commitedIndex < pair.1
      · rw [if_pos hlt]
        refine Or.inr ⟨pair.1, pair.2, rfl, hlt, ?_⟩
        cases (deliverRange state.log state.commitedIndex pair.1).2 <;> simp
      · exact Or.inl (if_neg hlt)

/-- A call whose commit point is inside the log either changes nothing or moves the commit
index there, with the entries in between sent in order. -/
theorem maybeCommitLogEntries_of_bounded {conf : Config} {state : State T}
    {order : List (Nat × Nat)}
    (hbound : ∀ index freq, commitCandidate (getQuorumLength conf) order = some (index, freq) →
      index ≤ state.log.length) :
    maybeCommitLogEntries conf order state = ⟨state, [], true⟩ ∨
      ∃ index freq, commitCandidate (getQuorumLength conf) order = some (index, freq) ∧
        state.commitedIndex < index ∧
        maybeCommitLogEntries conf order state
          = ⟨{ state with commitedIndex := index },
              entriesBetween state.log state.commitedIndex index, true⟩ := by
  rcases maybeCommitLogEntries_outcome conf order state with
    hsame | ⟨index, freq, hcand, hlt, hend⟩
  · exact Or.inl hsame
  · rw [deliverRange_eq hlt (hbound index freq hcand)] at hend
    rcases hend with ⟨_, heq⟩ | ⟨hfin, _⟩
    · exact Or.inr ⟨index, freq, hcand, hlt, heq⟩
    · cases hfin

/-- **The commit rule is sound.**  At most one match index has a quorum, so the outcome
does not depend on the order in which the frequency map is iterated; and a call either
changes and delivers nothing, or moves the commit index up to an index that a quorum
has, and delivers exactly the entries in between. -/
theorem maybeCommitLogEntries_sound {conf : Config} {state : State T} (h : OfCluster conf state)
    (hvalues : ∀ value ∈ state.matchIndex.values, value ≤ state.log.length) :
    (∀ v w, getQuorumLength conf ≤ state.matchIndex.values.count v →
      getQuorumLength conf ≤ state.matchIndex.values.count w → v = w) ∧
    (∀ order order' : List (Nat × Nat), order.Perm (frequencyPairs state) →
      order'.Perm (frequencyPairs state) →
      maybeCommitLogEntries conf order state = maybeCommitLogEntries conf order' state) ∧
    ∀ order : List (Nat × Nat), order.Perm (frequencyPairs state) →
      maybeCommitLogEntries conf order state = ⟨state, [], true⟩ ∨
        ∃ index, state.commitedIndex < index ∧
          getQuorumLength conf ≤ state.matchIndex.values.count index ∧
          maybeCommitLogEntries conf order state
            = ⟨{ state with commitedIndex := index },
                entriesBetween state.log state.commitedIndex index, true⟩ := by
  refine ⟨fun v w => h.quorum_unique, fun order order' horder horder' => ?_,
    fun order horder => ?_⟩
  · unfold maybeCommitLogEntries
    rw [h.commitCandidate_perm horder horder']
  · have hbound : ∀ index freq,
        commitCandidate (getQuorumLength conf) order = some (index, freq) →
          index ≤ state.log.length := fun index freq hcand =>
      hvalues index (commitCandidate_count horder hcand).1
    rcases maybeCommitLogEntries_of_bounded hbound with hsame | ⟨index, freq, hcand, hlt, heq⟩
    · exact Or.inl hsame
    · exact Or.inr ⟨index, hlt, (commitCandidate_count horder hcand).2, heq⟩

/-- A leader of three nodes with two entries of its term 1 and the given match indices. -/
abbrev leaderOfThree (a b c : Nat) : State Nat :=
  { State.new (.atTime 0) [] ⟨1, some 1, [⟨7, 1⟩, ⟨8, 1⟩]⟩ with
    nodeType := .leader
    matchIndex := [⟨"a", a⟩, ⟨"b", b⟩, ⟨"c", c⟩].toAList }

abbrev confOfThree : Config := ⟨1, "a", ["b", "c"]⟩

theorem maybeCommitLogEntries_sound_three :
    maybeCommitLogEntries confOfThree [(2, 2), (1, 1)] (leaderOfThree 2 1 2)
      = maybeCommitLogEntries confOfThree [(1, 1), (2, 2)] (leaderOfThree 2 1 2) :=
  (maybeCommitLogEntries_sound ⟨by decide, by decide⟩ (by decide)).2.1 _ _ (by decide) (by decide)

/-! ## Progress -/

/-- The largest index that the match indices of a quorum have reached. -/
structure QuorumReaches (conf : Config) (state : State T) (index : Nat) : Prop where
  reached : getQuorumLength conf ≤ state.matchIndex.values.countP (decide <| index ≤ ·)
  largest : ∀ later, getQuorumLength conf ≤ state.matchIndex.values.countP (decide <| later ≤ ·) →
    later ≤ index

/-- More nodes stand at the index than at any other, a quorum at least. -/
def QuorumStandsAt (conf : Config) (state : State T) (index : Nat) : Prop :=
  (getQuorumLength conf : Int) ≤ equalCount state index ∧
    ∀ value ∈ state.matchIndex.values, value ≠ index →
      equalCount state value < equalCount state index

instance (conf : Config) (state : State T) (index : Nat) :
    Decidable (QuorumStandsAt conf state index) := inferInstanceAs (Decidable (_ ∧ _))

/-- In a cluster no two values have a quorum, so the first half is enough. -/
theorem OfCluster.quorumStandsAt_iff {conf : Config} {state : State T}
    (h : OfCluster conf state) {index : Nat} :
    QuorumStandsAt conf state index ↔
      getQuorumLength conf ≤ state.matchIndex.values.count index := by
  unfold QuorumStandsAt
  simp only [h.equalCount_eq, Nat.cast_le, Nat.cast_lt]
  refine ⟨And.left, fun hq => ⟨hq, fun value _ hne => ?_⟩⟩
  by_contra hle
  exact hne (h.quorum_unique (hq.trans (not_lt.1 hle)) hq)

section Progress

variable {conf : Config} {state : State T} {index : Nat}

/-- A quorum is never empty if there is a largest index that one has reached. -/
theorem QuorumReaches.quorum_pos (h : QuorumReaches conf state index) :
    0 < getQuorumLength conf := by
  by_contra hzero
  have hlater := h.largest (index + 1) (by omega)
  omega

/-- A call that sets the commit index to a later one has found it as the commit point. -/
theorem commitCandidate_of_commitedIndex {order : List (Nat × Nat)}
    (hlt : state.commitedIndex < index)
    (h : (maybeCommitLogEntries conf order state).state.commitedIndex = index) :
    ∃ freq, commitCandidate (getQuorumLength conf) order = some (index, freq) := by
  rcases (maybeCommitLogEntries_cases conf order state).1 with
    hsame | ⟨found, freq, hcand, _, _, _, hstate⟩
  · rw [hsame] at h
    omega
  · rw [hstate] at h
    exact ⟨freq, h ▸ hcand⟩

/-- Where most nodes stand, every order finds the commit point. -/
theorem QuorumStandsAt.commitCandidate_eq (h : QuorumStandsAt conf state index)
    (hpos : 0 < getQuorumLength conf) {order : List (Nat × Nat)}
    (horder : order.Perm (frequencyPairs state)) :
    ∃ freq, commitCandidate (getQuorumLength conf) order = some (index, freq) := by
  have hq : (getQuorumLength conf : Int) ≤ equalCount state index := h.1
  have hvalue : index ∈ state.matchIndex.values := by
    have hle : equalCount state index ≤ state.matchIndex.values.count index :=
      Float32.wrapI32_le _
    exact List.count_pos_iff.1 (by omega)
  have hmem := horder.mem_iff.2 (mem_frequencyPairs.2 ⟨hvalue, rfl⟩)
  obtain ⟨found, freq, hcand⟩ := commitCandidate_isSome hmem hq
  obtain ⟨_, hfound, hmax⟩ := commitCandidate_max hcand
  obtain ⟨hfoundValue, rfl⟩ := mem_frequencyPairs.1 (horder.mem_iff.1 hfound)
  have hle : equalCount state index ≤ equalCount state found := hmax (index, _) hmem hq
  obtain rfl : found = index := by
    by_contra hne
    exact absurd (h.2 found hfoundValue hne) (not_lt.2 hle)
  exact ⟨_, hcand⟩

/-- The order that iterates the given pair last. -/
theorem erase_append_perm {pairs : List (Nat × Nat)} {pair : Nat × Nat} (hmem : pair ∈ pairs) :
    (pairs.erase pair ++ [pair]).Perm pairs :=
  (List.perm_append_singleton pair _).trans (List.perm_cons_erase hmem).symm

/-- If every order finds the index, most nodes stand there. -/
theorem quorumStandsAt_of_commitCandidate
    (h : ∀ order : List (Nat × Nat), order.Perm (frequencyPairs state) →
      ∃ freq, commitCandidate (getQuorumLength conf) order = some (index, freq)) :
    QuorumStandsAt conf state index := by
  obtain ⟨_, hfound⟩ := h _ (List.Perm.refl _)
  obtain ⟨hq, hpair, _⟩ := commitCandidate_max hfound
  obtain ⟨_, rfl⟩ := mem_frequencyPairs.1 hpair
  refine ⟨hq, fun value hvalue hne => ?_⟩
  by_contra hle
  have hlast : (value, state.matchIndex.values.count value) ∈ frequencyPairs state :=
    mem_frequencyPairs.2 ⟨hvalue, rfl⟩
  have hquorum : (getQuorumLength conf : Int) ≤ equalCount state value := hq.trans (not_lt.1 hle)
  -- an order with this value last would find it, or one that is still more common
  have hperm := erase_append_perm hlast
  obtain ⟨freq, hcand⟩ := h _ hperm
  obtain ⟨_, hmem, _⟩ := commitCandidate_max hcand
  obtain ⟨_, rfl⟩ := mem_frequencyPairs.1 (hperm.mem_iff.1 hmem)
  rw [commitCandidate_append_singleton _ (value, state.matchIndex.values.count value) hquorum]
    at hcand
  split at hcand
  · exact hne (congrArg Prod.fst (Option.some.inj hcand))
  · split at hcand
    · rename_i hlt
      rw [Option.some.inj hcand] at hlt
      exact hle hlt
    · exact hne (congrArg Prod.fst (Option.some.inj hcand))

/-- **When a commit makes progress.**  If a quorum has reached an index of the leader's own
term, the call sets the commit index to it, whatever the order of the frequency map,
exactly if a quorum stands at that very index, and fewer nodes at any other. -/
theorem commits_iff (hrole : state.nodeType = .leader) (hreach : QuorumReaches conf state index)
    (hlt : state.commitedIndex < index)
    (hentry : ∃ entry, state.log[index - 1]? = some entry ∧ entry.term = state.nodeTerm) :
    (∀ order : List (Nat × Nat), order.Perm (frequencyPairs state) →
      (maybeCommitLogEntries conf order state).state.commitedIndex = index) ↔
    QuorumStandsAt conf state index := by
  obtain ⟨entry, hentry, _⟩ := hentry
  have hle : index ≤ state.log.length := by
    have := (List.getElem?_eq_some_iff.1 hentry).1
    omega
  constructor
  · intro h
    exact quorumStandsAt_of_commitCandidate fun order horder =>
      commitCandidate_of_commitedIndex hlt (h order horder)
  · intro h order horder
    obtain ⟨freq, hcand⟩ := h.commitCandidate_eq hreach.quorum_pos horder
    unfold maybeCommitLogEntries
    rw [if_neg (not_not.2 hrole), hcand]
    simp only
    rw [if_pos hlt, deliverRange_eq hlt hle]
    rfl

end Progress

/-- Two of three nodes have everything. -/
theorem leaderOfThree_quorumReaches : QuorumReaches confOfThree (leaderOfThree 2 1 2) 2 where
  reached := by decide
  largest later h := by
    by_contra hlt
    have hnone : [2, 1, 2].countP (decide <| later ≤ ·) = 0 := by
      simp [List.countP_cons]
      omega
    exact absurd (hnone ▸ h) (by decide)

theorem commits_iff_three : (maybeCommitLogEntries confOfThree [(1, 1), (2, 2)]
    (leaderOfThree 2 1 2)).state.commitedIndex = 2 :=
  (commits_iff rfl leaderOfThree_quorumReaches (by decide) ⟨_, rfl, rfl⟩).2 (by decide) _
    (by decide)

/-- Three nodes stand at three different indices: two of them have reached the first entry,
which is of the leader's term, and nothing is committed. -/
theorem not_commits : QuorumReaches confOfThree (leaderOfThree 2 1 0) 1 ∧
    (leaderOfThree 2 1 0).log[0]? = some ⟨7, (leaderOfThree 2 1 0).nodeTerm⟩ ∧
    (maybeCommitLogEntries confOfThree (frequencyPairs (leaderOfThree 2 1 0))
      (leaderOfThree 2 1 0)).state.commitedIndex = 0 := by
  refine ⟨⟨by decide, fun later h => ?_⟩, rfl, by decide⟩
  by_contra hlt
  have hone : [2, 1, 0].countP (decide <| later ≤ ·) ≤ 1 := by
    simp only [List.countP_cons, List.countP_nil, decide_eq_true_eq]
    rw [if_neg (by omega), if_neg (by omega)]
    split <;> omega
  exact absurd (le_trans h hone) (by decide)

end Raft
end Quaso
