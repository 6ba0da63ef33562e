import Quaso.Leader.Commit
import Quaso.Safety.Phases

/-!
# A leader's time in office

Three operations work on a leader's log and on its two index maps: client writes
extend the log, heartbeats move the maps with every answer, and commits read both.

* `TakesOffice` — a node as an election that nothing disturbs leaves it.
* `Indexed` — the bounds of the two maps, with one lemma for each operation.
* `FitsLog` — the requests that are cut from a log.
* `InOffice.step`, `leader_tenure` — while the node stays leader the maps are
  within their bounds, no index is out of range, every request fits the log, and
  the log only grows by entries of the leader's term.
-/

namespace Quaso

variable {T : Type} {conf : Config}

/-! ## The bounds of the two maps -/

/-- Every peer has a next index between `1` and the end of the log, and a match index; no
match index is behind the end of the log. -/
structure Indexed (conf : Config) (state : State T) : Prop where
  next : ∀ conn ∈ conf.connections, ∃ next, state.nextIndex.lookup conn = some next ∧
    1 ≤ next ∧ next ≤ state.log.length + 1
  known : ∀ conn ∈ conf.connections, ∃ index, state.matchIndex.lookup conn = some index
  matched : ∀ a index, state.matchIndex.lookup a = some index → index ≤ state.log.length

namespace Indexed

variable {state state' : State T}

/-- The log may grow under the maps. -/
theorem mono (h : Indexed conf state) (hnext : state'.nextIndex = state.nextIndex)
    (hmatch : state'.matchIndex = state.matchIndex)
    (hlen : state.log.length ≤ state'.log.length) : Indexed conf state' where
  next conn hconn := by
    obtain ⟨next, hlookup, hpos, hle⟩ := h.next conn hconn
    exact ⟨next, by rw [hnext, hlookup], hpos, by omega⟩
  known conn hconn := hmatch ▸ h.known conn hconn
  matched a index hlookup := (h.matched a index (hmatch ▸ hlookup)).trans hlen

/-- An inserted match index within the log keeps the map in its bounds. -/
theorem matched_insert (h : Indexed conf state) {conn a : Addr} {top index : Nat}
    (htop : top ≤ state.log.length)
    (hlookup : (state.matchIndex.insert conn top).lookup a = some index) :
    index ≤ state.log.length := by
  by_cases ha : a = conn
  · subst ha
    rw [AList.lookup_insert] at hlookup
    exact Option.some.inj hlookup ▸ htop
  · rw [AList.lookup_insert_ne ha] at hlookup
    exact h.matched a index hlookup

/-- An insertion forgets no peer. -/
theorem known_insert (h : Indexed conf state) (conn : Addr) (top : Nat) {a : Addr}
    (ha : a ∈ conf.connections) :
    ∃ index, (state.matchIndex.insert conn top).lookup a = some index := by
  by_cases heq : a = conn
  · subst heq
    exact ⟨top, AList.lookup_insert _⟩
  · rw [AList.lookup_insert_ne heq]
    exact h.known a ha

theorem heartbeatResponse (h : Indexed conf state) (conn : Addr) (resp : AppendEntriesResponse) :
    Indexed conf (Raft.heartbeatResponse state conn state.log.length resp) where
  next a ha := by
    rw [Raft.heartbeatResponse_toPersistentState]
    refine Raft.heartbeatResponse_nextIndex (P := fun next => 1 ≤ next ∧ next ≤ _) conn _ resp
      ⟨Nat.le_add_left 1 _, le_rfl⟩ (fun next hlt hrange => ?_) (h.next a ha)
    omega
  known a ha := by
    unfold Raft.heartbeatResponse
    split
    · split
      · exact h.known_insert conn _ ha
      · exact h.known a ha
    · split
      · exact h.known a ha
      · split <;> exact h.known a ha
  matched a index hlookup := by
    rw [Raft.heartbeatResponse_toPersistentState]
    rcases Raft.heartbeatResponse_matchIndex hlookup with hold | ⟨_, _, rfl⟩
    · exact h.matched a index hold
    · exact le_rfl

theorem heartbeatEnd (h : Indexed conf state) (env : Env) :
    Indexed conf (Raft.heartbeatEnd conf env state) where
  next a ha := by
    by_cases heq : a = conf.listenerAddr
    · subst heq
      exact ⟨state.log.length + 1, AList.lookup_insert _, Nat.le_add_left 1 _, le_rfl⟩
    · obtain ⟨next, hlookup, hrange⟩ := h.next a ha
      exact ⟨next, (AList.lookup_insert_ne heq).trans hlookup, hrange⟩
  known a ha := h.known_insert _ _ ha
  matched a index hlookup := h.matched_insert le_rfl hlookup

end Indexed

/-! ## The requests -/

/-- A request that is cut from the log: it announces an entry of the log, or none, and
carries everything behind it. -/
structure FitsLog (log : List (LogEntry T)) (req : AppendEntriesRequest T) : Prop where
  first : req.prevLogIndex = 0 → req.prevLogTerm = 0
  prev : 0 < req.prevLogIndex →
    ∃ entry, log[req.prevLogIndex - 1]? = some entry ∧ entry.term = req.prevLogTerm
  entries : req.entries = log.drop req.prevLogIndex
  length : req.prevLogIndex + req.entries.length = log.length

/-- Within the bounds a request can be built, and it fits the log. -/
theorem Indexed.heartbeatRequest {state : State T} (h : Indexed conf state) {conn : Addr}
    (hconn : conn ∈ conf.connections) :
    ∃ req, Raft.heartbeatRequest conf state conn = some req ∧ FitsLog state.log req := by
  obtain ⟨next, hlookup, hpos, hle⟩ := h.next conn hconn
  match next with
  | 0 => omega
  | 1 => exact ⟨_, Raft.heartbeatRequest_of_one conf hlookup, ⟨by simp, by simp, rfl, by simp⟩⟩
  | prev + 2 =>
    have hlt : prev < state.log.length := by omega
    have hentry : state.log[prev]? = some state.log[prev] := List.getElem?_eq_getElem hlt
    refine ⟨_, Raft.heartbeatRequest_of_succ conf hlookup hentry, ⟨by simp, ?_, rfl, ?_⟩⟩
    · exact fun _ => ⟨_, hentry, rfl⟩
    · simp only [List.length_drop]
      omega

/-- Within the bounds a commit reads no entry outside the log. -/
theorem Indexed.commit_returned {state : State T} (h : Indexed conf state)
    {order : List (Nat × Nat)} (horder : order.Perm (Raft.frequencyPairs state)) :
    (Raft.maybeCommitLogEntries conf order state).returned = true := by
  have hbound : ∀ index freq,
      Raft.commitCandidate (getQuorumLength conf) order = some (index, freq) →
        index ≤ state.log.length := by
    intro index freq hcand
    obtain ⟨entry, hentry, rfl⟩ := List.mem_map.1 (Raft.commitCandidate_count horder hcand).1
    exact h.matched entry.1 entry.2 (AList.mem_lookup_iff.2 hentry)
  rcases Raft.maybeCommitLogEntries_of_bounded hbound with heq | ⟨_, _, _, _, heq⟩ <;> rw [heq]

/-! ## What a leader writes -/

/-- The node keeps its term, and its log up to entries of that term at the end. -/
structure Extends (n n' : Node T) : Prop where
  term : n'.state.nodeTerm = n.state.nodeTerm
  log : ∃ entries, n'.state.log = n.state.log ++ entries ∧
    ∀ entry ∈ entries, entry.term = n.state.nodeTerm

theorem Extends.refl (n : Node T) : Extends n n := ⟨rfl, [], by simp, by simp⟩

theorem Extends.trans {n n' n'' : Node T} (h : Extends n n') (h' : Extends n' n'') :
    Extends n n'' := by
  obtain ⟨es, hlog, hterm⟩ := h.log
  obtain ⟨es', hlog', hterm'⟩ := h'.log
  refine ⟨h'.term.trans h.term, es ++ es', by rw [hlog', hlog, List.append_assoc], ?_⟩
  intro entry hmem
  rcases List.mem_append.1 hmem with hold | hnew
  · exact hterm entry hold
  · exact (hterm' entry hnew).trans h.term

/-- A leader only extends its log, by entries of its term. -/
theorem Node.Step.leader_extends {n n' : Node T} {env : Env} {action : Action T}
    {effect : Effect T} (h : Node.Step conf env n action n' effect)
    (hrole : n'.state.nodeType = .leader) : Extends n n' := by
  refine ⟨h.leader_nodeTerm hrole, ?_⟩
  cases h.logMove with
  | keep hlog => exact ⟨[], by simp [hlog], by simp⟩
  | append value _ hstate => exact ⟨[⟨value, n.state.nodeTerm⟩], by rw [hstate], by simp⟩
  | commit order haction horder hstate => exact ⟨[], by simp [hstate], by simp⟩
  | accept cid req commit sent hlock hlistener hhandled haccept hstate =>
    rw [hstate] at hrole
    simp at hrole

/-! ## Runs -/

/-- A node after an election that nothing disturbs. -/
structure TakesOffice (conf : Config) (n : Node T) : Prop where
  role : n.state.nodeType = .leader
  tick : n.tick = .idle
  nextIndex : ∀ a, n.state.nextIndex.lookup a =
    if a ∈ conf.connections then some (n.state.log.length + 1) else none
  matchIndex : ∀ a, n.state.matchIndex.lookup a =
    if a ∈ conf.connections then some 0 else none

/-- An election that is won leaves the node so, if no handler has run since the count. -/
theorem Node.PhaseSound.takesOffice {n n' : Node T} {env : Env} {action : Action T}
    {effect : Effect T} (hn : n.PhaseSound conf) (h : Node.Step conf env n action n' effect)
    {req : ElectionVoteRequest} {log : List (LogEntry T)} (htick : n.tick = .won req log)
    (hrole : n'.state.nodeType = .leader) : TakesOffice conf n' := by
  obtain ⟨hnot, _, rfl, hnext, hmatch⟩ := hn.at_tick htick
  rcases h.leader_cases hrole with ⟨hold, _⟩ | ⟨_, _, _, hidle, hstate⟩
  · exact absurd hold hnot
  · refine ⟨hrole, hidle, fun a => ?_, fun a => ?_⟩
    · rw [hstate]
      simp [hnext, IndexMap.lookup_insertAll]
    · rw [hstate]
      simp [hmatch, IndexMap.lookup_insertAll]

/-- The node is leader after the step. -/
def StaysLeader (conf : Config) (n : Node T) (l : Env × Action T) : Prop :=
  ∀ n' ∈ (nodeSystem conf T).step n l, n'.state.nodeType = .leader

instance (conf : Config) (n : Node T) (l : Env × Action T) : Decidable (StaysLeader conf n l) :=
  inferInstanceAs (Decidable (∀ n' ∈ (nodeSystem conf T).step n l, n'.state.nodeType = .leader))

/-- A leader whose loops and maps are in order. -/
structure InOffice (conf : Config) (n : Node T) : Prop where
  role : n.state.nodeType = .leader
  phase : n.PhaseSound conf
  indexed : Indexed conf n.state

theorem TakesOffice.inOffice {n : Node T} (h : TakesOffice conf n) : InOffice conf n where
  role := h.role
  phase := by simp [Node.PhaseSound, h.tick, Tick.Sound]
  indexed :=
    { next := fun conn hconn =>
        ⟨n.state.log.length + 1, by rw [h.nextIndex, if_pos hconn], by omega, le_rfl⟩
      known := fun conn hconn => ⟨0, by rw [h.matchIndex, if_pos hconn]⟩
      matched := fun a index hlookup => by
        rw [h.matchIndex] at hlookup
        split at hlookup
        · exact Option.some.inj hlookup ▸ Nat.zero_le _
        · cases hlookup }

namespace InOffice

variable {n n' : Node T} {env : Env} {action : Action T} {effect : Effect T}

/-- A leader is not between the count of the votes and the role. -/
theorem gapOk (h : InOffice conf n) (action : Action T) : GapOk n action := by
  unfold GapOk wonWrite
  split
  · rename_i htick _
    exact absurd h.role (h.phase.at_tick htick).1
  · rename_i htick _
    exact absurd h.role (h.phase.at_tick htick).1
  · rfl

/-- **Every step that leaves the node leader keeps the bounds.** -/
theorem step (hn : InOffice conf n) (h : Node.Step conf env n action n' effect)
    (hrole : n'.state.nodeType = .leader) : InOffice conf n' := by
  refine ⟨hrole, hn.phase.step h (hn.gapOk action), ?_⟩
  have hlen := (h.leader_log_isPrefix hrole).length_le
  rcases hn.phase.maps_cases h hrole with ⟨_, hnext, hmatch⟩ |
    ⟨conn, logSize, cid, conns, resp, _, htick, _, hstate⟩ | ⟨_, hstate⟩ | ⟨req, log, htick, _⟩
  · exact hn.indexed.mono hnext hmatch hlen
  · -- the loop has kept the lock since it read the length of the log
    obtain ⟨_, _, rfl⟩ := hn.phase.at_tick htick
    exact hstate ▸ hn.indexed.heartbeatResponse conn resp
  · exact hstate ▸ hn.indexed.heartbeatEnd env
  · exact absurd hn.role (hn.phase.at_tick htick).1

/-- Every append request that the node sends fits its log. -/
theorem sends (hn : InOffice conf n) {dst : Addr} {req : AppendEntriesRequest T}
    (h : Node.Step conf env n action n' (.send dst (.appendEntries req))) :
    FitsLog n.state.log req := by
  rcases h.send_cases.2 with ⟨_, _, _, _, hreq⟩ | ⟨q, conns, htick, hbuilt, hreq⟩
  · cases hreq
  · cases hreq
    obtain ⟨_, hsuffix⟩ := hn.phase.at_tick htick
    obtain ⟨req', hreq', hfits⟩ :=
      hn.indexed.heartbeatRequest (hsuffix.subset List.mem_cons_self)
    rw [hbuilt] at hreq'
    exact Option.some.inj hreq' ▸ hfits

end InOffice

/-- Every run of steps that leave the node leader keeps it in office. -/
theorem InOffice.steps {n n' : Node T} (hn : InOffice conf n)
    (h : (nodeSystem conf T).Steps (StaysLeader conf) n n') : InOffice conf n' ∧ Extends n n' := by
  induction h with
  | refl => exact ⟨hn, Extends.refl n⟩
  | tail _ hnext ih =>
    obtain ⟨l, hok, hstep⟩ := hnext
    obtain ⟨effect, hmove⟩ := nodeSystem_step hstep
    have hrole := hok _ hstep
    exact ⟨ih.1.step hmove hrole, ih.2.trans (hmove.leader_extends hrole)⟩

/-- **The tenure of a leader.**  From an undisturbed election on, as long as the node stays
leader: the next and match indices of all peers are within the log, no request and no
commit reads outside it, every request sent fits the log, and from any moment `m` to a
later one the log grows at its end only, by entries of the leader's term. -/
theorem leader_tenure {n₀ m n : Node T} (h₀ : TakesOffice conf n₀)
    (hm : (nodeSystem conf T).Steps (StaysLeader conf) n₀ m)
    (hn : (nodeSystem conf T).Steps (StaysLeader conf) m n) :
    (∀ conn ∈ conf.connections,
      (∃ next, n.state.nextIndex.lookup conn = some next ∧
        1 ≤ next ∧ next ≤ n.state.log.length + 1) ∧
      (∃ index, n.state.matchIndex.lookup conn = some index ∧ index ≤ n.state.log.length) ∧
      ∃ req, Raft.heartbeatRequest conf n.state conn = some req) ∧
    (∀ order : List (Nat × Nat), order.Perm (Raft.frequencyPairs n.state) →
      (Raft.maybeCommitLogEntries conf order n.state).returned = true) ∧
    (∀ env action n' dst req, n.step conf env action = some (n', .send dst (.appendEntries req)) →
      FitsLog n.state.log req) ∧
    n.state.nodeTerm = n₀.state.nodeTerm ∧
    ∃ entries, n.state.log = m.state.log ++ entries ∧
      ∀ entry ∈ entries, entry.term = n₀.state.nodeTerm := by
  obtain ⟨hoffice, hbefore⟩ := h₀.inOffice.steps hm
  obtain ⟨hn, hextends⟩ := hoffice.steps hn
  refine ⟨fun conn hconn => ⟨hn.indexed.next conn hconn, ?_, ?_⟩,
    fun order horder => hn.indexed.commit_returned horder,
    fun env action n' dst req hstep => hn.sends (Node.step_sound hstep),
    hextends.term.trans hbefore.term, hbefore.term ▸ hextends.log⟩
  · obtain ⟨index, hlookup⟩ := hn.indexed.known conn hconn
    exact ⟨index, hlookup, hn.indexed.matched conn index hlookup⟩
  · obtain ⟨req, hreq, _⟩ := hn.indexed.heartbeatRequest hconn
    exact ⟨req, hreq⟩

/-- A node of three that has been elected in term 1 with one entry. -/
abbrev elected : Node Nat :=
  { Node.start Raft.confOfThree (.atTime 0) with
    state :=
      { State.new (.atTime 0) [] ⟨1, some 1, [⟨7, 1⟩]⟩ with
        nodeType := .leader
        nextIndex := IndexMap.insertAll ∅ Raft.confOfThree.connections 2
        matchIndex := IndexMap.insertAll ∅ Raft.confOfThree.connections 0 } }

/-- A client writes, one peer accepts the heartbeat and the other rejects it, and both
entries are committed. -/
theorem leader_tenure_elected : ∃ n : Node Nat, n.state.commitedIndex = 2 ∧
    n.state.nextIndex.lookup "c" = some 1 ∧ n.state.nodeTerm = elected.state.nodeTerm := by
  obtain ⟨n, hn, hcommit, hnext⟩ := System.exec_any (nodeSystem Raft.confOfThree Nat)
    (StaysLeader Raft.confOfThree) elected
    [(.atTime 5, .appendEntry 8), (.atTime 10, .sendHeartbeat), (.atTime 10, .advance 0),
      (.atTime 11, .appendAnswer (.reply ⟨2, 1, true⟩)), (.atTime 11, .advance 1),
      (.atTime 12, .appendAnswer (.reply ⟨3, 1, false⟩)), (.atTime 12, .advance 0),
      (.atTime 13, .commit [(2, 2), (0, 1)])]
    (P := fun n => n.state.commitedIndex = 2 ∧ n.state.nextIndex.lookup "c" = some 1)
    (by decide +kernel)
  have helected : TakesOffice Raft.confOfThree elected :=
    ⟨rfl, rfl, IndexMap.lookup_insertAll ∅ _ 2, IndexMap.lookup_insertAll ∅ _ 0⟩
  exact ⟨n, hcommit, hnext, (leader_tenure helected (.refl _ _ elected) hn).2.2.2.1⟩

end Quaso
