import Quaso.Raft.Operations
import Quaso.Raft.Rpc

/-!
# Catching up

A leader brings a follower up to date by heartbeats: `append_entries` rejects
until the announced prefix is one the follower has, and every rejection makes
the leader step back by one entry.

* `CatchUp.round` — one heartbeat and its answer, with no loss in between.
* `CatchUp.CatchesUp` — the rounds end with an acceptance after which the follower
  has the leader's log, nothing panics on the way, and every rejection lowers
  the next index by one.
* `CatchUp.catchesUp_iff` — exactly when that happens: the follower's log is empty,
  or it is a prefix of the leader's log, the leader does not start at its very
  beginning, and either starts behind the follower's last entry or resends
  entries that happen to be the missing ones.
-/

namespace Quaso
namespace CatchUp

variable {T : Type}

/-- How a round ends, with the states of the leader and of the follower. -/
inductive Round (T : Type) where
  | panicked
  | rejected (leader follower : State T)
  | accepted (leader follower : State T)

/-- One round of the loop of `maybe_send_heartbeat` with the follower at `conn`. -/
def round (conf : Config) (conn : Addr) (followerId : NodeId) (env : Env)
    (leader follower : State T) : Round T :=
  match Raft.heartbeatRequest conf leader conn with
  | none => .panicked
  | some req =>
    let result := Server.appendEntries followerId env follower req
    match result.response with
    | none => .panicked
    | some resp =>
      let leader' := Raft.heartbeatResponse leader conn leader.log.length resp
      if resp.success then .accepted leader' result.state else .rejected leader' result.state

/-- The follower has caught up after at most `rounds` rounds; `env` is the environment
of each. -/
def CatchesUp (conf : Config) (conn : Addr) (followerId : NodeId) (env : Nat → Env) :
    Nat → State T → State T → Prop
  | 0, _, _ => False
  | rounds + 1, leader, follower =>
    match round conf conn followerId (env rounds) leader follower with
    | .panicked => False
    | .rejected leader' follower' =>
      leader'.nextIndex.lookup conn = (leader.nextIndex.lookup conn).map (· - 1) ∧
        CatchesUp conf conn followerId env rounds leader' follower'
    | .accepted leader' follower' =>
      follower'.log.take leader.log.length = leader.log ∧
        (0 < leader.log.length → leader'.matchIndex.lookup conn = some leader.log.length)

/-- A leader and a follower that are to be brought together. -/
structure Ready (conn : Addr) (next : Nat) (leader follower : State T) : Prop where
  /-- The leader's next index for the follower. -/
  nextIndex : leader.nextIndex.lookup conn = some next
  next_pos : 1 ≤ next
  next_le : next ≤ leader.log.length + 1
  term_le : follower.nodeTerm ≤ leader.nodeTerm
  /-- The logs match. -/
  matching : ∀ (k : Nat) (e e' : LogEntry T), leader.log[k]? = some e →
    follower.log[k]? = some e' → e.term = e'.term →
    leader.log.take (k + 1) = follower.log.take (k + 1)
  /-- Both commit indices cover entries that the logs have in common. -/
  commits : ∃ common, leader.commitedIndex ≤ common ∧ follower.commitedIndex ≤ common ∧
    common ≤ leader.log.length ∧ common ≤ follower.log.length ∧
    leader.log.take common = follower.log.take common

/-- The logs and the next index from which the follower catches up. -/
def Fits (L F : List (LogEntry T)) (next : Nat) : Prop :=
  F = [] ∨ (2 ≤ next ∧ F <+: L ∧
    (F.length < next ∨ (L.drop (next - 1)).take (L.length - F.length) = L.drop F.length))

instance [DecidableEq T] (L F : List (LogEntry T)) (next : Nat) : Decidable (Fits L F next) :=
  inferInstanceAs (Decidable (_ ∨ _))

namespace Fits

variable {L F : List (LogEntry T)} {prev : Nat}

/-- Stepping back to an index that is still behind the follower's log changes nothing. -/
theorem of_short (hshort : F.length ≤ prev) : Fits L F (prev + 1) ↔ Fits L F (prev + 2) := by
  by_cases hnil : F = []
  · simp [Fits, hnil]
  · have hpos := List.length_pos_iff.2 hnil
    have hone : F.length < prev + 1 := Nat.lt_succ_of_le hshort
    simp only [Fits, hone, hone.trans (Nat.lt_succ_self _), show 2 ≤ prev + 1 by omega,
      show 2 ≤ prev + 2 by omega, true_or]

/-- A conflicting entry never goes away. -/
theorem not_of_conflict {e e' : LogEntry T} (he : L[prev]? = some e) (he' : F[prev]? = some e')
    (hterm : e'.term ≠ e.term) (next : Nat) : ¬ Fits L F next := by
  rintro (rfl | ⟨_, ⟨rest, rfl⟩, _⟩)
  · simp at he'
  · rw [List.getElem?_append_left (List.getElem?_eq_some_iff.1 he').1, he'] at he
    exact hterm (congrArg LogEntry.term (Option.some.inj he))

/-- At an announced entry that the follower has, only the merge matters. -/
theorem of_covered (hlong : prev < F.length) : Fits L F (prev + 2) ↔
    F <+: L ∧ (L.drop (prev + 1)).take (L.length - F.length) = L.drop F.length := by
  have hne : F ≠ [] := List.ne_nil_of_length_pos (by omega)
  simp only [Fits, hne, false_or, show 2 ≤ prev + 2 by omega, true_and,
    show prev + 2 - 1 = prev + 1 from rfl]
  refine and_congr_right fun _ => or_iff_right_of_imp fun hlt => ?_
  -- the announced entry is the follower's last
  rw [show prev + 1 = F.length by omega, List.take_of_length_le (by rw [List.length_drop])]

end Fits

/-! ## The merged log -/

/-- The merge gives the leader's log exactly when the follower has a prefix of it and the
entries sent after position `prev` begin with the missing ones. -/
theorem take_spliceEntries {L F : List (LogEntry T)} {prev : Nat} (hpos : 0 < prev)
    (hle : prev ≤ L.length) :
    (Server.spliceEntries F prev (L.drop prev)).take L.length = L ↔
      F <+: L ∧ (L.drop prev).take (L.length - F.length) = L.drop F.length := by
  have hsize : (L.drop prev).length + prev = L.length := by
    rw [List.length_drop]
    omega
  unfold Server.spliceEntries
  by_cases hlt : (L.drop prev).length + prev < F.length
  · -- the truncated log ends one entry before the leader's
    rw [if_pos hlt]
    constructor
    · intro h
      have hlen := congrArg List.length h
      simp only [List.length_take, List.length_append, List.length_drop] at hlen
      omega
    · rintro ⟨hpre, _⟩
      have := hpre.length_le
      omega
  · rw [if_neg hlt, List.take_append, List.take_of_length_le (by omega)]
    constructor
    · intro h
      have hpre : F <+: L := ⟨_, h⟩
      have happend : F ++ (L.drop prev).take (L.length - F.length) = F ++ L.drop F.length :=
        h.trans (List.prefix_iff_eq_append.1 hpre).symm
      exact ⟨hpre, List.append_cancel_left happend⟩
    · rintro ⟨hpre, hrest⟩
      rw [hrest, List.prefix_iff_eq_append.1 hpre]

/-! ## One round -/

section Round

variable {conf : Config} {conn : Addr} {followerId : NodeId} {env : Env}
  {leader follower : State T}

/-- A rejection makes the leader step back by one entry and changes nothing else. -/
theorem heartbeatResponse_of_rejected {next logSize : Nat} {resp : AppendEntriesResponse}
    (hresp : resp.success = false) (hnext : leader.nextIndex.lookup conn = some next)
    (hlt : 1 < next) :
    Raft.heartbeatResponse leader conn logSize resp =
      { leader with nextIndex := leader.nextIndex.insert conn (next - 1) } := by
  simp [Raft.heartbeatResponse, hresp, hnext, hlt]

variable {req : AppendEntriesRequest T}

/-- A round in which the checks of the follower stop the request. -/
theorem round_of_rejects (hreq : Raft.heartbeatRequest conf leader conn = some req)
    (hterm : follower.nodeTerm ≤ req.term)
    (hcheck : Server.checkPrevLog follower.log req.prevLogIndex req.prevLogTerm = .rejects) :
    round conf conn followerId env leader follower = .rejected
      (Raft.heartbeatResponse leader conn leader.log.length
        ⟨followerId, follower.nodeTerm, false⟩) follower := by
  have hnot : ¬ (req.term < follower.nodeTerm ∧ follower.nodeType = .leader) :=
    fun h => absurd h.1 (not_lt.2 hterm)
  simp [round, hreq, Server.appendEntries, hnot, hcheck]

theorem round_of_panics (hreq : Raft.heartbeatRequest conf leader conn = some req)
    (hterm : follower.nodeTerm ≤ req.term)
    (hcheck : Server.checkPrevLog follower.log req.prevLogIndex req.prevLogTerm = .panics) :
    round conf conn followerId env leader follower = .panicked := by
  have hnot : ¬ (req.term < follower.nodeTerm ∧ follower.nodeType = .leader) :=
    fun h => absurd h.1 (not_lt.2 hterm)
  simp [round, hreq, Server.appendEntries, hnot, hcheck]

/-- A round whose request passes the checks merges the logs; it panics only when the
announced commit index lies outside the merged log. -/
theorem round_of_passes (hreq : Raft.heartbeatRequest conf leader conn = some req)
    (hterm : follower.nodeTerm ≤ req.term)
    (hcheck : Server.checkPrevLog follower.log req.prevLogIndex req.prevLogTerm = .passes) :
    (round conf conn followerId env leader follower = .panicked ∧
      (Server.spliceEntries follower.log req.prevLogIndex req.entries).length
        < req.leaderCommit) ∨
    ∃ follower', follower'.log =
        Server.spliceEntries follower.log req.prevLogIndex req.entries ∧
      round conf conn followerId env leader follower = .accepted
        (Raft.heartbeatResponse leader conn leader.log.length ⟨followerId, req.term, true⟩)
        follower' := by
  have hnot : ¬ (req.term < follower.nodeTerm ∧ follower.nodeType = .leader) :=
    fun h => absurd h.1 (not_lt.2 hterm)
  simp only [round, hreq, Server.appendEntries, if_neg hnot, hcheck,
    Server.acceptEntries_commitedIndex, Server.acceptEntries_log, Server.acceptEntries_nodeTerm]
  by_cases hcommit : follower.commitedIndex < req.leaderCommit
  · rw [if_pos hcommit]
    by_cases hle : req.leaderCommit ≤
        (Server.spliceEntries follower.log req.prevLogIndex req.entries).length
    · have hfin := (deliverRange_finished_iff hcommit).2 hle
      refine Or.inr ⟨{ Server.acceptEntries env follower req with
        commitedIndex := req.leaderCommit }, Server.acceptEntries_log env follower req, ?_⟩
      rw [if_pos hfin]
      rfl
    · have hfin := mt (deliverRange_finished_iff hcommit).1 hle
      refine Or.inl ⟨?_, by omega⟩
      rw [if_neg hfin]
  · rw [if_neg hcommit]
    exact Or.inr ⟨Server.acceptEntries env follower req,
      Server.acceptEntries_log env follower req, rfl⟩

end Round

/-! ## The rounds -/

section Rounds

variable {conf : Config} {conn : Addr} {followerId : NodeId} {env : Nat → Env} {next : Nat}
  {leader follower : State T}

namespace Ready

/-- After a rejection the two are still to be brought together, from one entry before. -/
theorem of_rejected (h : Ready conn (next + 1) leader follower) (hpos : 1 ≤ next)
    (logSize : Nat) {resp : AppendEntriesResponse} (hresp : resp.success = false) :
    Ready conn next (Raft.heartbeatResponse leader conn logSize resp) follower := by
  rw [heartbeatResponse_of_rejected hresp h.nextIndex (by omega)]
  exact
    { nextIndex := AList.lookup_insert _
      next_pos := hpos
      next_le := (Nat.le_succ next).trans h.next_le
      term_le := h.term_le
      matching := h.matching
      commits := h.commits }

end Ready

/-- A rejected request leaves the rest to the remaining rounds. -/
theorem catchesUp_of_rejects {rounds : Nat} {req : AppendEntriesRequest T}
    (hready : Ready conn (next + 2) leader follower)
    (hreq : Raft.heartbeatRequest conf leader conn = some req)
    (hterm : follower.nodeTerm ≤ req.term)
    (hcheck : Server.checkPrevLog follower.log req.prevLogIndex req.prevLogTerm = .rejects) :
    CatchesUp conf conn followerId env (rounds + 1) leader follower ↔
      CatchesUp conf conn followerId env rounds
        (Raft.heartbeatResponse leader conn leader.log.length
          ⟨followerId, follower.nodeTerm, false⟩) follower := by
  have hstep : (Raft.heartbeatResponse leader conn leader.log.length
      ⟨followerId, follower.nodeTerm, false⟩).nextIndex.lookup conn
        = (leader.nextIndex.lookup conn).map (· - 1) := by
    rw [(hready.of_rejected (by omega) _ rfl).nextIndex, hready.nextIndex]
    rfl
  rw [CatchesUp, round_of_rejects hreq hterm hcheck]
  exact and_iff_right hstep

/-- An accepted request decides: the merged log is the leader's, or it is not. -/
theorem catchesUp_of_passes {rounds : Nat} {req : AppendEntriesRequest T}
    (hready : Ready conn next leader follower)
    (hreq : Raft.heartbeatRequest conf leader conn = some req)
    (hterm : follower.nodeTerm ≤ req.term)
    (hcheck : Server.checkPrevLog follower.log req.prevLogIndex req.prevLogTerm = .passes)
    (hcommit : req.leaderCommit = leader.commitedIndex) :
    CatchesUp conf conn followerId env (rounds + 1) leader follower ↔
      (Server.spliceEntries follower.log req.prevLogIndex req.entries).take leader.log.length
        = leader.log := by
  rw [CatchesUp]
  rcases round_of_passes hreq hterm hcheck with ⟨hround, hlt⟩ | ⟨follower', hlog, hround⟩
  · -- the delivery loop leaves the merged log, which is then shorter than both logs
    rw [hround, false_iff]
    intro htake
    have hlen := congrArg List.length htake
    rw [List.length_take] at hlen
    obtain ⟨common, hleader, _, hle, _⟩ := hready.commits
    omega
  · rw [hround]
    simp only [hlog, and_iff_left_iff_imp]
    intro _ hpos
    simp [Raft.heartbeatResponse, hpos]

/-- At the first next index only an empty log is filled; any other panics. -/
theorem catchesUp_one (h : Ready conn 1 leader follower) :
    CatchesUp conf conn followerId env 1 leader follower ↔ Fits leader.log follower.log 1 := by
  have hreq := Raft.heartbeatRequest_of_one conf h.nextIndex
  cases hlog : follower.log with
  | nil =>
    have hcheck : Server.checkPrevLog follower.log 0 0 = .passes :=
      Server.checkPrevLog_eq_passes.2 (Or.inl ⟨hlog, rfl⟩)
    rw [catchesUp_of_passes h hreq h.term_le hcheck rfl]
    simp [Fits, Server.spliceEntries, hlog]
  | cons e F =>
    have hcheck : Server.checkPrevLog follower.log 0 0 = .panics := by
      simp [Server.checkPrevLog, hlog]
    rw [CatchesUp, round_of_panics hreq h.term_le hcheck]
    simp [Fits]

/-- **The follower catches up within `next` rounds exactly when the logs fit.** -/
theorem catchesUp_iff (h : Ready conn next leader follower) :
    CatchesUp conf conn followerId env next leader follower ↔
      Fits leader.log follower.log next := by
  obtain ⟨prev, rfl⟩ : ∃ prev, next = prev + 1 := ⟨next - 1, (Nat.sub_add_cancel h.next_pos).symm⟩
  induction prev generalizing leader with
  | zero => exact catchesUp_one h
  | succ prev ih =>
    have hlt : prev < leader.log.length := by
      have := h.next_le
      omega
    obtain ⟨entry, hentry⟩ : ∃ entry, leader.log[prev]? = some entry :=
      ⟨_, List.getElem?_eq_getElem hlt⟩
    have hreq := Raft.heartbeatRequest_of_succ conf h.nextIndex hentry
    have hback : Ready conn (prev + 1) (Raft.heartbeatResponse leader conn leader.log.length
        ⟨followerId, follower.nodeTerm, false⟩) follower :=
      h.of_rejected (by omega) _ rfl
    have hlog : (Raft.heartbeatResponse leader conn leader.log.length
        ⟨followerId, follower.nodeTerm, false⟩).log = leader.log := by simp
    rcases Nat.lt_or_ge follower.log.length (prev + 1) with hshort | hlong
    · -- the follower's log ends before the announced entry
      have hcheck : Server.checkPrevLog follower.log (prev + 1) entry.term = .rejects := by
        simp [Server.checkPrevLog, hshort, Nat.not_le.2 hshort]
      rw [catchesUp_of_rejects h hreq h.term_le hcheck, ih hback, hlog]
      exact Fits.of_short (Nat.le_of_lt_succ hshort)
    · obtain ⟨entry', hentry'⟩ : ∃ entry', follower.log[prev]? = some entry' :=
        ⟨_, List.getElem?_eq_getElem hlong⟩
      by_cases hterm : entry'.term = entry.term
      · have hcheck : Server.checkPrevLog follower.log (prev + 1) entry.term = .passes :=
          Server.checkPrevLog_eq_passes.2 (Or.inr ⟨by omega, entry', hentry', hterm⟩)
        rw [catchesUp_of_passes h hreq h.term_le hcheck rfl, take_spliceEntries (by omega) hlt,
          Fits.of_covered hlong]
      · have hcheck : Server.checkPrevLog follower.log (prev + 1) entry.term = .rejects := by
          rw [Server.checkPrevLog, if_pos (by omega), if_pos hlong]
          simp [hentry', hterm]
        rw [catchesUp_of_rejects h hreq h.term_le hcheck, ih hback, hlog]
        exact iff_of_false (Fits.not_of_conflict hentry hentry' hterm _)
          (Fits.not_of_conflict hentry hentry' hterm _)

end Rounds

/-! ## Two rounds -/

/-- The configuration of the leader of a pair. -/
def pair : Config := ⟨1, "a", ["b"]⟩

/-- A leader of term 2 that knows one peer. -/
def leaderOf (log : List (LogEntry Nat)) (next : Nat) : State Nat :=
  { State.new (.atTime 0) ["b"] ⟨2, some 1, log⟩ with
    nodeType := .leader
    nextIndex := IndexMap.insertAll ∅ ["b"] next }

/-- Its peer. -/
def followerOf (log : List (LogEntry Nat)) : State Nat :=
  State.new (.atTime 0) ["a"] ⟨1, none, log⟩

/-- A leader with three entries and a peer with the first one. -/
theorem catchesUp_iff_pair :
    Ready "b" 4 (leaderOf [⟨7, 1⟩, ⟨8, 1⟩, ⟨9, 2⟩] 4) (followerOf [⟨7, 1⟩]) ∧
      CatchesUp pair "b" 2 (fun _ => .atTime 10) 4
        (leaderOf [⟨7, 1⟩, ⟨8, 1⟩, ⟨9, 2⟩] 4) (followerOf [⟨7, 1⟩]) := by
  have hready : Ready "b" 4 (leaderOf [⟨7, 1⟩, ⟨8, 1⟩, ⟨9, 2⟩] 4) (followerOf [⟨7, 1⟩]) :=
    { nextIndex := by decide
      next_pos := by decide
      next_le := by decide
      term_le := by decide
      matching := by
        intro k e e' _ he' _
        have hk := (List.getElem?_eq_some_iff.1 he').1
        obtain rfl : k = 0 := Nat.lt_one_iff.1 hk
        rfl
      commits := ⟨0, by decide⟩ }
  exact ⟨hready, (catchesUp_iff hready).2 (by decide)⟩

/-- The peer's only entry conflicts with the leader's: the first request is rejected, and
the second announces nothing before it and makes the peer panic. -/
theorem not_catchesUp : ¬ ∀ (conf : Config) (conn : Addr) (followerId : NodeId)
    (env : Nat → Env) (next : Nat) (leader follower : State Nat),
    Ready conn next leader follower →
      CatchesUp conf conn followerId env next leader follower := by
  intro hall
  have hready : Ready "b" 2 (leaderOf [⟨9, 2⟩] 2) (followerOf [⟨7, 1⟩]) :=
    { nextIndex := by decide
      next_pos := by decide
      next_le := by decide
      term_le := by decide
      matching := by
        intro k e e' he he' hterm
        have hk := (List.getElem?_eq_some_iff.1 he').1
        obtain rfl : k = 0 := Nat.lt_one_iff.1 hk
        cases he
        cases he'
        exact absurd hterm (by decide)
      commits := ⟨0, by decide⟩ }
  have hrounds := hall pair "b" 2 (fun _ => .atTime 10) 2 _ _ hready
  -- the first round evaluates to a rejection, the second to a panic
  exact hrounds.2

end CatchUp
end Quaso
