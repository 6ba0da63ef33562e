import Quaso.Raft.Transitions

/-!
# The steps that go wrong

Each predicate of this file describes one kind of step at which the code leaves
the protocol, in terms of the state before the step and of what arrives there.
The safety theorems are about runs that avoid some of them; the conditions
`TermOk`, `VoteOk`, `GapOk`, `LeadOk`, `MatchOk`, `ExtendOk`, `PrefixOk` and
`FlagOk` say which.

* `staleAppend` — an append request of an older term passes the checks, which
  compare the terms only on a leader.
* `termWraps` — the term is raised at `u32::MAX`.
* `lateSettle` — the term of a denial is installed after the lock was dropped,
  although the node has moved on to a later one meanwhile.
* `gapVote` — a vote is granted between becoming a candidate and starting the
  election, which then records the node's own vote in the same term.
* `equalDenial` — a denial of the node's own term makes it forget its vote.
* `deniedVote` — a vote of the same term is granted in the gap after a denial.
* `wonWrite` — a handler changes the term or the log between the count of the
  votes and the moment the node takes the leader role.
* `shiftedAppend`, `misplacedAppend` — entries are accepted that do not continue
  the log exactly at its end.
* `oldCommit` — a quorum of match indices shares an entry of an earlier term.
* `cutsCommitted` — the log is truncated into its committed part.
* `deposes` — a handler makes a follower of a leader, without the flag for the
  clients.
-/

namespace Quaso

variable {T : Type}

/-- The term a step installs late, after a denial. -/
def Node.settles (n : Node T) : Action T → Option NodeTerm
  | .advance _ =>
    match n.tick with
    | .denied term => some term
    | _ => none
  | _ => none

/-! ## Terms and votes -/

/-- An append request of an older term passes the checks. -/
def staleAppend (n : Node T) (action : Action T) : Bool :=
  match n.handled action with
  | some (.appendEntries req) =>
    Server.accepts n.state req && decide (req.term < n.state.nodeTerm)
  | _ => false

/-- The term is raised although it is `u32::MAX`. -/
def termWraps (n : Node T) : Action T → Bool
  | .advance _ =>
    match n.tick with
    | .becoming | .timedOut => decide (n.state.nodeTerm = Fin.last _)
    | _ => false
  | _ => false

/-- The term of a denial is installed although the node's term is later. -/
def lateSettle (n : Node T) (action : Action T) : Bool :=
  match n.settles action with
  | some term => decide (term < n.state.nodeTerm)
  | none => false

/-- A vote is granted between becoming a candidate and starting the election. -/
def gapVote (n : Node T) (action : Action T) : Bool :=
  match n.tick, n.handled action with
  | .candidate, some (.requestVote req) => Server.grants n.state req
  | _, _ => false

/-- A denial carries the node's own term. -/
def equalDenial (n : Node T) : Action T → Bool
  | .voteAnswer (.reply resp) => !resp.voteGranted && decide (resp.term = n.state.nodeTerm)
  | _ => false

/-- After a denial, before its term is installed, a vote of the node's own term
is granted. -/
def deniedVote (n : Node T) (action : Action T) : Bool :=
  match n.tick, n.handled action with
  | .denied _, some (.requestVote req) =>
    Server.grants n.state req && decide (req.term = n.state.nodeTerm) && n.state.votedFor.isNone
  | _, _ => false

/-- A handler changes the term or the log between the count of the votes and the
leader role. -/
def wonWrite (n : Node T) (action : Action T) : Bool :=
  match n.tick, n.handled action with
  | .won _ _, some (.requestVote req) =>
    Server.grants n.state req && decide (req.term ≠ n.state.nodeTerm)
  | .won _ _, some (.appendEntries req) =>
    Server.accepts n.state req &&
      (decide (req.term ≠ n.state.nodeTerm) || decide (req.prevLogIndex ≠ n.state.log.length) ||
        !req.entries.isEmpty)
  | _, _ => false

/-! ## Logs -/

/-- Entries are accepted although the announced prefix is not the whole log. -/
def misplacedAppend (n : Node T) (action : Action T) : Bool :=
  match n.handled action with
  | some (.appendEntries req) =>
    Server.accepts n.state req && decide (req.prevLogIndex ≠ n.state.log.length) &&
      !req.entries.isEmpty
  | _ => false

/-- A request is accepted although the announced prefix is not the whole log. -/
def shiftedAppend (n : Node T) (action : Action T) : Bool :=
  match n.handled action with
  | some (.appendEntries req) =>
    Server.accepts n.state req && decide (req.prevLogIndex ≠ n.state.log.length)
  | _ => false

/-- A quorum of the match indices is ahead of the commit index, at an entry that is not
of the node's own term. -/
def oldCommit (conf : Config) (n : Node T) : Bool :=
  n.state.matchIndex.values.any fun index =>
    decide (n.state.commitedIndex < index) &&
      decide (getQuorumLength conf ≤ n.state.matchIndex.values.count index) &&
      decide ((n.state.log[index - 1]?).map LogEntry.term ≠ some n.state.nodeTerm)

/-- An accepted request truncates the log into its committed part. -/
def cutsCommitted (n : Node T) (action : Action T) : Bool :=
  match n.handled action with
  | some (.appendEntries req) =>
    Server.accepts n.state req &&
      decide (req.entries.length + req.prevLogIndex < n.state.log.length ∧
        req.prevLogIndex ≤ n.state.commitedIndex)
  | _ => false

/-! ## The flag -/

/-- A handler grants a vote or accepts entries on a node that leads. -/
def deposes (n : Node T) (action : Action T) : Bool :=
  decide (n.state.nodeType = .leader) &&
    match n.handled action with
    | some (.requestVote req) => Server.grants n.state req
    | some (.appendEntries req) => Server.accepts n.state req
    | _ => false

/-! ## Conditions on the steps of a run -/

/-- The steps that keep the term growing. -/
def TermOk (n : Node T) (action : Action T) : Prop :=
  staleAppend n action = false ∧ termWraps n action = false ∧ lateSettle n action = false

/-- The steps that keep a node to one vote in a term. -/
def VoteOk (n : Node T) (action : Action T) : Prop :=
  TermOk n action ∧ gapVote n action = false ∧ equalDenial n action = false ∧
    deniedVote n action = false

/-- The steps that keep what the votes were counted for. -/
def GapOk (n : Node T) (action : Action T) : Prop := wonWrite n action = false

/-- The steps that keep a term to one leader. -/
def LeadOk (n : Node T) (action : Action T) : Prop :=
  VoteOk n action ∧ GapOk n action

/-- The steps that keep logs matching. -/
def MatchOk (n : Node T) (action : Action T) : Prop :=
  LeadOk n action ∧ misplacedAppend n action = false

/-- The steps that keep a term to one leader and only ever extend a log: besides `LeadOk`,
every accepted request continues the log at its end. -/
def ExtendOk (n : Node T) (action : Action T) : Prop :=
  LeadOk n action ∧ shiftedAppend n action = false

/-- The steps that keep the committed part of the log. -/
def PrefixOk (n : Node T) (action : Action T) : Prop := cutsCommitted n action = false

/-- The steps that keep the flag for the clients. -/
def FlagOk (n : Node T) (action : Action T) : Prop := deposes n action = false

/-- Logs that are only extended keep matching. -/
theorem ExtendOk.matchOk {n : Node T} {action : Action T} (h : ExtendOk n action) :
    MatchOk n action := by
  refine ⟨h.1, ?_⟩
  have hshift := h.2
  unfold shiftedAppend at hshift
  unfold misplacedAppend
  split at hshift
  · simp only [hshift, Bool.false_and]
  · rfl

/-- A step that runs no handler, raises no term and is no denial keeps to the protocol. -/
theorem ExtendOk.of_quiet {n : Node T} {action : Action T} (hhandled : n.handled action = none)
    (hraise : termWraps n action = false) (hsettle : n.settles action = none)
    (hdenial : equalDenial n action = false) : ExtendOk n action := by
  refine ⟨⟨⟨⟨?_, hraise, ?_⟩, ?_, hdenial, ?_⟩, ?_⟩, ?_⟩
  · simp [staleAppend, hhandled]
  · simp [lateSettle, hsettle]
  · simp [gapVote, hhandled]
  · simp [deniedVote, hhandled]
  · simp [GapOk, wonWrite, hhandled]
  · simp [shiftedAppend, hhandled]

/-- A handler on a node that is not between two sections of its tick task keeps to the
protocol, if the request it accepts is not of an older term and continues the log. -/
theorem ExtendOk.of_handle {n : Node T} {req : RequestPattern T} {written : Bool}
    (hhandled : n.handled (.handle written) = some req) (htick : n.tick = .idle)
    (happend : ∀ r, req = .appendEntries r → n.state.nodeTerm ≤ r.term ∧
      r.prevLogIndex = n.state.log.length) : ExtendOk n (.handle written) := by
  refine ⟨⟨⟨⟨?_, rfl, rfl⟩, ?_, rfl, ?_⟩, ?_⟩, ?_⟩
  · unfold staleAppend
    rw [hhandled]
    cases req with
    | appendEntries r => simp [(happend r rfl).1]
    | _ => rfl
  · simp [gapVote, htick]
  · simp [deniedVote, htick]
  · simp [GapOk, wonWrite, htick]
  · unfold shiftedAppend
    rw [hhandled]
    cases req with
    | appendEntries r => simp [(happend r rfl).2]
    | _ => rfl

instance (n : Node T) (action : Action T) : Decidable (TermOk n action) :=
  inferInstanceAs (Decidable (_ ∧ _))

instance (n : Node T) (action : Action T) : Decidable (VoteOk n action) :=
  inferInstanceAs (Decidable (_ ∧ _))

instance (n : Node T) (action : Action T) : Decidable (GapOk n action) :=
  inferInstanceAs (Decidable (_ = _))

instance (n : Node T) (action : Action T) : Decidable (LeadOk n action) :=
  inferInstanceAs (Decidable (_ ∧ _))

instance (n : Node T) (action : Action T) : Decidable (MatchOk n action) :=
  inferInstanceAs (Decidable (_ ∧ _))

instance (n : Node T) (action : Action T) : Decidable (ExtendOk n action) :=
  inferInstanceAs (Decidable (_ ∧ _))

instance (n : Node T) (action : Action T) : Decidable (PrefixOk n action) :=
  inferInstanceAs (Decidable (_ = _))

instance (n : Node T) (action : Action T) : Decidable (FlagOk n action) :=
  inferInstanceAs (Decidable (_ = _))

end Quaso
