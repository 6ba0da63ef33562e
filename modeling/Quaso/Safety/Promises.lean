import Quaso.Raft.Disk
import Quaso.Handlers.Outcome
import Quaso.Safety.Term

/-!
# What the answers of a node promise

A node answers vote and append requests from memory.  This file says what those
answers commit it to, and which of its steps keep to that.

* `Recovered` — a persistent state keeps what the served requests were answered.
* `Keeps` — the invariant behind it: the term has reached every answer, the vote of
  the present term is known, and the entries acknowledged to the last leader are in
  the log below the length it had then.
* `PromiseOk` — the steps that keep it: the term does not fall, no vote is granted
  between becoming candidate and starting the election, and no truncation reaches
  acknowledged entries.
* `Node.serves_spec` — what is recorded of a served request is what the handler did.
* `Keeps.step`, `Unpledged.step`, `Ordered.append` — one step.
-/

namespace Quaso

variable {T : Type} {conf : Config} {env : Env} {n n' : Node T} {action : Action T}
  {effect : Effect T}

/-! ## What was promised -/

namespace Served

/-- The term in a vote or append reply. -/
def replyTerm (a : Served T) : Option NodeTerm :=
  match a.reply with
  | some (.requestVote resp) => some resp.term
  | some (.appendEntries resp) => some resp.term
  | _ => none

/-- The term and the candidate of a vote that was granted. -/
def granted (a : Served T) : Option (NodeTerm × NodeId) :=
  match a.req, a.reply with
  | .requestVote req, some (.requestVote resp) =>
    if resp.voteGranted then some (req.term, req.candidateId) else none
  | _, _ => none

/-- The leader that an append request comes from, with its term. -/
def leader (a : Served T) : Option (NodeId × NodeTerm) :=
  match a.req with
  | .appendEntries req => some (req.leaderId, req.term)
  | _ => none

/-- The entries of an append request that was answered with success. -/
def acknowledged (a : Served T) : List (LogEntry T) :=
  match a.req, a.reply with
  | .appendEntries req, some (.appendEntries resp) => if resp.success then req.entries else []
  | _, _ => []

/-- What an answer says is what the handler did. -/
structure Sound (a : Served T) : Prop where
  replyTerm : ∀ t, a.replyTerm = some t → t = a.term
  granted : ∀ t c, a.granted = some (t, c) → t = a.term ∧ a.votedFor = some c
  leader : a.stored ≠ [] → ∃ id, a.leader = some (id, a.term)
  acknowledged : ∀ e ∈ a.acknowledged, e ∈ a.stored

end Served

/-- The last request whose entries were accepted. -/
def lastStored (served : List (Served T)) : Option (Served T) :=
  (served.filter fun a => !a.stored.isEmpty).getLast?

/-- A persistent state keeps what was answered: the terms, the vote of its term, and the
entries acknowledged to the leader whose entries were accepted last. -/
structure Recovered (served : List (Served T)) (p : PersistentState T) : Prop where
  term : ∀ a ∈ served, ∀ t, a.replyTerm = some t → t ≤ p.nodeTerm
  vote : ∀ a ∈ served, ∀ c, a.granted = some (p.nodeTerm, c) → p.votedFor = some c
  log : ∀ last, lastStored served = some last → ∀ a ∈ served, a.leader = last.leader →
    ∀ e ∈ a.acknowledged, e ∈ p.log

/-! ## The invariant of a running node -/

/-- No entries were accepted in a later term than that of the request. -/
def Current (served : List (Served T)) (a : Served T) : Prop :=
  ∀ r ∈ served, r.stored ≠ [] → r.term ≤ a.term

instance instDecidableCurrent (served : List (Served T)) (a : Served T) :
    Decidable (Current served a) :=
  inferInstanceAs (Decidable (∀ r ∈ served, r.stored ≠ [] → r.term ≤ a.term))

/-- A persistent state and the requests served: the invariant. -/
structure Keeps (served : List (Served T)) (p : PersistentState T) : Prop where
  term : ∀ a ∈ served, a.term ≤ p.nodeTerm
  vote : ∀ a ∈ served, ∀ c, a.granted = some (p.nodeTerm, c) → p.votedFor = some c
  /-- What was acknowledged in the last term of which entries were accepted is in the log,
  below the length the log had then. -/
  log : ∀ a ∈ served, Current served a → a.acknowledged ≠ [] →
    a.logLength ≤ p.log.length ∧ ∀ e ∈ a.acknowledged, e ∈ p.log.take a.logLength

/-- Entries are accepted in terms that do not fall. -/
def Ordered (served : List (Served T)) : Prop :=
  ∀ last, lastStored served = some last → ∀ a ∈ served, a.stored ≠ [] → a.term ≤ last.term

/-- The invariant is what has to be recovered, and more. -/
theorem Keeps.recovered {served : List (Served T)} {p : PersistentState T} (h : Keeps served p)
    (hsound : ∀ a ∈ served, a.Sound) (hordered : Ordered served) : Recovered served p where
  term := by
    intro a ha t ht
    rw [(hsound a ha).replyTerm t ht]
    exact h.term a ha
  vote := h.vote
  log := by
    intro last hlast a ha hleader e he
    have hmem : last ∈ served ∧ last.stored ≠ [] := by
      have := List.mem_filter.1 (List.mem_of_getLast? hlast)
      simpa using this
    obtain ⟨id, hid⟩ := (hsound last hmem.1).leader hmem.2
    obtain ⟨id', hid'⟩ := (hsound a ha).leader
      (List.ne_nil_of_mem ((hsound a ha).acknowledged e he))
    have hterm : a.term = last.term := by
      rw [hleader, hid] at hid'
      exact (Prod.mk.inj (Option.some.inj hid')).2.symm
    have hcurrent : Current served a := by
      intro r hr hstored
      rw [hterm]
      exact hordered last hlast r hr hstored
    exact List.mem_of_mem_take ((h.log a ha hcurrent (List.ne_nil_of_mem he)).2 e he)

/-- Whether the tick task is on its way through an election. -/
def Tick.soliciting : Tick T → Bool
  | .candidate | .election .. | .electionWait .. => true
  | _ => false

/-- During an election nothing has been granted in its term. -/
def Unpledged (served : List (Served T)) (n : Node T) : Prop :=
  n.tick.soliciting = true → ∀ a ∈ served, ∀ c, a.granted ≠ some (n.state.nodeTerm, c)

/-- An accepted request truncates the log below the end of entries that were acknowledged
and that no leader of a later term has replaced. -/
def cutsAcknowledged (served : List (Served T)) (n : Node T) (action : Action T) : Bool :=
  match n.handled action with
  | some (.appendEntries req) =>
    Server.accepts n.state req &&
      decide (req.entries.length + req.prevLogIndex < n.state.log.length) &&
      served.any fun a => !a.acknowledged.isEmpty && decide (Current served a) &&
        decide (req.prevLogIndex - 1 < a.logLength) &&
        (req.entries.isEmpty || decide (req.term ≤ a.term))
  | _ => false

/-- The steps of a running node that keep what it has promised. -/
def PromiseOk (served : List (Served T)) (n : Node T) (action : Action T) : Prop :=
  TermOk n action ∧ gapVote n action = false ∧ cutsAcknowledged served n action = false

instance instDecidablePromiseOk (served : List (Served T)) (n : Node T) (action : Action T) :
    Decidable (PromiseOk served n action) :=
  inferInstanceAs (Decidable (_ ∧ _))

/-! ## What a step serves -/

/-- The record of a served request says what the handler did. -/
theorem Node.serves_spec (h : Node.Step conf env n action n' effect) {a : Served T}
    (ha : a ∈ n.serves n' action effect) :
    a.Sound ∧ a.term = n'.state.nodeTerm ∧ a.votedFor = n'.state.votedFor ∧
      a.logLength = n'.state.log.length ∧ ∀ e ∈ a.stored, e ∈ n'.state.log := by
  cases h with
  | handleRefuse written cid req listener effect hlock hlistener hgrant hresp
  | handleGrant written cid req listener effect hlock hlistener hgrant hresp =>
    obtain rfl : a = _ := by simpa [serves, handled, hlistener] using ha
    refine ⟨⟨?_, ?_, by simp, by simp [Served.acknowledged]⟩, rfl, rfl, rfl, by simp⟩
    · cases hresp <;> simp [Served.replyTerm, Effect.response]
    · cases hresp <;> simp [Served.granted, Effect.response]
  | handleReject written cid req listener effect hlock hlistener haccept hresp =>
    obtain rfl : a = _ := by simpa [serves, handled, hlistener] using ha
    refine ⟨⟨?_, by simp [Served.granted], by simp [Server.stores, haccept], ?_⟩, rfl, rfl, rfl,
      by simp [Server.stores, haccept]⟩
    · cases hresp <;> simp [Served.replyTerm, Effect.response]
    · cases hresp <;> simp [Served.acknowledged, Effect.response]
  | handleAppend written cid req commit sent listener effect hlock hlistener haccept hcommit hsent
      hresp =>
    obtain rfl : a = _ := by simpa [serves, handled, hlistener] using ha
    refine ⟨⟨?_, by simp [Served.granted], fun _ => ⟨req.leaderId, rfl⟩, ?_⟩, rfl, by simp,
      by simp, ?_⟩
    · cases hresp <;> simp [Served.replyTerm, Effect.response]
    · cases hresp <;> simp [Served.acknowledged, Effect.response, Server.stores, haccept]
    · intro e he
      have hmem : e ∈ req.entries := by simpa [Server.stores, haccept] using he
      simp only [Server.acceptEntries_log, Server.spliceEntries]
      split <;> exact List.mem_append_right _ hmem
  | handlePing written cid req listener effect hlock hlistener =>
    simp [serves, handled, hlistener] at ha
  | skip action htick haction =>
    simp [serves, handled_of_skip haction] at ha
  | tickDies action haction htick =>
    simp [serves, handled_of_tickDies haction] at ha
  | _ => cases ha

/-- Apart from a `gapVote`, a step grants only outside of elections. -/
theorem Node.serves_granted (h : Node.Step conf env n action n' effect) {a : Served T}
    (ha : a ∈ n.serves n' action effect) {t : NodeTerm} {c : NodeId}
    (hgranted : a.granted = some (t, c)) (hgap : gapVote n action = false) :
    n'.tick.soliciting = false := by
  have hreply : a.reply = effect.response := by
    unfold serves at ha
    split at ha
    · rw [List.mem_singleton.1 ha]
    · rw [List.mem_singleton.1 ha]
    · cases ha
  unfold Served.granted at hgranted
  split at hgranted
  · rename_i req resp hreq hresp
    split at hgranted
    · rename_i hvote
      rw [hreply] at hresp
      cases effect with
      | respond cid resp' =>
        obtain rfl : resp' = .requestVote resp := Option.some.inj hresp
        obtain ⟨q, _, hhandled, hgrants, hlock, htick, _⟩ := h.granted hvote
        rw [htick]
        cases htick' : n.tick with
        | candidate => simp [gapVote, htick', hhandled, hgrants] at hgap
        | election | electionWait => simp [htick', Tick.holdsLock] at hlock
        | _ => rfl
      | quiet => cases hresp
      | send => cases hresp
    · cases hgranted
  · cases hgranted

/-! ## What a step does to a promise -/

/-- A vote of an unchanged term is kept, outside of elections. -/
theorem Node.Step.vote_kept (h : Node.Step conf env n action n' effect) {c : NodeId}
    (htick : n.tick.soliciting = false) (hterm : n'.state.nodeTerm = n.state.nodeTerm)
    (hvoted : n.state.votedFor = some c) : n'.state.votedFor = some c := by
  cases h with
  | handleGrant written cid req listener effect hlock hlistener hgrant =>
    obtain ⟨_, hother, _⟩ := Server.grants_iff.1 hgrant
    rcases Server.votedForOther_eq_false.1 (hother hterm) with hnone | hsame
    · rw [hnone] at hvoted
      cases hvoted
    · exact hsame.symm.trans hvoted
  | handleAppend written cid req commit sent listener effect hlock hlistener haccept =>
    have hnot : ¬ n.state.nodeTerm < req.term := not_lt.2 (le_of_eq hterm)
    simpa [hnot] using hvoted
  | electionStart cid htick' => simp [htick', Tick.soliciting] at htick
  | electionDenied req conn cid conns resp htick' => simp [htick', Tick.soliciting] at htick
  | electionNext req conn cid conns resp state htick' hcount =>
    simp [htick', Tick.soliciting] at htick
  | electionWon req conn cid conns resp state htick' hcount =>
    simp [htick', Tick.soliciting] at htick
  | appendEntry | commit | heartbeatReply | heartbeatEnd => simpa using hvoted
  | _ => exact hvoted

/-- An election goes on, or the node has just become a candidate of a new term. -/
theorem Node.Step.soliciting_cases (h : Node.Step conf env n action n' effect)
    (htick : n'.tick.soliciting = true) :
    n.tick.soliciting = true ∨ n'.state.nodeTerm = n.state.nodeTerm + 1 := by
  cases h with
  | becomeCandidate => exact Or.inr rfl
  | electionStart cid htick' | electionSend cid req conn conns htick'
  | electionSkip req conn cid conns answer hanswer htick'
  | electionNext req conn cid conns resp state htick' =>
    exact Or.inl (by rw [htick']; rfl)
  | commit order tick htick₀ htick' => rcases htick' with rfl | rfl <;> cases htick
  | _ => first | exact Or.inl htick | cases htick

/-- Reading a request changes nothing that the lock protects. -/
theorem Node.Step.onlyReads_state (h : Node.Step conf env n action n' effect)
    (hread : action.onlyReads = true) : n'.state = n.state := by
  cases h with
  | skip action htick haction => rcases haction with rfl | rfl | rfl <;> cases hread
  | tickDies action haction htick => rfl
  | accept | abortListener => rfl
  | _ => cases hread

/-- A call of `try_persist_state` promises nothing and breaks no promise. -/
theorem PromiseOk.tryPersist {served : List (Served T)}
    (h : Node.Step conf env n .tryPersist n' effect) : PromiseOk served n .tryPersist := by
  refine ⟨.of_tick ?_ rfl, by simp [gapVote, Node.handled], rfl⟩
  cases h with
  | skip action htick haction => exact Or.inl htick
  | persist htick => exact Or.inl htick
  | tickDies action haction htick => exact htick

/-- Entries acknowledged to the last leader stay where they are. -/
theorem Node.Step.acknowledged_kept (h : Node.Step conf env n action n' effect)
    {served : List (Served T)} {a : Served T} (ha : a ∈ served)
    (hcut : cutsAcknowledged served n action = false)
    (hcurrent : Current (served ++ n.serves n' action effect) a) (hack : a.acknowledged ≠ [])
    (hle : a.logLength ≤ n.state.log.length) :
    a.logLength ≤ n'.state.log.length ∧
      n'.state.log.take a.logLength = n.state.log.take a.logLength := by
  refine h.take_log hle fun req hhandled haccept hterm hlt => ?_
  -- the cut is above the acknowledged entries, or they are replaced by a later leader
  by_contra hgt
  have hwrites : (req.entries.isEmpty || decide (req.term ≤ a.term)) = true := by
    cases hempty : req.entries.isEmpty with
    | true => rfl
    | false =>
      have hle : n'.state.nodeTerm ≤ a.term := hcurrent ⟨.appendEntries req, effect.response,
        Server.stores n.state (.appendEntries req), n'.state.nodeTerm, n'.state.votedFor,
        n'.state.log.length⟩
        (List.mem_append_right _ (by simp [serves, hhandled]))
        (by simpa [Server.stores, haccept] using hempty)
      simpa using hterm ▸ hle
  have hcurrent' : Current served a := fun r hr => hcurrent r (List.mem_append_left _ hr)
  simp only [cutsAcknowledged, hhandled, haccept, hlt, decide_true,
    Bool.true_and, List.any_eq_false] at hcut
  refine hcut a ha ?_
  rw [hwrites]
  simp [hack, hcurrent', Nat.lt_of_not_le hgt]

/-! ## The invariant along a run -/

section Steps

variable {served : List (Served T)}

/-- A term that is still the node's after a step was the node's before it. -/
theorem Keeps.term_eq (hkeeps : Keeps served n.state.toPersistentState)
    (hsound : ∀ a ∈ served, a.Sound) (hterm : n.state.nodeTerm ≤ n'.state.nodeTerm) {a : Served T}
    (ha : a ∈ served) {c : NodeId} (hgranted : a.granted = some (n'.state.nodeTerm, c)) :
    n'.state.nodeTerm = n.state.nodeTerm := by
  refine le_antisymm ?_ hterm
  rw [((hsound a ha).granted _ _ hgranted).1]
  exact hkeeps.term a ha

/-- **Every step that meets `PromiseOk` keeps what was promised.** -/
theorem Keeps.step (h : Node.Step conf env n action n' effect)
    (hok : PromiseOk served n action) (hsound : ∀ a ∈ served, a.Sound)
    (hkeeps : Keeps served n.state.toPersistentState) (hun : Unpledged served n) :
    Keeps (served ++ n.serves n' action effect) n'.state.toPersistentState where
  term := by
    have hterm := (Node.nodeTerm_le_iff h).2 hok.1
    intro a ha
    rcases List.mem_append.1 ha with hold | hnew
    · exact (hkeeps.term a hold).trans hterm
    · exact (Node.serves_spec h hnew).2.1.le
  vote := by
    have hterm := (Node.nodeTerm_le_iff h).2 hok.1
    intro a ha c hgranted
    rcases List.mem_append.1 ha with hold | hnew
    · have heq := hkeeps.term_eq hsound hterm hold hgranted
      rw [heq] at hgranted
      have htick : n.tick.soliciting = false := by
        rw [← Bool.not_eq_true]
        exact fun htick => hun htick a hold c hgranted
      exact h.vote_kept htick heq (hkeeps.vote a hold c hgranted)
    · obtain ⟨hsound', _, hvoted, _⟩ := Node.serves_spec h hnew
      rw [← hvoted]
      exact (hsound'.granted _ _ hgranted).2
  log := by
    intro a ha hcurrent hack
    rcases List.mem_append.1 ha with hold | hnew
    · obtain ⟨hle, hheld⟩ := hkeeps.log a hold
        (fun r hr => hcurrent r (List.mem_append_left _ hr)) hack
      obtain ⟨hle', htake⟩ := h.acknowledged_kept hold hok.2.2 hcurrent hack hle
      exact ⟨hle', htake ▸ hheld⟩
    · obtain ⟨hsound', _, _, hlength, hstored⟩ := Node.serves_spec h hnew
      rw [hlength, List.take_length]
      exact ⟨le_rfl, fun e he => hstored e (hsound'.acknowledged e he)⟩

/-- An election stays free of votes for others. -/
theorem Unpledged.step (h : Node.Step conf env n action n' effect)
    (hok : PromiseOk served n action) (hsound : ∀ a ∈ served, a.Sound)
    (hkeeps : Keeps served n.state.toPersistentState) (hun : Unpledged served n) :
    Unpledged (served ++ n.serves n' action effect) n' := by
  intro htick a ha c hgranted
  rcases List.mem_append.1 ha with hold | hnew
  · have heq := hkeeps.term_eq hsound ((Node.nodeTerm_le_iff h).2 hok.1) hold hgranted
    rcases h.soliciting_cases htick with hold' | hraise
    · exact hun hold' a hold c (heq ▸ hgranted)
    · exact ne_raise _ (heq.symm.trans hraise)
  · exact absurd htick (by simp [Node.serves_granted h hnew hgranted hok.2.1])

/-- New entries are accepted in the present term, which is the latest. -/
theorem Ordered.append {new : List (Served T)} {t : NodeTerm} (hordered : Ordered served)
    (hle : ∀ a ∈ served, a.term ≤ t) (hnew : ∀ a ∈ new, a.term = t) : Ordered (served ++ new) := by
  intro last hlast a ha hstored
  rw [lastStored, List.filter_append] at hlast
  have hat : a.term ≤ t := by
    rcases List.mem_append.1 ha with hold | hin
    · exact hle a hold
    · exact (hnew a hin).le
  rcases List.eq_nil_or_concat (new.filter fun a => !a.stored.isEmpty) with hnil | ⟨init, b, hcons⟩
  · rw [hnil, List.append_nil] at hlast
    rcases List.mem_append.1 ha with hold | hin
    · exact hordered last hlast a hold hstored
    · have hmem : a ∈ new.filter fun a => !a.stored.isEmpty :=
        List.mem_filter.2 ⟨hin, by simpa using hstored⟩
      rw [hnil] at hmem
      cases hmem
  · have hb : b ∈ new.filter fun a => !a.stored.isEmpty := by rw [hcons]; simp
    rw [hcons, List.concat_eq_append, ← List.append_assoc, List.getLast?_concat] at hlast
    obtain rfl := Option.some.inj hlast
    rw [hnew b (List.mem_filter.1 hb).1]
    exact hat

end Steps

end Quaso
