import Quaso.Lib.TermLog
import Quaso.Safety.Election

/-!
# Log matching

Each term has one leader, so the logs of a run can be compared with what the
leader of each term has written: a ledger, in the sense of `Quaso.Lib.TermLog`.

* `Writers` — the ledger of a run, with the leader that wrote each log.
* `Cluster.LedgerSound` — the invariant: leaders hold the ledger's log of their
  term, all other logs are consistent with it, and append requests carry parts
  of it.
* `Cluster.LedgerSound.step` — one step, with the ledger it leads to.
* `log_matching` — two logs with entries of one term at one position agree up to
  there.
-/

namespace Quaso

variable {n : Nat} {C : ClusterConfig n} {T : Type}

/-- Who has led each term, and the log it had when it last did. -/
abbrev Writers (n : Nat) (T : Type) := NodeTerm → Option (Fin n × List (LogEntry T))

namespace Writers

/-- The logs alone. -/
def logs (w : Writers n T) : TermLog.Ledger (LogEntry T) NodeTerm := fun t => (w t).map Prod.snd

/-- The same leaders with logs that have at most grown. -/
def Le (w w' : Writers n T) : Prop :=
  ∀ t i L, w t = some (i, L) → ∃ L', w' t = some (i, L') ∧ L <+: L'

/-- Note the log of node `i`, if it leads. -/
def record (w : Writers n T) (s : Cluster C T) (i : Fin n) : Writers n T := fun t =>
  if (s.nodes i).state.nodeType = .leader ∧ (s.nodes i).state.nodeTerm = t then
    some (i, (s.nodes i).state.log)
  else w t

theorem logs_eq_some {w : Writers n T} {t : NodeTerm} {L : List (LogEntry T)} :
    w.logs t = some L ↔ ∃ i, w t = some (i, L) := by
  simp [logs]

theorem Le.extends {w w' : Writers n T} (h : w.Le w') : TermLog.Extends w.logs w'.logs := by
  intro t L hL
  obtain ⟨i, hi⟩ := logs_eq_some.1 hL
  obtain ⟨L', hL', hpre⟩ := h t i L hi
  exact ⟨L', logs_eq_some.2 ⟨i, hL'⟩, hpre⟩

/-- What is recorded afterwards is the log just noted, or was recorded before. -/
theorem record_eq_some {w : Writers n T} {s : Cluster C T} {i j : Fin n} {t : NodeTerm}
    {L : List (LogEntry T)} (h : w.record s i t = some (j, L)) :
    ((s.nodes i).state.nodeType = .leader ∧ (s.nodes i).state.nodeTerm = t ∧ i = j ∧
      (s.nodes i).state.log = L) ∨ w t = some (j, L) := by
  unfold record at h
  split at h
  · rename_i hlead
    cases h
    exact Or.inl ⟨hlead.1, hlead.2, rfl, rfl⟩
  · exact Or.inr h

end Writers

/-- The entries of an append request are cut from the log `base`. -/
def AppendEntriesRequest.CutFrom (req : AppendEntriesRequest T) (base : List (LogEntry T)) :
    Prop :=
  TermLog.Cuts LogEntry.term req.prevLogIndex req.prevLogTerm req.entries base

namespace Cluster

variable {s s' : Cluster C T} {l : Label n T} {action : Action T} {effect : Effect T}
  {w : Writers n T}

/-- The logs of a cluster, compared with what the leaders have written. -/
structure LedgerSound (s : Cluster C T) (w : Writers n T) : Prop where
  /-- A leader holds the log of its term. -/
  leader : ∀ i, (s.nodes i).state.nodeType = .leader →
    w (s.nodes i).state.nodeTerm = some (i, (s.nodes i).state.log)
  elected : ∀ t i L, w t = some (i, L) → s.Elected i t
  /-- Who has led a term does not campaign for it again. -/
  retired : ∀ t i L, w t = some (i, L) → (s.nodes i).tick.campaign ≠ some t
  written : ∀ t i L, w t = some (i, L) →
    TermLog.Consistent LogEntry.term w.logs L ∧ ∀ e ∈ L, e.term ≤ t
  log : ∀ i, TermLog.Consistent LogEntry.term w.logs (s.nodes i).state.log
  bound : ∀ i, ∀ e ∈ (s.nodes i).state.log, e.term ≤ (s.nodes i).state.nodeTerm
  request : ∀ cid i dst req, s.Carries cid i dst (.appendEntries req) →
    ∃ j L base, w req.term = some (j, L) ∧ base <+: L ∧ req.CutFrom base

namespace LedgerSound

theorem start (C : ClusterConfig n) (T : Type) (boot : Fin n → Env) :
    LedgerSound (Cluster.start C T boot) fun _ => none where
  leader := by
    intro i hrole
    cases hrole
  elected := nofun
  retired := nofun
  written := nofun
  log := fun i => TermLog.Consistent.nil _ _
  bound := by
    intro i e he
    cases he
  request := by
    rintro cid i dst req ⟨c, hget, _⟩
    cases hget

/-! ## Accepted requests -/

/-- A request that a node is about to handle is cut from a log its leader has had. -/
theorem handling (hs : LedgerSound s w) (hnet : NetworkSound s) {i : Fin n} {cid : Nat}
    {req : AppendEntriesRequest T}
    (hlistener : (s.nodes i).listener = .handling cid (.appendEntries req)) :
    ∃ j L base, w req.term = some (j, L) ∧ base <+: L ∧ req.CutFrom base := by
  obtain ⟨j, hcarries⟩ := hnet.handling i cid _ hlistener
  exact hs.request cid j _ req hcarries

/-- Entries that are accepted at the end of a log continue it to the log they were
cut from. -/
theorem splice_eq (hs : LedgerSound s w) {i : Fin n} {req : AppendEntriesRequest T}
    {base : List (LogEntry T)} (hbase : TermLog.Consistent LogEntry.term w.logs base)
    (hcut : req.CutFrom base) (haccept : Server.accepts (s.nodes i).state req = true)
    (hend : req.prevLogIndex = (s.nodes i).state.log.length) :
    Server.spliceEntries (s.nodes i).state.log req.prevLogIndex req.entries = base := by
  have hcheck := Server.checkPrevLog_eq_passes.1 (Server.accepts_iff.1 haccept).2
  rw [Server.spliceEntries, if_neg (by omega)]
  refine hcut.join hbase (hs.log i) hend.symm fun hpos => ?_
  rcases hcheck with ⟨_, hzero⟩ | ⟨_, hentry⟩
  · omega
  · exact hentry

/-- What a node's log becomes when it accepts a request that `MatchOk` allows: the log
the entries were cut from, or a prefix of its own. -/
theorem splice_cases (hs : LedgerSound s w) {i : Fin n} {req : AppendEntriesRequest T}
    {base : List (LogEntry T)} (hbase : TermLog.Consistent LogEntry.term w.logs base)
    (hcut : req.CutFrom base) (haccept : Server.accepts (s.nodes i).state req = true)
    (hplace : req.prevLogIndex = (s.nodes i).state.log.length ∨ req.entries = []) :
    Server.spliceEntries (s.nodes i).state.log req.prevLogIndex req.entries = base ∨
      Server.spliceEntries (s.nodes i).state.log req.prevLogIndex req.entries
        <+: (s.nodes i).state.log := by
  rcases hplace with hend | hnil
  · exact Or.inl (hs.splice_eq hbase hcut haccept hend)
  · right
    unfold Server.spliceEntries
    rw [hnil]
    split
    · rw [List.append_nil]
      exact List.take_prefix _ _
    · rw [List.append_nil]

/-- A node that has just been elected has no entry of its term yet. -/
theorem lt_of_campaign (hs : LedgerSound s w) (hlead : LeadSound s)
    (hquorum : ∀ i, n < 2 * getQuorumLength (C.conf i)) {i : Fin n}
    (hcampaign : (s.nodes i).tick.campaign = some (s.nodes i).state.nodeTerm)
    (helected : s.Elected i (s.nodes i).state.nodeTerm) :
    ∀ e ∈ (s.nodes i).state.log, e.term < (s.nodes i).state.nodeTerm := by
  intro e he
  refine lt_of_le_of_ne (hs.bound i e he) fun heq => ?_
  obtain ⟨k, hk, rfl⟩ := List.getElem_of_mem he
  obtain ⟨L, hL, _⟩ := hs.log i k _ (List.getElem?_eq_getElem hk)
  obtain ⟨j, hw⟩ := Writers.logs_eq_some.1 hL
  rw [heq] at hw
  obtain rfl : j = i := (hs.elected _ j L hw).unique hquorum hlead.votes helected
  exact hs.retired _ j L hw hcampaign

/-! ## One step -/

section Step

variable (hquorum : ∀ i, n < 2 * getQuorumLength (C.conf i)) (hm : s.Moves s' l action effect)
  (hlead : LeadSound s) (hlead' : LeadSound s') (hs : LedgerSound s w)

include hm hlead' hs

theorem step_elected (t : NodeTerm) (i : Fin n) (L : List (LogEntry T))
    (hw : w.record s' l.node t = some (i, L)) : s'.Elected i t := by
  rcases Writers.record_eq_some hw with ⟨hrole, rfl, rfl, _⟩ | hold
  · exact hlead'.election.leader _ hrole
  · exact hm.elected (hs.elected t i L hold)

include hquorum in
theorem step_leader (i : Fin n) (hrole : (s'.nodes i).state.nodeType = .leader) :
    w.record s' l.node (s'.nodes i).state.nodeTerm = some (i, (s'.nodes i).state.log) := by
  by_cases hi : i = l.node
  · subst hi
    exact if_pos ⟨hrole, rfl⟩
  · rw [Writers.record, if_neg]
    · rw [hm.others i hi] at hrole ⊢
      exact hs.leader i hrole
    · rintro ⟨hrole', hterm⟩
      refine hi (hlead'.eq_leader hquorum ?_ hrole')
      rw [hterm]
      exact hlead'.election.leader i hrole

include hlead

theorem step_retired (t : NodeTerm) (i : Fin n) (L : List (LogEntry T))
    (hw : w.record s' l.node t = some (i, L)) : (s'.nodes i).tick.campaign ≠ some t := by
  intro hcampaign
  rcases Writers.record_eq_some hw with ⟨hrole, rfl, rfl, _⟩ | hold
  · exact (hlead'.phase l.node).not_leader hcampaign hrole
  · by_cases hi : i = l.node
    · subst hi
      rcases hm.acting.campaign_cases hcampaign with hold' | ⟨htick, rfl, _⟩
      · exact hs.retired t _ L hold hold'
      · obtain ⟨voters, hself, _, hvoted⟩ := hs.elected _ _ L hold
        exact (hlead.votes l.node).fresh htick _ (hvoted _ hself)
    · rw [hm.others i hi] at hcampaign
      exact hs.retired t i L hold hcampaign

include hquorum

/-- The ledger only grows. -/
theorem le_record : w.Le (w.record s' l.node) := by
  intro t i L hw
  by_cases hnew : (s'.nodes l.node).state.nodeType = .leader ∧
      (s'.nodes l.node).state.nodeTerm = t
  · obtain ⟨hrole, rfl⟩ := hnew
    obtain rfl : i = l.node :=
      hlead'.eq_leader hquorum (hm.elected (hs.elected _ i L hw)) hrole
    refine ⟨_, if_pos ⟨hrole, rfl⟩, ?_⟩
    rcases hm.acting.leader_cases hrole with ⟨hrole₀, hterm⟩ | ⟨req, log, htick, _, hstate⟩
    · rw [hterm, hs.leader _ hrole₀] at hw
      cases hw
      exact hm.acting.leader_log_isPrefix hrole
    · -- whoever has led the term does not win it again
      rw [hstate] at hw
      exact absurd (hlead.won htick).1 (hs.retired _ _ _ hw)
  · exact ⟨L, by rw [Writers.record, if_neg hnew, hw], List.prefix_rfl⟩

/-- The acting node's log after a step that `MatchOk` allows. -/
theorem step_log_acting (hok : MatchOk (s.nodes l.node) action) :
    TermLog.Consistent LogEntry.term (w.record s' l.node).logs (s'.nodes l.node).state.log ∧
      ∀ e ∈ (s'.nodes l.node).state.log, e.term ≤ (s'.nodes l.node).state.nodeTerm := by
  have hext := (le_record hquorum hm hlead hlead' hs).extends
  have hlog := (hs.log l.node).of_extends hext
  have hbound := hs.bound l.node
  have hterm := (Node.nodeTerm_le_iff hm.acting).2 hok.1.1.1
  cases hm.acting.logMove with
  | keep hsame =>
    rw [hsame]
    exact ⟨hlog, fun e he => (hbound e he).trans hterm⟩
  | append value hrole hstate =>
    have hrole' : (s'.nodes l.node).state.nodeType = .leader := by rw [hstate, hrole]
    have hw := step_leader hquorum hm hlead' hs l.node hrole'
    rw [hstate] at hw ⊢
    refine ⟨hlog.append (Writers.logs_eq_some.2 ⟨_, hw⟩), fun e he => ?_⟩
    rcases List.mem_append.1 he with he | he
    · exact hbound e he
    · rw [List.mem_singleton.1 he]
  | commit order haction horder hstate =>
    have hsame : (s'.nodes l.node).state.log = (s.nodes l.node).state.log := by
      rw [hstate]
      simp
    rw [hsame]
    exact ⟨hlog, fun e he => (hbound e he).trans hterm⟩
  | accept cid req commit sent hlock hlistener hhandled haccept hstate =>
    obtain ⟨j, L, base, hw, hbase, hcut⟩ := hs.handling hlead.network hlistener
    have hplace : req.prevLogIndex = (s.nodes l.node).state.log.length ∨ req.entries = [] := by
      by_contra hne
      rw [not_or] at hne
      have hmisplaced := hok.2
      simp [misplacedAppend, hhandled, haccept, hne.1, hne.2] at hmisplaced
    have hnew : (s'.nodes l.node).state.log = Server.spliceEntries (s.nodes l.node).state.log
        req.prevLogIndex req.entries := by
      rw [hstate]
      simp
    have hreq : (s'.nodes l.node).state.nodeTerm = req.term := by rw [hstate]; simp
    rw [hnew]
    obtain ⟨hcons, hle⟩ := hs.written _ _ _ hw
    rcases hs.splice_cases (hcons.of_isPrefix hbase) hcut haccept hplace with heq | hpre
    · rw [heq, hreq]
      exact ⟨(hcons.of_isPrefix hbase).of_extends hext, fun e he => hle e (hbase.mem he)⟩
    · exact ⟨hlog.of_isPrefix hpre, fun e he => (hbound e (hpre.mem he)).trans hterm⟩

theorem step_written (hok : MatchOk (s.nodes l.node) action) (t : NodeTerm) (i : Fin n)
    (L : List (LogEntry T)) (hw : w.record s' l.node t = some (i, L)) :
    TermLog.Consistent LogEntry.term (w.record s' l.node).logs L ∧ ∀ e ∈ L, e.term ≤ t := by
  rcases Writers.record_eq_some hw with ⟨hrole, rfl, rfl, rfl⟩ | hold
  · exact step_log_acting hquorum hm hlead hlead' hs hok
  · obtain ⟨hcons, hle⟩ := hs.written t i L hold
    exact ⟨hcons.of_extends (le_record hquorum hm hlead hlead' hs).extends, hle⟩

theorem step_request (cid : Nat) (i : Fin n) (dst : Addr) (req : AppendEntriesRequest T)
    (hcarries : s'.Carries cid i dst (.appendEntries req)) :
    ∃ j L base, w.record s' l.node req.term = some (j, L) ∧ base <+: L ∧ req.CutFrom base := by
  have hle := le_record hquorum hm hlead hlead' hs
  rcases hm.carries_cases hcarries with hold | ⟨rfl, rfl⟩
  · obtain ⟨j, L, base, hw, hbase, hcut⟩ := hs.request cid i dst req hold
    obtain ⟨L', hw', hpre⟩ := hle _ _ _ hw
    exact ⟨j, L', base, hw', hbase.trans hpre, hcut⟩
  · obtain ⟨_, ⟨q, conns, _, _, hreq⟩ | ⟨q, conns, htick, hbuilt, hreq⟩⟩ := hm.acting.send_cases
    · cases hreq
    · cases hreq
      have hphase := (hlead.phase l.node).at_tick htick
      obtain ⟨hterm, _, _, base, hbase, hcut⟩ := Raft.heartbeatRequest_eq_some hbuilt
      obtain ⟨L', hw', hpre⟩ := hle _ _ _ (hs.leader _ hphase.1)
      rw [hterm]
      refine ⟨_, L', base, hw', ?_, hcut⟩
      rcases hbase with rfl | ⟨rfl, _⟩
      · exact hpre
      · exact List.nil_prefix

/-- **Every step that `MatchOk` allows keeps the logs in line with the ledger.** -/
theorem step (hok : MatchOk (s.nodes l.node) action) :
    LedgerSound s' (w.record s' l.node) := by
  have hext := (le_record hquorum hm hlead hlead' hs).extends
  refine ⟨step_leader hquorum hm hlead' hs, step_elected hm hlead' hs,
    step_retired hm hlead hlead' hs, step_written hquorum hm hlead hlead' hs hok,
    fun i => ?_, fun i => ?_, step_request hquorum hm hlead hlead' hs⟩
  · by_cases hi : i = l.node
    · subst hi
      exact (step_log_acting hquorum hm hlead hlead' hs hok).1
    · rw [hm.others i hi]
      exact (hs.log i).of_extends hext
  · by_cases hi : i = l.node
    · subst hi
      exact (step_log_acting hquorum hm hlead hlead' hs hok).2
    · rw [hm.others i hi]
      exact hs.bound i

end Step

/-- Every state that a run of `MatchOk` reaches has a ledger. -/
theorem of_reachable (hquorum : ∀ i, n < 2 * getQuorumLength (C.conf i))
    (h : (clusterSystem C T).Reachable (Lift MatchOk) s) : ∃ w, LedgerSound s w := by
  refine h.invariant (I := fun s => ∃ w, LedgerSound s w) ?_ ?_
  · rintro s ⟨boot, rfl⟩
    exact ⟨_, start C T boot⟩
  · rintro s l s' hreach ⟨w, hs⟩ hok hl
    obtain ⟨action, effect, hm⟩ := step_cases hl
    exact ⟨_, step hquorum hm (.of_reachable (fun _ _ h => h.1) hreach)
      (.of_reachable (fun _ _ h => h.1) (hreach.step hok hl)) hs (hok _ hm.resolved)⟩

end LedgerSound
end Cluster

/-- **Log matching.**  In a run whose steps all meet `MatchOk`, with quorums that are
majorities, two logs with entries of the same term at the same position are
identical up to and including it. -/
theorem log_matching {s : Cluster C T} (hquorum : ∀ i, n < 2 * getQuorumLength (C.conf i))
    (h : (clusterSystem C T).Reachable (Lift MatchOk) s) {i j : Fin n} {k : Nat}
    {e e' : LogEntry T} (he : (s.nodes i).state.log[k]? = some e)
    (he' : (s.nodes j).state.log[k]? = some e') (hterm : e.term = e'.term) :
    (s.nodes i).state.log.take (k + 1) = (s.nodes j).state.log.take (k + 1) := by
  obtain ⟨w, hs⟩ := Cluster.LedgerSound.of_reachable hquorum h
  exact (hs.log i).matching (hs.log j) he he' hterm

/-- A leader of two nodes replicates and commits its first entry. -/
def replicateFirst : List (Label 2 Nat) :=
  elect 200 0 0 1 ++
  [.atTime 200 0 (.act (.appendEntry 7)), .atTime 210 0 (.act .sendHeartbeat)] ++
  exchange 210 1 0 1 ++ commitAfter 210 2 0 [(1, 2)] ++ [.atTime 211 0 (.act (.appendEntry 8))]

theorem log_matching_replicateFirst : ∃ s : Cluster duo Nat,
    (s.nodes 0).state.log = [⟨7, 1⟩, ⟨8, 1⟩] ∧
      (s.nodes 0).state.log.take 1 = (s.nodes 1).state.log.take 1 := by
  obtain ⟨s, hs, hlog, hlog'⟩ := System.exec_any (clusterSystem duo Nat) (Lift MatchOk)
    (.start₀ duo Nat) replicateFirst
    (P := fun s => (s.nodes 0).state.log = [⟨7, 1⟩, ⟨8, 1⟩] ∧ (s.nodes 1).state.log = [⟨7, 1⟩])
    (by decide +kernel)
  have he : (s.nodes 0).state.log[0]? = some ⟨7, 1⟩ := by
    rw [hlog]
    rfl
  have he' : (s.nodes 1).state.log[0]? = some ⟨7, 1⟩ := by
    rw [hlog']
    rfl
  exact ⟨s, hlog, log_matching (duo.lt_two_mul_getQuorumLength (by decide))
    ⟨_, Cluster.init_start₀ duo Nat, hs⟩ he he' rfl⟩

/-- The response to the second heartbeat is lost, so the third carries the same entry
again, which the follower appends a second time. -/
def resend : List (Label 2 Nat) :=
  replicateFirst ++
  [.atTime 220 0 (.act .sendHeartbeat), .atTime 220 0 (.act (.advance 2)),
    .atTime 220 1 (.deliver 2), .atTime 220 1 (.act (.handle true)),
    .atTime 221 0 (.act (.appendAnswer .none))] ++
  commitAfter 221 3 0 [(1, 1), (2, 1)] ++ [.atTime 230 0 (.act .sendHeartbeat)] ++
  exchange 230 3 0 1 ++ commitAfter 230 4 0 [(2, 2)] ++ [.atTime 231 0 (.act (.appendEntry 9))]

/-- The leader has 7, 8, 9 and the follower 7, 8, 8, all of term 1. -/
theorem logs_not_matching : ¬ ∀ s : Cluster duo Nat,
    (clusterSystem duo Nat).Reachable System.Always s → ∀ i j k e e',
      (s.nodes i).state.log[k]? = some e → (s.nodes j).state.log[k]? = some e' →
        e.term = e'.term →
          (s.nodes i).state.log.take (k + 1) = (s.nodes j).state.log.take (k + 1) := by
  intro hall
  obtain ⟨s, hs, hlog, hlog'⟩ := System.exec_any (clusterSystem duo Nat)
    System.Always (.start₀ duo Nat) resend
    (P := fun s => (s.nodes 0).state.log = [⟨7, 1⟩, ⟨8, 1⟩, ⟨9, 1⟩] ∧
      (s.nodes 1).state.log = [⟨7, 1⟩, ⟨8, 1⟩, ⟨8, 1⟩]) (by decide +kernel)
  have hmatch := hall s ⟨_, Cluster.init_start₀ duo Nat, hs⟩ 0 1 2 ⟨9, 1⟩ ⟨8, 1⟩ (by rw [hlog]; rfl)
    (by rw [hlog']; rfl) rfl
  rw [hlog, hlog'] at hmatch
  exact absurd hmatch (by decide)

end Quaso
