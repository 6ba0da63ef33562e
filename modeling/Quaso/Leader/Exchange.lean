import Quaso.Raft.Loop
import Quaso.Safety.Conditions

/-!
# One exchange

A request goes out on a connection of its own, the addressed node handles it at once, and
the response arrives: four steps of a cluster, whatever else it does.

* `Cluster.Goes` — a run whose steps meet `ExtendOk`, between two calls of the tick tasks.
* `Cluster.goes_exchange` — the four steps, for a request and a response of either kind.
* `Cluster.goes_heartbeat`, `Cluster.goes_vote` — the two kinds.
-/

namespace Quaso

variable {n : Nat} {C : ClusterConfig n} {T : Type}

/-! ## Steps that keep to the protocol -/

/-- The node can serve a request at a time. -/
structure Node.Free (m : Node T) (now : Nat) : Prop where
  tick : m.tick = .idle
  listener : m.listener = .accepting
  clock : m.clock ≤ now

/-- Where the listener stands when it has read a request. -/
def Node.reads (m : Node T) (now cid : Nat) (req : RequestPattern T) : Node T :=
  { m with clock := now, listener := .handling cid req }

@[simp] theorem Env.now_atTime (now : Nat) : (Env.atTime now).now = now := rfl

/-- A free node serves what it has read. -/
theorem Node.Free.step_handle {m : Node T} {now cid : Nat} {req : RequestPattern T}
    {conf : Config} (h : m.Free now) :
    (m.reads now cid req).step conf (.atTime now) (.handle true)
      = some ((m.reads now cid req).handle conf (.atTime now) cid req true) := by
  simp [Node.step, Node.reads, h.tick, Tick.holdsLock]

/-- What a response is to the loop that waits for it. -/
def Response.arrives : Response → Option (Action T)
  | .appendEntries resp => some (.appendAnswer (.reply resp))
  | .requestVote resp => some (.voteAnswer (.reply resp))
  | .ping _ => none

namespace Cluster

variable {s s' : Cluster C T} {i j : Fin n} {now : Nat}

/-! ## The four steps -/

/-- A run whose steps all meet `ExtendOk`, and call no operation of a tick task, leads from
one state to the other. -/
abbrev Goes (s s' : Cluster C T) : Prop :=
  (clusterSystem C T).Steps (Lift (Continues ExtendOk)) s s'

/-- One node has moved, the network is as given. -/
structure Moved (s s' : Cluster C T) (i : Fin n) (m : Node T) (conns : List (Connection n T)) :
    Prop where
  acting : s'.nodes i = m
  others : ∀ k, k ≠ i → s'.nodes k = s.nodes k
  conns : s'.conns = conns

/-- The same node moves twice. -/
theorem Moved.trans {s'' : Cluster C T} {m m' : Node T} {conns conns' : List (Connection n T)}
    (h : s.Moved s' i m conns) (h' : s'.Moved s'' i m' conns') : s.Moved s'' i m' conns' :=
  ⟨h'.acting, fun k hk => (h'.others k hk).trans (h.others k hk), h'.conns⟩

/-- A node makes the step that its input amounts to. -/
theorem goes_step {env : Env} (input : Input T) {action : Action T} {m : Node T}
    {effect : Effect T} (hinput : s.resolve i input = some action)
    (hok : ExtendOk (s.nodes i) action) (hcalls : action.calls = none)
    (hstep : (s.nodes i).step (C.conf i) env action = some (m, effect)) :
    ∃ s', s.Goes s' ∧ s.Moved s' i m (applyEffect i (readInput s.conns input) effect) := by
  refine ⟨⟨s.setNode i m, applyEffect i (readInput s.conns input) effect⟩,
    Relation.ReflTransGen.single ⟨⟨i, env, input⟩, ?_, ?_⟩, s.setNode_self i m,
    fun _ hk => s.setNode_of_ne m hk, rfl⟩
  · intro action' haction'
    obtain rfl := Option.some.inj (hinput.symm.trans haction')
    exact ⟨hok, hcalls⟩
  · change s.step _ = _
    simp [step, hinput, hstep]

/-- A node makes a step of its own that the network does not see. -/
theorem goes_act {env : Env} {action : Action T} {m : Node T}
    (hlocal : s.isLocal action = true) (hok : ExtendOk (s.nodes i) action)
    (hcalls : action.calls = none)
    (hstep : (s.nodes i).step (C.conf i) env action = some (m, .quiet)) :
    ∃ s', s.Goes s' ∧ s.Moved s' i m s.conns :=
  goes_step (.act action) (by simp [resolve, hlocal]) hok hcalls hstep

/-- The last connection changes. -/
theorem modify_last (conns : List (Connection n T)) (c : Connection n T)
    (f : Connection n T → Connection n T) :
    (conns ++ [c]).modify conns.length f = conns ++ [f c] := by
  induction conns with
  | nil => rfl
  | cons d conns ih => simpa [List.modify_succ_cons] using ih

/-- **One exchange.**  Node `i` sends a request, node `j` handles it, and the response
arrives; the other nodes stay as they are. -/
theorem goes_exchange (req : RequestPattern T) (resp : Response) (waiting : Node T)
    {reply : Action T} {served answered : Node T} (hij : j ≠ i)
    (hsend : (s.nodes i).step (C.conf i) (.atTime now) (.advance s.conns.length)
      = some (waiting, .send (C.conf j).listenerAddr req))
    (hfree : (s.nodes j).Free now)
    (hserve : ((s.nodes j).reads now s.conns.length req).step (C.conf j) (.atTime now)
      (.handle true) = some (served, .respond s.conns.length resp))
    (harrives : resp.arrives = some reply)
    (hwaits : waiting.tick.waitsOn = some s.conns.length)
    (hanswer : waiting.step (C.conf i) (.atTime now) reply = some (answered, .quiet))
    (hokSend : ExtendOk (s.nodes i) (.advance s.conns.length))
    (hokServe : ExtendOk ((s.nodes j).reads now s.conns.length req) (.handle true))
    (hokReply : ExtendOk waiting reply) :
    ∃ s', s.Goes s' ∧ s'.nodes i = answered ∧ s'.nodes j = served ∧
      ∀ k, k ≠ i → k ≠ j → s'.nodes k = s.nodes k := by
  -- the request is on its way
  obtain ⟨s₁, hgoes₁, hmoved₁⟩ := goes_step (.act (.advance s.conns.length))
    (by simp [resolve, isLocal]) hokSend rfl hsend
  have hconns₁ : s₁.conns = s.conns ++ [⟨i, (C.conf j).listenerAddr, req, false, none⟩] :=
    hmoved₁.conns
  -- the listener reads it
  have hread : (s₁.nodes j).step (C.conf j) (.atTime now) (.accept s.conns.length req)
      = some ((s.nodes j).reads now s.conns.length req, .quiet) := by
    rw [hmoved₁.others j hij]
    simp [Node.step, hfree.clock, hfree.listener, Node.reads]
  obtain ⟨s₂, hgoes₂, hmoved₂⟩ := goes_step (s := s₁) (.deliver s.conns.length)
    (by simp [resolve, hconns₁]) (.of_quiet rfl rfl rfl rfl) rfl hread
  have hconns₂ : s₂.conns = s.conns ++ [⟨i, (C.conf j).listenerAddr, req, true, none⟩] := by
    rw [hmoved₂.conns, hconns₁]
    exact modify_last _ _ _
  -- its handler runs
  obtain ⟨s₃, hgoes₃, hmoved₃⟩ := goes_step (s := s₂) (i := j) (.act (.handle true))
    (by simp [resolve, isLocal]) (hmoved₂.acting ▸ hokServe) rfl (hmoved₂.acting ▸ hserve)
  have hconns₃ : s₃.conns
      = s.conns ++ [⟨i, (C.conf j).listenerAddr, req, true, some resp⟩] := by
    rw [hmoved₃.conns, hconns₂]
    exact modify_last _ _ _
  -- the response arrives
  have hwaiting : s₃.nodes i = waiting := by
    rw [hmoved₃.others i hij.symm, hmoved₂.others i hij.symm, hmoved₁.acting]
  have hresolve : s₃.resolve i (.reply s.conns.length) = some reply := by
    cases resp with
    | ping resp => cases harrives
    | appendEntries resp | requestVote resp =>
      simpa [resolve, hwaiting, hwaits, hconns₃, Response.arrives] using harrives
  have hcalls : reply.calls = none := by
    cases resp with
    | ping resp => cases harrives
    | appendEntries resp | requestVote resp =>
      obtain rfl := Option.some.inj harrives
      rfl
  obtain ⟨s₄, hgoes₄, hmoved₄⟩ :=
    goes_step _ hresolve (hwaiting ▸ hokReply) hcalls (hwaiting ▸ hanswer)
  refine ⟨s₄, ((hgoes₁.trans hgoes₂).trans hgoes₃).trans hgoes₄,
    hmoved₄.acting, ?_, fun k hki hkj => ?_⟩
  · rw [hmoved₄.others j hij, hmoved₃.acting]
  · rw [hmoved₄.others k hki, hmoved₃.others k hkj, hmoved₂.others k hkj, hmoved₁.others k hki]

/-! ## The two kinds -/

/-- **One heartbeat.**  The leader sends a request that continues the log of the peer. -/
theorem goes_heartbeat {conns : List Addr} {req : AppendEntriesRequest T} {state : State T}
    {sent : List (Nat × LogEntry T)} {resp : AppendEntriesResponse} (hij : j ≠ i)
    (htick : (s.nodes i).tick = .heartbeat ((C.conf j).listenerAddr :: conns))
    (hclock : (s.nodes i).clock ≤ now)
    (hreq : Raft.heartbeatRequest (C.conf i) (s.nodes i).state (C.conf j).listenerAddr = some req)
    (hfree : (s.nodes j).Free now) (hterm : (s.nodes j).state.nodeTerm ≤ req.term)
    (hend : req.prevLogIndex = (s.nodes j).state.log.length)
    (hresult : Server.appendEntries (C.conf j).nodeId (.atTime now) (s.nodes j).state req
      = ⟨state, sent, some resp⟩) :
    ∃ s', s.Goes s' ∧
      s'.nodes i = { s.nodes i with
        clock := now
        state := Raft.heartbeatResponse (s.nodes i).state (C.conf j).listenerAddr
          (s.nodes i).state.log.length resp
        tick := .heartbeat conns } ∧
      s'.nodes j = { s.nodes j with
        clock := now
        state := state
        delivered := (s.nodes j).delivered ++ sent } ∧
      ∀ k, k ≠ i → k ≠ j → s'.nodes k = s.nodes k := by
  refine goes_exchange (.appendEntries req) (.appendEntries resp)
    { s.nodes i with
      clock := now
      tick := .heartbeatWait (C.conf j).listenerAddr (s.nodes i).state.log.length
        s.conns.length conns } hij ?_ hfree ?_ rfl rfl ?_ ?_ ?_ ?_
  · simp [Node.step, Node.advance, htick, hclock, hreq]
  · rw [hfree.step_handle]
    simp [Node.handle, Node.reads, hresult, Node.respond, hfree.listener]
  · simp [Node.step, Node.appendAnswer]
  · exact .of_quiet rfl (by simp [termWraps, htick]) (by simp [Node.settles, htick]) rfl
  · refine .of_handle rfl hfree.tick ?_
    rintro _ ⟨⟩
    exact ⟨hterm, hend⟩
  · exact .of_quiet rfl rfl rfl rfl

/-- **One vote.**  The candidate asks a peer that grants, and counts the vote. -/
theorem goes_vote (answered : Node T) {req : ElectionVoteRequest} {conns : List Addr}
    (hij : j ≠ i)
    (htick : (s.nodes i).tick = .election req ((C.conf j).listenerAddr :: conns))
    (hclock : (s.nodes i).clock ≤ now) (htime : now ≤ (s.nodes i).state.electionTimeout)
    (hfree : (s.nodes j).Free now) (hgrants : Server.grants (s.nodes j).state req = true)
    (hanswer : Node.voteAnswer (C.conf i) (.reply ⟨(C.conf j).nodeId, req.term, true⟩)
      { s.nodes i with
        clock := now
        tick := .electionWait req (C.conf j).listenerAddr s.conns.length conns }
      = some answered) :
    ∃ s', s.Goes s' ∧ s'.nodes i = answered ∧
      s'.nodes j = { s.nodes j with
        clock := now
        state := Server.grantVote (.atTime now) (s.nodes j).state req
        cast := (s.nodes j).cast ++ [(req.term, req.candidateId)] } ∧
      ∀ k, k ≠ i → k ≠ j → s'.nodes k = s.nodes k := by
  refine goes_exchange (.requestVote req) (.requestVote ⟨(C.conf j).nodeId, req.term, true⟩)
    { s.nodes i with
      clock := now
      tick := .electionWait req (C.conf j).listenerAddr s.conns.length conns }
    hij ?_ hfree ?_ rfl rfl ?_ ?_ ?_ ?_
  · have hrunning : ¬ (s.nodes i).state.electionTimeout < now := not_lt.2 htime
    simp [Node.step, Node.advance, htick, hclock, hrunning]
  · rw [hfree.step_handle]
    simp [Node.handle, Node.reads, Server.requestVote_eq, hgrants, Node.respond, hfree.listener]
  · simp [Node.step, hanswer]
  · exact .of_quiet rfl (by simp [termWraps, htick]) (by simp [Node.settles, htick]) rfl
  · exact .of_handle rfl hfree.tick (by rintro _ ⟨⟩)
  · exact .of_quiet rfl rfl rfl rfl

end Cluster
end Quaso
