import Quaso.Raft.Cluster

/-!
# What is on the connections

A connection keeps its sender, its address and its request for ever; only the
two flags of its progress change.

* `Cluster.Carries` — a connection with its sender, address and request, and
  `Cluster.Moves.carries`: no step changes one.
* `Cluster.Moves.response_cases` — a response is an old one, or it has just been
  written by the handler of the connection's request.
* `Cluster.NetworkSound` — the loops wait on connections that carry what they
  sent, and the listeners handle what was sent to them.
-/

namespace Quaso

variable {n : Nat} {C : ClusterConfig n} {T : Type} {s s' : Cluster C T} {l : Label n T}
  {action : Action T} {effect : Effect T}

namespace Cluster

/-- Connection `cid` carries request `req` from node `i` to address `dst`. -/
def Carries (s : Cluster C T) (cid : Nat) (i : Fin n) (dst : Addr) (req : RequestPattern T) :
    Prop :=
  ∃ c, s.conns[cid]? = some c ∧ c.src = i ∧ c.dst = dst ∧ c.req = req

/-- Connection `cid` carries response `resp`. -/
def Responded (s : Cluster C T) (cid : Nat) (resp : Response) : Prop :=
  ∃ c, s.conns[cid]? = some c ∧ c.resp = some resp

theorem Carries.unique {cid : Nat} {i j : Fin n} {dst dst' : Addr} {req req' : RequestPattern T}
    (h : s.Carries cid i dst req) (h' : s.Carries cid j dst' req') :
    i = j ∧ dst = dst' ∧ req = req' := by
  obtain ⟨c, hget, rfl, rfl, rfl⟩ := h
  obtain ⟨c', hget', rfl, rfl, rfl⟩ := h'
  rw [hget] at hget'
  cases hget'
  exact ⟨rfl, rfl, rfl⟩

/-! ## One step -/

theorem carries_readInput {conns : List (Connection n T)} {cid : Nat} {c : Connection n T}
    (h : conns[cid]? = some c) (input : Input T) :
    ∃ c', (readInput conns input)[cid]? = some c' ∧ c'.src = c.src ∧ c'.dst = c.dst ∧
      c'.req = c.req ∧ c'.resp = c.resp := by
  cases input with
  | act action => exact ⟨c, h, rfl, rfl, rfl, rfl⟩
  | reply d => exact ⟨c, h, rfl, rfl, rfl, rfl⟩
  | deliver d =>
    simp only [readInput, List.getElem?_modify, h]
    split <;> exact ⟨_, rfl, rfl, rfl, rfl, rfl⟩

theorem carries_applyEffect {conns : List (Connection n T)} {cid : Nat} {c : Connection n T}
    (h : conns[cid]? = some c) (i : Fin n) (effect : Effect T) :
    ∃ c', (applyEffect i conns effect)[cid]? = some c' ∧ c'.src = c.src ∧ c'.dst = c.dst ∧
      c'.req = c.req ∧
      (c'.resp = c.resp ∨ ∃ resp, effect = .respond cid resp ∧ c'.resp = some resp) := by
  cases effect with
  | quiet => exact ⟨c, h, rfl, rfl, rfl, Or.inl rfl⟩
  | send dst req =>
    have hlt := (List.getElem?_eq_some_iff.1 h).1
    exact ⟨c, by rw [applyEffect, List.getElem?_append_left hlt, h], rfl, rfl, rfl, Or.inl rfl⟩
  | respond d resp =>
    simp only [applyEffect, List.getElem?_modify, h]
    split
    · rename_i heq
      exact ⟨_, rfl, rfl, rfl, rfl, Or.inr ⟨resp, by rw [heq], rfl⟩⟩
    · exact ⟨_, rfl, rfl, rfl, rfl, Or.inl rfl⟩

theorem length_readInput (conns : List (Connection n T)) (input : Input T) :
    (readInput conns input).length = conns.length := by
  cases input <;> simp [readInput]

/-- The connection at the same position before and after a step. -/
theorem Moves.connection (hm : s.Moves s' l action effect) {cid : Nat} {c : Connection n T}
    (h : s.conns[cid]? = some c) :
    ∃ c', s'.conns[cid]? = some c' ∧ c'.src = c.src ∧ c'.dst = c.dst ∧ c'.req = c.req ∧
      (c'.resp = c.resp ∨ ∃ resp, effect = .respond cid resp ∧ c'.resp = some resp) := by
  obtain ⟨c₁, h₁, hsrc₁, hdst₁, hreq₁, hresp₁⟩ := carries_readInput h l.input
  obtain ⟨c₂, h₂, hsrc₂, hdst₂, hreq₂, hresp₂⟩ := carries_applyEffect h₁ l.node effect
  rw [hm.conns]
  exact ⟨c₂, h₂, hsrc₂.trans hsrc₁, hdst₂.trans hdst₁, hreq₂.trans hreq₁, hresp₁ ▸ hresp₂⟩

/-- No step changes what a connection carries. -/
theorem Moves.carries (hm : s.Moves s' l action effect) {cid : Nat} {i : Fin n} {dst : Addr}
    {req : RequestPattern T} (h : s.Carries cid i dst req) : s'.Carries cid i dst req := by
  obtain ⟨c, hget, rfl, rfl, rfl⟩ := h
  obtain ⟨c', hget', hsrc, hdst, hreq, _⟩ := hm.connection hget
  exact ⟨c', hget', hsrc, hdst, hreq⟩

/-- A connection after a step was there before, or the step has opened it. -/
theorem Moves.connection_cases (hm : s.Moves s' l action effect) {cid : Nat}
    {c' : Connection n T} (h : s'.conns[cid]? = some c') :
    (∃ c, s.conns[cid]? = some c ∧ c'.src = c.src ∧ c'.dst = c.dst ∧ c'.req = c.req ∧
      (c'.resp = c.resp ∨ ∃ resp, effect = .respond cid resp ∧ c'.resp = some resp)) ∨
    cid = s.conns.length ∧ ∃ dst req, effect = .send dst req ∧
      c' = ⟨l.node, dst, req, false, none⟩ := by
  cases hget : s.conns[cid]? with
  | some c =>
    obtain ⟨c'', h'', hsame⟩ := hm.connection hget
    rw [h] at h''
    obtain rfl := Option.some.inj h''
    exact Or.inl ⟨c, rfl, hsame⟩
  | none =>
    have hle : s.conns.length ≤ cid := List.getElem?_eq_none_iff.1 hget
    have hlen := length_readInput s.conns l.input
    rw [hm.conns] at h
    have hlt := (List.getElem?_eq_some_iff.1 h).1
    cases effect with
    | quiet =>
      rw [applyEffect] at hlt
      omega
    | respond d resp =>
      rw [applyEffect, List.length_modify] at hlt
      omega
    | send dst req =>
      rw [applyEffect, List.length_append, List.length_singleton] at hlt
      obtain rfl : cid = s.conns.length := by omega
      refine Or.inr ⟨rfl, dst, req, rfl, ?_⟩
      rw [applyEffect, List.getElem?_append_right (by omega), hlen, Nat.sub_self] at h
      exact (Option.some.inj h).symm

/-- What a connection carries after a step it has carried before, or the step has
opened it. -/
theorem Moves.carries_cases (hm : s.Moves s' l action effect) {cid : Nat} {i : Fin n}
    {dst : Addr} {req : RequestPattern T} (h : s'.Carries cid i dst req) :
    s.Carries cid i dst req ∨ (i = l.node ∧ effect = .send dst req) := by
  obtain ⟨c', hget, rfl, rfl, rfl⟩ := h
  rcases hm.connection_cases hget with ⟨c, hc, hsrc, hdst, hreq, _⟩ | ⟨_, dst, req, heffect, rfl⟩
  · exact Or.inl ⟨c, hc, hsrc.symm, hdst.symm, hreq.symm⟩
  · exact Or.inr ⟨rfl, heffect⟩

/-- A response is an old one, or the step has just written it. -/
theorem Moves.response_cases (hm : s.Moves s' l action effect) {cid : Nat} {resp : Response}
    (h : s'.Responded cid resp) : s.Responded cid resp ∨ effect = .respond cid resp := by
  obtain ⟨c', hget, hresp⟩ := h
  rcases hm.connection_cases hget with ⟨c, hc, _, _, _, hold | ⟨r, heffect, hnew⟩⟩ |
    ⟨_, _, _, _, rfl⟩
  · exact Or.inl ⟨c, hc, hold ▸ hresp⟩
  · rw [hnew] at hresp
    exact Or.inr (Option.some.inj hresp ▸ heffect)
  · cases hresp

/-! ## What an action was read from -/

/-- Where the action of a step comes from: from the node itself, from a request that
is addressed to it, or from a response on the connection it waits on. -/
theorem resolve_cases {i : Fin n} {input : Input T} (h : s.resolve i input = some action) :
    (input = .act action ∧ s.isLocal action = true) ∨
    (∃ cid src req, action = .accept cid req ∧
      s.Carries cid src (C.conf i).listenerAddr req) ∨
    (∃ cid, (s.nodes i).tick.waitsOn = some cid ∧
      ((∃ resp, action = .appendAnswer (.reply resp) ∧ s.Responded cid (.appendEntries resp)) ∨
        ∃ resp, action = .voteAnswer (.reply resp) ∧ s.Responded cid (.requestVote resp))) := by
  unfold resolve at h
  cases input with
  | act act =>
    obtain ⟨hlocal, heq⟩ := Option.ite_none_right_eq_some.1 h
    obtain rfl := Option.some.inj heq
    exact Or.inl ⟨rfl, hlocal⟩
  | deliver cid =>
    simp only at h
    split at h
    · cases h
    · rename_i c hget
      obtain ⟨⟨_, hdst⟩, heq⟩ := Option.ite_none_right_eq_some.1 h
      exact Or.inr (Or.inl ⟨cid, c.src, c.req, (Option.some.inj heq).symm, c, hget, rfl, hdst, rfl⟩)
  | reply cid =>
    obtain ⟨hwaits, h⟩ := Option.ite_none_right_eq_some.1 h
    refine Or.inr (Or.inr ⟨cid, hwaits, ?_⟩)
    split at h
    · rename_i resp hresp
      exact Or.inl ⟨resp, (Option.some.inj h).symm, Option.bind_eq_some_iff.1 hresp⟩
    · rename_i resp hresp
      exact Or.inr ⟨resp, (Option.some.inj h).symm, Option.bind_eq_some_iff.1 hresp⟩
    · cases h

/-- A request that a step sends is on the connection it has named. -/
theorem Moves.carries_send {cid : Nat} {dst : Addr} {req : RequestPattern T}
    (hm : s.Moves s' l (.advance cid) (.send dst req)) : s'.Carries cid l.node dst req := by
  rcases resolve_cases hm.resolved with ⟨_, hlocal⟩ | ⟨_, _, _, h, _⟩ |
    ⟨_, _, ⟨_, h, _⟩ | ⟨_, h, _⟩⟩
  · obtain rfl : cid = s.conns.length := of_decide_eq_true hlocal
    refine ⟨⟨l.node, dst, req, false, none⟩, ?_, rfl, rfl, rfl⟩
    rw [hm.conns, applyEffect, ← length_readInput s.conns l.input, List.getElem?_concat_length]
  all_goals cases h

/-- A request that a listener reads is on the connection, addressed to it. -/
theorem Moves.carries_accept {cid : Nat} {req : RequestPattern T}
    (hm : s.Moves s' l (.accept cid req) effect) :
    ∃ i, s.Carries cid i (C.conf l.node).listenerAddr req := by
  rcases resolve_cases hm.resolved with ⟨_, h⟩ | ⟨_, i, _, h, hcarries⟩ |
    ⟨_, _, ⟨_, h, _⟩ | ⟨_, h, _⟩⟩
  · cases h
  · cases h
    exact ⟨i, hcarries⟩
  all_goals cases h

/-- A response that reaches the election loop is on the connection it waits on. -/
theorem Moves.responded_vote {resp : ElectionVoteResponse}
    (hm : s.Moves s' l (.voteAnswer (.reply resp)) effect) :
    ∃ cid, (s.nodes l.node).tick.waitsOn = some cid ∧ s.Responded cid (.requestVote resp) := by
  rcases resolve_cases hm.resolved with ⟨_, h⟩ | ⟨_, _, _, h, _⟩ |
    ⟨cid, hwaits, ⟨_, h, _⟩ | ⟨_, h, hresp⟩⟩
  all_goals cases h
  exact ⟨cid, hwaits, hresp⟩

/-- A response that reaches the heartbeat loop is on the connection it waits on. -/
theorem Moves.responded_append {resp : AppendEntriesResponse}
    (hm : s.Moves s' l (.appendAnswer (.reply resp)) effect) :
    ∃ cid, (s.nodes l.node).tick.waitsOn = some cid ∧ s.Responded cid (.appendEntries resp) := by
  rcases resolve_cases hm.resolved with ⟨_, h⟩ | ⟨_, _, _, h, _⟩ |
    ⟨cid, hwaits, ⟨_, h, hresp⟩ | ⟨_, h, _⟩⟩
  all_goals cases h
  exact ⟨cid, hwaits, hresp⟩

/-! ## Waiting and handling -/

/-- The loops wait on connections that carry what they sent, and the listeners handle
what is addressed to them. -/
structure NetworkSound (s : Cluster C T) : Prop where
  handling : ∀ i cid req, (s.nodes i).listener = .handling cid req →
    ∃ j, s.Carries cid j (C.conf i).listenerAddr req
  electionWait : ∀ i req conn cid conns, (s.nodes i).tick = .electionWait req conn cid conns →
    s.Carries cid i conn (.requestVote req)
  /-- The request is the one the loop would build again: its state is locked. -/
  heartbeatWait : ∀ i conn logSize cid conns,
    (s.nodes i).tick = .heartbeatWait conn logSize cid conns →
      ∃ req, Raft.heartbeatRequest (C.conf i) (s.nodes i).state conn = some req ∧
        s.Carries cid i conn (.appendEntries req)

namespace NetworkSound

theorem step (hm : s.Moves s' l action effect) (hs : NetworkSound s) : NetworkSound s' where
  handling := by
    intro i cid req hlistener
    have hold : (s.nodes i).listener = .handling cid req →
        ∃ j, s'.Carries cid j (C.conf i).listenerAddr req := by
      intro h
      obtain ⟨j, hj⟩ := hs.handling i cid req h
      exact ⟨j, hm.carries hj⟩
    by_cases hi : i = l.node
    · subst hi
      rcases hm.acting.handling_cases hlistener with h | rfl
      · exact hold h
      · obtain ⟨j, hj⟩ := hm.carries_accept
        exact ⟨j, hm.carries hj⟩
    · rw [hm.others i hi] at hlistener
      exact hold hlistener
  electionWait := by
    intro i req conn cid conns htick
    by_cases hi : i = l.node
    · subst hi
      rcases hm.acting.electionWait_cases htick with h | ⟨rfl, rfl⟩
      · exact hm.carries (hs.electionWait _ req conn cid conns h)
      · exact hm.carries_send
    · rw [hm.others i hi] at htick
      exact hm.carries (hs.electionWait i req conn cid conns htick)
  heartbeatWait := by
    intro i conn logSize cid conns htick
    by_cases hi : i = l.node
    · subst hi
      obtain ⟨hstate, h | ⟨req, rfl, hreq, rfl⟩⟩ := hm.acting.heartbeatWait_cases htick
      · obtain ⟨req, hreq, hcarries⟩ := hs.heartbeatWait _ conn logSize cid conns h
        exact ⟨req, by rw [hstate, hreq], hm.carries hcarries⟩
      · exact ⟨req, by rw [hstate, hreq], hm.carries_send⟩
    · rw [hm.others i hi] at htick ⊢
      obtain ⟨req, hreq, hcarries⟩ := hs.heartbeatWait i conn logSize cid conns htick
      exact ⟨req, hreq, hm.carries hcarries⟩

/-- Nodes that are started again neither wait nor handle anything. -/
theorem restarts (hs : NetworkSound s) (hconns : s'.conns = s.conns)
    (hsame : ∀ i, ((s'.nodes i).state = (s.nodes i).state ∧
        (s'.nodes i).tick = (s.nodes i).tick ∧ (s'.nodes i).listener = (s.nodes i).listener) ∨
      ((s'.nodes i).tick = .idle ∧ (s'.nodes i).listener = .accepting)) : NetworkSound s' where
  handling := by
    intro i cid req hlistener
    rcases hsame i with ⟨_, _, heq⟩ | ⟨_, haccepting⟩
    · obtain ⟨j, c, hc⟩ := hs.handling i cid req (heq ▸ hlistener)
      exact ⟨j, c, hconns ▸ hc⟩
    · rw [haccepting] at hlistener
      cases hlistener
  electionWait := by
    intro i req conn cid conns htick
    rcases hsame i with ⟨_, heq, _⟩ | ⟨hidle, _⟩
    · obtain ⟨c, hc⟩ := hs.electionWait i req conn cid conns (heq ▸ htick)
      exact ⟨c, hconns ▸ hc⟩
    · rw [hidle] at htick
      cases htick
  heartbeatWait := by
    intro i conn logSize cid conns htick
    rcases hsame i with ⟨hstate, heq, _⟩ | ⟨hidle, _⟩
    · obtain ⟨req, hreq, c, hc⟩ := hs.heartbeatWait i conn logSize cid conns (heq ▸ htick)
      exact ⟨req, hstate ▸ hreq, c, hconns ▸ hc⟩
    · rw [hidle] at htick
      cases htick

theorem of_reachable {ok : Cluster C T → Label n T → Prop}
    (h : (clusterSystem C T).Reachable ok s) : NetworkSound s := by
  refine h.invariant ?_ ?_
  · rintro s ⟨boot, rfl⟩
    exact ⟨fun _ _ _ => nofun, fun _ _ _ _ _ => nofun, fun _ _ _ _ _ => nofun⟩
  · intro s l s' _ hs _ hl
    obtain ⟨action, effect, hm⟩ := step_cases hl
    exact hs.step hm

end NetworkSound
end Cluster
end Quaso
