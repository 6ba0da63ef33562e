import Quaso.Safety.Network

/-!
# Requests are answered once

A listener takes a connection, runs the handler of its request, and writes one response.
No other node writes on the connection, and this one does not come back to it.

* `Node.Step.effect_cases` — what a step shows to the network.
* `Cluster.Unanswered` — what is not read, or still handled, has no response yet.
* `answered_once` — a response that is written stays, and it is one to the request.
-/

namespace Quaso

variable {T : Type}

/-! ## What a step of a node shows to the network -/

/-- The response is of the kind that the request asks for. -/
def Response.Answers (req : RequestPattern T) : Response → Prop
  | .ping _ => ∃ r, req = .ping r
  | .appendEntries _ => ∃ r, req = .appendEntries r
  | .requestVote _ => ∃ r, req = .requestVote r

/-- The actions of the listener task. -/
def Action.ofListener : Action T → Bool
  | .accept .. | .handle _ | .abortListener => true
  | _ => false

/-- The actions that can show something to the network. -/
def Action.speaks : Action T → Bool
  | .advance _ | .handle _ => true
  | _ => false

namespace Node

variable {conf : Config} {env : Env} {m m' : Node T} {action : Action T} {effect : Effect T}

/-- The other tasks leave the listener where it stands. -/
theorem Step.listener_eq (h : Step conf env m action m' effect)
    (haction : action.ofListener = false) : m'.listener = m.listener := by
  cases h with
  | accept | abortListener | handlePing | handleRefuse | handleGrant | handleReject
  | handleAppend => cases haction
  | _ => rfl

/-- A handler leaves nothing to answer. -/
theorem Step.owes_handle {written : Bool} (h : Step conf env m (.handle written) m' effect) :
    m'.listener.owes = none := by
  cases h with
  | handlePing _ _ _ _ _ _ _ hresp | handleRefuse _ _ _ _ _ _ _ _ hresp
  | handleGrant _ _ _ _ _ _ _ _ hresp | handleReject _ _ _ _ _ _ _ _ hresp
  | handleAppend _ _ _ _ _ _ _ _ _ _ _ _ hresp => cases hresp <;> rfl
  | skip | tickDies => simp_all

/-- What a step shows to the network: nothing, a request from the tick task, or a response
of the listener to what it has read. -/
theorem Step.effect_cases (h : Step conf env m action m' effect) :
    effect = .quiet ∨ (∃ cid dst req, action = .advance cid ∧ effect = .send dst req) ∨
      ∃ written cid resp req, action = .handle written ∧ effect = .respond cid resp ∧
        m.listener = .handling cid req ∧ resp.Answers req := by
  cases h with
  | heartbeatSend cid conn conns req => exact Or.inr (Or.inl ⟨cid, conn, _, rfl, rfl⟩)
  | electionSend cid req conn conns => exact Or.inr (Or.inl ⟨cid, conn, _, rfl, rfl⟩)
  | handlePing written cid req listener effect hlock hlistener hresp =>
    cases hresp with
    | written => exact Or.inr (Or.inr ⟨written, cid, _, _, rfl, rfl, hlistener, req, rfl⟩)
    | failed => exact Or.inl rfl
  | handleRefuse written cid req listener effect hlock hlistener hgrant hresp
  | handleGrant written cid req listener effect hlock hlistener hgrant hresp =>
    cases hresp with
    | written => exact Or.inr (Or.inr ⟨written, cid, _, _, rfl, rfl, hlistener, req, rfl⟩)
    | failed => exact Or.inl rfl
  | handleReject written cid req listener effect hlock hlistener haccept hresp =>
    cases hresp with
    | written => exact Or.inr (Or.inr ⟨written, cid, _, _, rfl, rfl, hlistener, req, rfl⟩)
    | failed => exact Or.inl rfl
  | handleAppend written cid req _ _ listener effect hlock hlistener haccept _ _ hresp =>
    cases hresp with
    | written => exact Or.inr (Or.inr ⟨written, cid, _, _, rfl, rfl, hlistener, req, rfl⟩)
    | failed => exact Or.inl rfl
  | _ => exact Or.inl rfl

/-- A step that neither goes on nor handles shows nothing. -/
theorem effect_eq_quiet (h : m.step conf env action = some (m', effect))
    (haction : action.speaks = false) : effect = .quiet := by
  rcases (step_sound h).effect_cases with hquiet | ⟨_, _, _, rfl, _⟩ | ⟨_, _, _, _, rfl, _⟩
  · exact hquiet
  · cases haction
  · cases haction

/-- A handler whose response cannot be written shows nothing. -/
theorem handle_unwritten (conf : Config) (env : Env) (cid : Nat) (req : RequestPattern T)
    (m : Node T) : (m.handle conf env cid req false).2 = .quiet := by
  cases req with
  | ping req => rfl
  | requestVote req => rfl
  | appendEntries req =>
    simp only [handle]
    split <;> rfl

/-- A handler runs on what the listener has read. -/
theorem handle_cases {written : Bool}
    (h : m.step conf env (.handle written) = some (m', effect)) :
    ∃ cid req, m.listener = .handling cid req ∧
      effect = ({ m with clock := env.now }.handle conf env cid req written).2 := by
  unfold step at h
  simp only [Option.ite_none_left_eq_some] at h
  obtain ⟨_, _, h⟩ := h
  split at h
  · rename_i cid req hlistener
    exact ⟨cid, req, hlistener, (congrArg Prod.snd (Option.some.inj h)).symm⟩
  · cases h

end Node

/-! ## Requests are answered once -/

namespace Cluster

variable {n : Nat} {C : ClusterConfig n} {s s' : Cluster C T} {l : Label n T}
  {action : Action T} {effect : Effect T}

/-- The connection at the same position after a step, with what the step leaves alone. -/
theorem Moves.kept (hm : s.Moves s' l action effect) {cid : Nat} {c : Connection n T}
    (h : s.conns[cid]? = some c) :
    ∃ c', s'.conns[cid]? = some c' ∧ c'.dst = c.dst ∧ c'.req = c.req ∧
      (c.taken = true → c'.taken = true) ∧ (l.input ≠ .deliver cid → c'.taken = c.taken) ∧
      ((∀ resp, effect ≠ .respond cid resp) → c'.resp = c.resp) := by
  have hread : ∃ c', (readInput s.conns l.input)[cid]? = some c' ∧ c'.dst = c.dst ∧
      c'.req = c.req ∧ (c.taken = true → c'.taken = true) ∧
      (l.input ≠ .deliver cid → c'.taken = c.taken) ∧ c'.resp = c.resp := by
    cases l.input with
    | act _ | reply _ => exact ⟨c, h, rfl, rfl, id, fun _ => rfl, rfl⟩
    | deliver d =>
      by_cases hd : d = cid
      · subst hd
        refine ⟨{ c with taken := true }, ?_, rfl, rfl, fun _ => rfl, fun hne => absurd rfl hne,
          rfl⟩
        rw [readInput, List.getElem?_modify_eq, h]
        rfl
      · refine ⟨c, ?_, rfl, rfl, id, fun _ => rfl, rfl⟩
        rw [readInput, List.getElem?_modify_ne _ _ hd, h]
  obtain ⟨c₁, h₁, hdst, hreq, htaken, hfree, hresp⟩ := hread
  have hlt := (List.getElem?_eq_some_iff.1 h₁).1
  rw [hm.conns]
  cases effect with
  | quiet => exact ⟨c₁, h₁, hdst, hreq, htaken, hfree, fun _ => hresp⟩
  | send dst req =>
    exact ⟨c₁, by rw [applyEffect, List.getElem?_append_left hlt, h₁], hdst, hreq, htaken, hfree,
      fun _ => hresp⟩
  | respond d resp =>
    by_cases hd : d = cid
    · subst hd
      refine ⟨{ c₁ with resp := some resp }, ?_, hdst, hreq, htaken, hfree,
        fun hne => absurd rfl (hne resp)⟩
      rw [applyEffect, List.getElem?_modify_eq, h₁]
      rfl
    · refine ⟨c₁, ?_, hdst, hreq, htaken, hfree, fun _ => hresp⟩
      rw [applyEffect, List.getElem?_modify_ne _ _ hd, h₁]

/-- What a listener reads is a connection that has been opened to it and not read yet. -/
theorem Moves.accept_cases {cid : Nat} {req : RequestPattern T}
    (hm : s.Moves s' l (.accept cid req) effect) :
    l.input = .deliver cid ∧ ∃ c, s.conns[cid]? = some c ∧ c.taken = false ∧
      c.dst = (C.conf l.node).listenerAddr ∧ c.req = req := by
  have h := hm.resolved
  unfold resolve at h
  split at h
  · rename_i act hinput
    obtain ⟨hlocal, heq⟩ := Option.ite_none_right_eq_some.1 h
    obtain rfl := Option.some.inj heq
    cases hlocal
  · rename_i d hinput
    split at h
    · cases h
    · rename_i c hget
      obtain ⟨⟨htaken, hdst⟩, heq⟩ := Option.ite_none_right_eq_some.1 h
      cases heq
      exact ⟨hinput, c, hget, htaken, hdst, rfl⟩
  · obtain ⟨_, h⟩ := Option.ite_none_right_eq_some.1 h
    split at h <;> cases h

/-- What no listener has read has no response, and neither has what a listener still
handles. -/
structure Unanswered (s : Cluster C T) : Prop where
  untaken : ∀ (cid : Nat) c, s.conns[cid]? = some c → c.taken = false → c.resp = none
  /-- A response is one to the request, which a listener has read. -/
  answers : ∀ (cid : Nat) c resp, s.conns[cid]? = some c → c.resp = some resp →
    resp.Answers c.req
  handling : ∀ i cid req, (s.nodes i).listener = .handling cid req →
    ∃ c, s.conns[cid]? = some c ∧ c.req = req ∧ c.dst = (C.conf i).listenerAddr ∧
      c.taken = true ∧ c.resp = none

/-- A response goes to a connection that the responding node handles. -/
theorem Unanswered.of_respond (hs : s.Unanswered) {cid : Nat} {resp : Response}
    (hm : s.Moves s' l action (.respond cid resp)) :
    ∃ written c, action = .handle written ∧ s.conns[cid]? = some c ∧ resp.Answers c.req ∧
      c.dst = (C.conf l.node).listenerAddr ∧ c.taken = true ∧ c.resp = none := by
  rcases hm.acting.effect_cases with h | ⟨_, _, _, _, h⟩ |
    ⟨written, _, _, req, haction, h, hlistener, hanswers⟩
  · cases h
  · cases h
  · cases h
    obtain ⟨c, hget, rfl, hdst, htaken, hresp⟩ := hs.handling _ cid req hlistener
    exact ⟨written, c, haction, hget, hanswers, hdst, htaken, hresp⟩

theorem Unanswered.step (hs : s.Unanswered) (hm : s.Moves s' l action effect) :
    s'.Unanswered where
  untaken := by
    intro cid c' hget' htaken'
    rcases hm.connection_cases hget' with ⟨c, hget, _, _, _, hresp⟩ | ⟨_, _, _, _, rfl⟩
    · obtain ⟨c'', hget'', _, _, hmono, _, _⟩ := hm.kept hget
      obtain rfl := Option.some.inj (hget'.symm.trans hget'')
      have hfalse : c.taken = false := by
        cases h : c.taken with
        | false => rfl
        | true => rw [hmono h] at htaken'; cases htaken'
      rcases hresp with hresp | ⟨resp, rfl, _⟩
      · rw [hresp, hs.untaken cid c hget hfalse]
      · obtain ⟨_, d, _, hd, _, _, htrue, _⟩ := hs.of_respond hm
        obtain rfl := Option.some.inj (hget.symm.trans hd)
        rw [hfalse] at htrue
        cases htrue
    · rfl
  answers := by
    intro cid c' resp hget' hresp'
    rcases hm.connection_cases hget' with ⟨c, hget, _, _, hreq, hold | ⟨resp', rfl, hnew⟩⟩ |
      ⟨_, _, _, _, rfl⟩
    · rw [hreq]
      exact hs.answers cid c resp hget (hold ▸ hresp')
    · obtain ⟨_, d, _, hd, hanswers, _⟩ := hs.of_respond hm
      obtain rfl := Option.some.inj (hget.symm.trans hd)
      obtain rfl := Option.some.inj (hnew.symm.trans hresp')
      rw [hreq]
      exact hanswers
    · cases hresp'
  handling := by
    intro i cid req hlistener
    -- what was handled before the step and still is
    have hold : (s.nodes i).listener = .handling cid req →
        (∀ resp, effect ≠ .respond cid resp) →
        ∃ c, s'.conns[cid]? = some c ∧ c.req = req ∧ c.dst = (C.conf i).listenerAddr ∧
          c.taken = true ∧ c.resp = none := by
      intro h hne
      obtain ⟨c, hget, hreq, hdst, htaken, hresp⟩ := hs.handling i cid req h
      obtain ⟨c', hget', hdst', hreq', hmono, _, hsame⟩ := hm.kept hget
      exact ⟨c', hget', hreq'.trans hreq, hdst'.trans hdst, hmono htaken,
        (hsame hne).trans hresp⟩
    by_cases hi : i = l.node
    · subst hi
      rcases hm.acting.handling_cases hlistener with h | rfl
      · refine hold h fun resp hresp => ?_
        subst hresp
        obtain ⟨written, _, rfl, _⟩ := hs.of_respond hm
        have howes := hm.acting.owes_handle
        rw [hlistener] at howes
        cases howes
      · obtain ⟨hinput, c, hget, _, hdst, hreq⟩ := hm.accept_cases
        have hquiet : effect = .quiet := by
          rcases hm.acting.effect_cases with h | ⟨_, _, _, h, _⟩ | ⟨_, _, _, _, h, _⟩
          · exact h
          · cases h
          · cases h
        refine ⟨{ c with taken := true }, ?_, hreq, hdst, rfl, hs.untaken cid c hget ‹_›⟩
        rw [hm.conns, hquiet, hinput, applyEffect, readInput, List.getElem?_modify_eq, hget]
        rfl
    · rw [hm.others i hi] at hlistener
      refine hold hlistener fun resp hresp => ?_
      subst hresp
      obtain ⟨_, c, _, hget, _, hdst, _⟩ := hs.of_respond hm
      obtain ⟨d, hd, _, hdst', _⟩ := hs.handling i cid req hlistener
      obtain rfl := Option.some.inj (hget.symm.trans hd)
      exact hi (C.addr_injective (hdst'.symm.trans hdst))

theorem Unanswered.of_reachable {ok : Cluster C T → Label n T → Prop}
    (h : (clusterSystem C T).Reachable ok s) : s.Unanswered := by
  refine h.invariant ?_ ?_
  · rintro s ⟨boot, rfl⟩
    exact ⟨fun _ _ => nofun, fun _ _ _ => nofun, fun _ _ _ => nofun⟩
  · intro s l s' _ hs _ hl
    obtain ⟨action, effect, hm⟩ := step_cases hl
    exact hs.step hm

/-- A response that is on a connection stays there. -/
theorem Unanswered.kept (hs : s.Unanswered) (hm : s.Moves s' l action effect) {cid : Nat}
    {c : Connection n T} {resp : Response} (hget : s.conns[cid]? = some c)
    (hresp : c.resp = some resp) :
    ∃ c', s'.conns[cid]? = some c' ∧ c'.src = c.src ∧ c'.dst = c.dst ∧ c'.req = c.req ∧
      c'.resp = some resp := by
  obtain ⟨c', hget', hsrc, hdst, hreq, hold | ⟨resp', rfl, _⟩⟩ := hm.connection hget
  · exact ⟨c', hget', hsrc, hdst, hreq, hold.trans hresp⟩
  · obtain ⟨_, d, _, hd, _, _, _, hnone⟩ := hs.of_respond hm
    obtain rfl := Option.some.inj (hget.symm.trans hd)
    rw [hresp] at hnone
    cases hnone

end Cluster

/-- **A request is answered once.**  In every run of a cluster, whatever fails in it: a
connection on which there is a response has been read by a listener, the response is one to
the request of the connection, and no later step takes it away or puts another in its
place. -/
theorem answered_once {n : Nat} {C : ClusterConfig n} {s s' : Cluster C T}
    (hs : (clusterSystem C T).Reachable System.Always s)
    (h : (clusterSystem C T).Steps System.Always s s') {cid : Nat} {c : Connection n T}
    {resp : Response} (hget : s.conns[cid]? = some c) (hresp : c.resp = some resp) :
    c.taken = true ∧ resp.Answers c.req ∧ ∃ c', s'.conns[cid]? = some c' ∧ c'.src = c.src ∧
      c'.dst = c.dst ∧ c'.req = c.req ∧ c'.resp = some resp := by
  have hunanswered := Cluster.Unanswered.of_reachable hs
  have htaken : c.taken = true := by
    cases hfalse : c.taken with
    | true => rfl
    | false =>
      rw [hunanswered.untaken cid c hget hfalse] at hresp
      cases hresp
  refine ⟨htaken, hunanswered.answers cid c resp hget hresp, ?_⟩
  induction h with
  | refl => exact ⟨c, hget, rfl, rfl, rfl, hresp⟩
  | tail hsteps hnext ih =>
    obtain ⟨l, _, hl⟩ := hnext
    obtain ⟨action, effect, hm⟩ := Cluster.step_cases hl
    obtain ⟨c₁, hget₁, hsrc₁, hdst₁, hreq₁, hresp₁⟩ := ih
    obtain ⟨c₂, hget₂, hsrc₂, hdst₂, hreq₂, hresp₂⟩ :=
      (Cluster.Unanswered.of_reachable (hs.steps hsteps)).kept hm hget₁ hresp₁
    exact ⟨c₂, hget₂, hsrc₂.trans hsrc₁, hdst₂.trans hdst₁, hreq₂.trans hreq₁, hresp₂⟩

/-- The vote of node 1 stays on its connection while node 0 takes its office. -/
theorem answered_once_elected : ∃ s' c', (clusterSystem duo Nat).Steps System.Always
    (.start₀ duo Nat) s' ∧ (s'.nodes 0).isLeader = true ∧ s'.conns[0]? = some c' ∧
      c'.req = .requestVote ⟨1, 1, 0, 0⟩ ∧ c'.resp = some (.requestVote ⟨2, 1, true⟩) := by
  obtain ⟨s, hs, hvoted⟩ := System.exec_any (clusterSystem duo Nat) System.Always
    (.start₀ duo Nat) ((elect 400 0 0 1).take 6)
    (P := fun s => s.conns[0]?.map (fun c : Connection 2 Nat => (c.req, c.resp))
        = some (.requestVote ⟨1, 1, 0, 0⟩, some (.requestVote ⟨2, 1, true⟩)) ∧
      ((clusterSystem duo Nat).exec System.Always s ((elect 400 0 0 1).drop 6)).any
        (fun s' => (s'.nodes 0).isLeader) = true) (by decide +kernel)
  obtain ⟨c, hget, hc⟩ := Option.map_eq_some_iff.1 hvoted.1
  obtain ⟨hreq, hresp⟩ := Prod.mk.inj hc
  obtain ⟨s', hexec, hleader⟩ := (Option.any_eq_true _ _).1 hvoted.2
  have h := System.exec_steps hexec
  obtain ⟨_, _, c', hget', _, _, hreq', hresp'⟩ :=
    answered_once ⟨_, Cluster.init_start₀ duo Nat, hs⟩ h hget hresp
  exact ⟨s', c', hs.trans h, hleader, hget', hreq'.trans hreq, hresp'⟩

end Quaso
