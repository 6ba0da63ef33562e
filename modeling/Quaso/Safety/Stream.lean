import Quaso.Raft.Bincode
import Quaso.Safety.Agreement
import Quaso.Safety.Carried

/-!
# Byte streams carry messages

A cluster over byte streams does what the cluster of `Quaso.Raft.Cluster` can do: a
request that a listener reads to its end is the one that was sent, or it does not decode;
a response that is read whole is the one that was written, and a piece of one does not
decode.

* `Wires.Represents` — a cluster over byte streams and the cluster that it stands for.
* `Wires.Represents.step` — one step of it is one step of the other, or none.
* `wires_refine` — so every run is one; `wires_agree` is what that gives for the entries
  that the nodes deliver.
-/

namespace Quaso

variable {T : Type}

/-! ## Clusters -/

section Refinement

variable {n : Nat} {C : ClusterConfig n} {codec : MessageCodec T} {w w' : Wires C T}
  {s s' : Cluster C T} {i : Fin n} {env : Env} {action : Action T} {m : Node T}
  {effect : Effect T}

/-- The listener at an address reads a stream whose request it has not been given yet. -/
structure Reads (codec : MessageCodec T) (w : Wires C T) (s : Cluster C T) (addr : Addr)
    (cid : Nat) : Prop where
  stream : ∃ st, w.streams[cid]? = some st ∧ st.accepted = true
  connection : ∃ c bytes, s.conns[cid]? = some c ∧ c.taken = false ∧ c.dst = addr ∧
    codec.encodeRequest c.req = some bytes

/-- A cluster over byte streams stands for a cluster. -/
structure Wires.Represents (codec : MessageCodec T) (w : Wires C T) (s : Cluster C T) : Prop where
  nodes : w.nodes = s.nodes
  streams : List.Forall₂ (Carried codec) w.streams s.conns
  reading : ∀ i cid, w.reading i = some cid →
    (s.nodes i).listener = .accepting ∧ Reads codec w s (C.conf i).listenerAddr cid

/-- An input of the cluster is what an input of the cluster over byte streams comes to. -/
structure Wires.Matched (codec : MessageCodec T) (w : Wires C T) (s : Cluster C T) (i : Fin n)
    (env : Env) (input : WireInput T) (action : Action T) (effect : Effect T)
    (input' : Input T) : Prop where
  resolved : s.resolve i input' = some action
  streams : List.Forall₂ (Carried codec) (w.carry codec i env effect input)
    (Cluster.applyEffect i (Cluster.readInput s.conns input') effect)
  /-- A listener is given a request when it has finished reading. -/
  reads : ∀ cid, input' = .deliver cid →
    w.reading i = some cid ∧ w.readingAfter i input i = none
  finished : action.ofListener = true → w.readingAfter i input i = none

/-- What a step of the cluster over byte streams can be. -/
theorem Wires.step_cases {l : WireLabel n T} (h : w.step codec l = some w') :
    (∃ t, l.input = .traffic t ∧ w.resolve codec l.node l.env l.input = none ∧
      w.transfer l.node t = some w') ∨
    ∃ action m effect, w.resolve codec l.node l.env l.input = some action ∧
      (w.nodes l.node).step (C.conf l.node) l.env action = some (m, effect) ∧
      w' = w.moved codec l.node l.env l.input m effect := by
  unfold Wires.step at h
  split at h
  · rename_i t hinput
    exact Or.inl ⟨t, hinput, by rw [hinput]; rfl, h⟩
  · split at h
    · cases h
    · rename_i action hresolve
      split at h
      · cases h
      · rename_i m effect hstep
        exact Or.inr ⟨action, m, effect, hresolve, hstep, (Option.some.inj h).symm⟩

theorem Wires.waiting_eq_some {cid : Nat} {st : Stream n} :
    w.waiting i = some (cid, st) ↔
      (w.nodes i).tick.waitsOn = some cid ∧ w.streams[cid]? = some st := by
  unfold Wires.waiting
  simp only [Option.bind_eq_some_iff, Option.map_eq_some_iff, Prod.mk.injEq]
  constructor
  · rintro ⟨_, hwaits, _, hget, rfl, rfl⟩
    exact ⟨hwaits, hget⟩
  · rintro ⟨hwaits, hget⟩
    exact ⟨cid, hwaits, st, hget, rfl, rfl⟩

theorem Wires.current_eq_some {cid : Nat} {st : Stream n} :
    w.current i = some (cid, st) ↔ w.reading i = some cid ∧ w.streams[cid]? = some st := by
  unfold Wires.current
  simp only [Option.bind_eq_some_iff, Option.map_eq_some_iff, Prod.mk.injEq]
  constructor
  · rintro ⟨_, hreading, _, hget, rfl, rfl⟩
    exact ⟨hreading, hget⟩
  · rintro ⟨hreading, hget⟩
    exact ⟨cid, hreading, st, hget, rfl, rfl⟩

/-- A loop that waits is one of two. -/
theorem Node.answered_cases {append : Answer AppendEntriesResponse}
    {vote : Answer ElectionVoteResponse} (h : m.answered append vote = some action) :
    (∃ conn logSize cid conns, m.tick = .heartbeatWait conn logSize cid conns ∧
      action = .appendAnswer append) ∨
    ∃ req conn cid conns, m.tick = .electionWait req conn cid conns ∧
      action = .voteAnswer vote := by
  unfold Node.answered at h
  split at h
  · rename_i conn logSize cid conns htick
    exact Or.inl ⟨conn, logSize, cid, conns, htick, (Option.some.inj h).symm⟩
  · rename_i req conn cid conns htick
    exact Or.inr ⟨req, conn, cid, conns, htick, (Option.some.inj h).symm⟩
  · cases h

namespace Wires.Represents

/-! ### Bytes move -/

theorem setStream (h : w.Represents codec s) {cid : Nat} {st st' : Stream n}
    (hget : w.streams[cid]? = some st) (hdst : st'.dst = st.dst)
    (haccepted : st.accepted = true → st'.accepted = true) (hdown : st'.down = st.down)
    (hbytes : st'.got ++ st'.up ++ st'.unsent = st.got ++ st.up ++ st.unsent) :
    (w.setStream cid st').Represents codec s where
  nodes := h.nodes
  streams := by
    unfold Wires.setStream
    rw [List.set_eq_modify]
    refine forall₂_modify_left h.streams fun st₀ c hget₀ _ hcarried => ?_
    obtain rfl := Option.some.inj (hget.symm.trans hget₀)
    exact hcarried.of_bytes hdst haccepted hdown hbytes
  reading := by
    intro i d hreading
    obtain ⟨hlistener, ⟨st₀, hget₀, htrue⟩, hconnection⟩ := h.reading i d hreading
    refine ⟨hlistener, ?_, hconnection⟩
    unfold Wires.setStream
    by_cases hd : cid = d
    · subst hd
      obtain rfl := Option.some.inj (hget.symm.trans hget₀)
      have hlt := (List.getElem?_eq_some_iff.1 hget).1
      exact ⟨st', List.getElem?_set_self hlt, haccepted htrue⟩
    · exact ⟨st₀, by rw [List.getElem?_set_ne hd, hget₀], htrue⟩

theorem setReading (h : w.Represents codec s) {next : Option Nat}
    (hnext : ∀ cid, next = some cid →
      (s.nodes i).listener = .accepting ∧ Reads codec w s (C.conf i).listenerAddr cid) :
    (w.setReading i next).Represents codec s where
  nodes := h.nodes
  streams := h.streams
  reading := by
    intro j cid hreading
    by_cases hj : j = i
    · subst hj
      have hsome : next = some cid := by
        simpa [Wires.setReading] using hreading
      exact ⟨(hnext cid hsome).1, (hnext cid hsome).2.stream, (hnext cid hsome).2.connection⟩
    · have hold : w.reading j = some cid := by
        rw [← hreading]
        exact (Function.update_of_ne hj ..).symm
      exact ⟨(h.reading j cid hold).1, (h.reading j cid hold).2.stream,
        (h.reading j cid hold).2.connection⟩

/-- Where bytes move and no node does, the cluster stays as it is. -/
theorem transfer (h : w.Represents codec s) {t : Traffic} (ht : w.transfer i t = some w') :
    w'.Represents codec s := by
  unfold Wires.transfer at ht
  cases t with
  | write count =>
    obtain ⟨⟨cid, st⟩, hwaiting, ht⟩ := Option.bind_eq_some_iff.1 ht
    obtain ⟨_, ht⟩ := Option.ite_none_right_eq_some.1 ht
    obtain rfl := Option.some.inj ht
    refine h.setStream (waiting_eq_some.1 hwaiting).2 rfl id rfl ?_
    simp [List.append_assoc]
  | shut =>
    obtain ⟨⟨cid, st⟩, hwaiting, ht⟩ := Option.bind_eq_some_iff.1 ht
    obtain ⟨_, ht⟩ := Option.ite_none_right_eq_some.1 ht
    obtain rfl := Option.some.inj ht
    exact h.setStream (waiting_eq_some.1 hwaiting).2 rfl id rfl rfl
  | accept cid =>
    obtain ⟨st, hget, ht⟩ := Option.bind_eq_some_iff.1 ht
    obtain ⟨⟨hlistener, _, hdst, haccepted⟩, ht⟩ := Option.ite_none_right_eq_some.1 ht
    obtain rfl := Option.some.inj ht
    obtain ⟨c, hc, hcarried⟩ := forall₂_getElem? h.streams hget
    have hset : (w.setStream cid { st with accepted := true }).Represents codec s :=
      h.setStream hget rfl (fun _ => rfl) rfl rfl
    refine hset.setReading fun d hd => ?_
    cases hd
    have hlt := (List.getElem?_eq_some_iff.1 hget).1
    refine ⟨h.nodes ▸ Listener.eq_accepting hlistener, ⟨_, List.getElem?_set_self hlt, rfl⟩, ?_⟩
    have htaken : c.taken = false := by
      cases htrue : c.taken with
      | false => rfl
      | true =>
        rw [hcarried.taken htrue] at haccepted
        cases haccepted
    cases hencode : codec.encodeRequest c.req with
    | some bytes => exact ⟨c, bytes, hc, htaken, hcarried.dst.symm.trans hdst, hencode⟩
    | none =>
      rw [hcarried.refused hencode] at haccepted
      cases haccepted
  | read count =>
    obtain ⟨⟨cid, st⟩, hcurrent, ht⟩ := Option.bind_eq_some_iff.1 ht
    obtain ⟨_, ht⟩ := Option.ite_none_right_eq_some.1 ht
    obtain rfl := Option.some.inj ht
    refine h.setStream (current_eq_some.1 hcurrent).2 rfl id rfl ?_
    simp [List.append_assoc]
  | hangUp =>
    obtain ⟨⟨cid, st⟩, hcurrent, ht⟩ := Option.bind_eq_some_iff.1 ht
    obtain ⟨_, ht⟩ := Option.ite_none_right_eq_some.1 ht
    obtain rfl := Option.some.inj ht
    have hset : (w.setStream cid { st with downShut := true }).Represents codec s :=
      h.setStream (current_eq_some.1 hcurrent).2 rfl id rfl rfl
    exact hset.setReading fun _ => nofun

/-! ### A node moves -/

variable (h : w.Represents codec s)

include h

theorem isLocal_eq (h' : w.isLocal action = true) : s.isLocal action = true := by
  cases action with
  | advance cid =>
    rw [Cluster.isLocal, ← h.streams.length_eq]
    exact h'
  | accept | appendAnswer | voteAnswer | handle | abortListener => cases h'
  | _ => rfl

/-- A step that needs nothing from the network. -/
theorem matched_act (hlocal : w.isLocal action = true)
    (hstep : (s.nodes i).step (C.conf i) env action = some (m, effect)) :
    Matched codec w s i env (.act action) action effect (.act action) where
  resolved := by
    rw [Cluster.resolve, if_pos (h.isLocal_eq hlocal)]
  streams := by
    rcases (Node.step_sound hstep).effect_cases with rfl | ⟨cid, dst, req, _, rfl⟩ |
      ⟨written, _, _, _, rfl, _⟩
    · exact h.streams
    · exact List.rel_append h.streams (.cons (Carried.connect codec i dst req) .nil)
    · cases hlocal
  reads := nofun
  finished := by
    intro hlistener
    cases action with
    | accept | handle | abortListener => cases hlocal
    | _ => cases hlistener

/-- The loop that waits gets no answer from its connection. -/
theorem matched_lost {append : Answer AppendEntriesResponse} {vote : Answer ElectionVoteResponse}
    {input : WireInput T} (hinput : input = .writeError ∨ input = .recvError)
    (hlocal : s.isLocal action = true)
    (hanswered : (s.nodes i).answered append vote = some action)
    (hstep : (s.nodes i).step (C.conf i) env action = some (m, effect)) :
    Matched codec w s i env input action effect (.act action) where
  resolved := by
    rw [Cluster.resolve, if_pos hlocal]
  streams := by
    have hquiet : effect = .quiet := by
      rcases Node.answered_cases hanswered with ⟨_, _, _, _, _, rfl⟩ | ⟨_, _, _, _, _, rfl⟩ <;>
        exact Node.effect_eq_quiet hstep rfl
    have hclosed : ∀ cid, List.Forall₂ (Carried codec)
        (w.streams.modify cid fun st => { st with upShut := true }) s.conns := fun cid =>
      forall₂_modify_left h.streams fun _ _ _ _ hcarried => hcarried.of_bytes rfl id rfl rfl
    rw [hquiet]
    rcases hinput with rfl | rfl
    · unfold Wires.carry
      cases (w.nodes i).tick.waitsOn with
      | some cid => exact hclosed cid
      | none => exact h.streams
    · unfold Wires.carry
      cases (w.nodes i).tick.waitsOn with
      | some cid => exact hclosed cid
      | none => exact h.streams
  reads := nofun
  finished := by
    intro hlistener
    rcases Node.answered_cases hanswered with ⟨_, _, _, _, _, rfl⟩ | ⟨_, _, _, _, _, rfl⟩ <;>
      cases hlistener

/-- The loop that waits reads what has come. -/
theorem matched_recv (hsound : s.NetworkSound) {cid count : Nat} {st : Stream n}
    (hwaiting : w.waiting i = some (cid, st))
    (hanswered : (s.nodes i).answered (decodeAnswer codec.appendResponse (st.down.take count))
      (decodeAnswer codec.voteResponse (st.down.take count)) = some action)
    (hstep : (s.nodes i).step (C.conf i) env action = some (m, effect)) :
    ∃ input', Matched codec w s i env (.recv count) action effect input' := by
  obtain ⟨hwaits, hget⟩ := waiting_eq_some.1 hwaiting
  obtain ⟨c, hc, hcarried⟩ := forall₂_getElem? h.streams hget
  rw [h.nodes] at hwaits
  have hquiet : effect = .quiet ∧ action.ofListener = false := by
    rcases Node.answered_cases hanswered with ⟨_, _, _, _, _, rfl⟩ | ⟨_, _, _, _, _, rfl⟩ <;>
      exact ⟨Node.effect_eq_quiet hstep rfl, rfl⟩
  obtain ⟨rfl, hlistener⟩ := hquiet
  have hmatched : ∀ input', s.resolve i input' = some action →
      Cluster.readInput s.conns input' = s.conns → (∀ cid, input' ≠ .deliver cid) →
      ∃ input', Matched codec w s i env (.recv count) action .quiet input' := by
    intro input' hresolved hread hdeliver
    refine ⟨input', hresolved, ?_, fun cid hcid => absurd hcid (hdeliver cid), ?_⟩
    · rw [hread]
      exact h.streams
    · intro htrue
      rw [hlistener] at htrue
      cases htrue
  rcases Node.answered_cases hanswered with ⟨_, _, d, _, htick, rfl⟩ | ⟨_, _, d, _, htick, rfl⟩
  · obtain rfl : d = cid := by simpa [htick, Tick.waitsOn] using hwaits
    obtain ⟨req, _, c', hc', _, _, hreq⟩ := hsound.heartbeatWait _ _ _ _ _ htick
    obtain rfl := Option.some.inj (hc.symm.trans hc')
    rcases hcarried.down_cases count with hsilent | ⟨resp, hresp, hanswers, hdown⟩
    · rw [hreq] at hsilent
      refine hmatched (.act (.appendAnswer .undecodable)) ?_ rfl (by simp)
      rw [decodeAnswer, show codec.appendResponse _ = none from hsilent]
      rfl
    · rw [hreq] at hanswers
      cases resp with
      | ping _ | requestVote _ =>
        obtain ⟨_, heq⟩ := hanswers
        cases heq
      | appendEntries resp =>
        refine hmatched (.reply d) ?_ rfl (by simp)
        rw [Cluster.resolve, if_pos hwaits, hc, Option.bind_some, hresp, decodeAnswer, hdown,
          codec.append_encode]
  · obtain rfl : d = cid := by simpa [htick, Tick.waitsOn] using hwaits
    obtain ⟨c', hc', _, _, hreq⟩ := hsound.electionWait _ _ _ _ _ htick
    obtain rfl := Option.some.inj (hc.symm.trans hc')
    rcases hcarried.down_cases count with hsilent | ⟨resp, hresp, hanswers, hdown⟩
    · rw [hreq] at hsilent
      refine hmatched (.act (.voteAnswer .undecodable)) ?_ rfl (by simp)
      rw [decodeAnswer, show codec.voteResponse _ = none from hsilent]
      rfl
    · rw [hreq] at hanswers
      cases resp with
      | ping _ | appendEntries _ =>
        obtain ⟨_, heq⟩ := hanswers
        cases heq
      | requestVote resp =>
        refine hmatched (.reply d) ?_ rfl (by simp)
        rw [Cluster.resolve, if_pos hwaits, hc, Option.bind_some, hresp, decodeAnswer, hdown,
          codec.vote_encode]

/-- The listener finds the end of its stream. -/
theorem matched_eof {cid : Nat} {st : Stream n} (hcurrent : w.current i = some (cid, st))
    (hup : st.up = [])
    (haction : action = match codec.request st.got with
      | some req => .accept cid req
      | none => .abortListener)
    (hstep : (s.nodes i).step (C.conf i) env action = some (m, effect)) :
    ∃ input', Matched codec w s i env .eof action effect input' := by
  obtain ⟨hreading, hget⟩ := current_eq_some.1 hcurrent
  obtain ⟨_, ⟨st', hget', haccepted⟩, c, bytes, hc, htaken, hdst, hencode⟩ :=
    h.reading i cid hreading
  obtain rfl := Option.some.inj (hget.symm.trans hget')
  have hcarried : Carried codec st c := by
    obtain ⟨c', hc', hcarried⟩ := forall₂_getElem? h.streams hget
    obtain rfl := Option.some.inj (hc.symm.trans hc')
    exact hcarried
  have hfinished : w.readingAfter i .eof i = none := Function.update_self ..
  rcases hcarried.request_cases hup hencode with hdecode | hdecode
  · simp only [hdecode] at haction
    subst haction
    obtain rfl := Node.effect_eq_quiet hstep rfl
    refine ⟨.deliver cid, ?_, ?_, ?_, fun _ => hfinished⟩
    · simp [Cluster.resolve, hc, htaken, hdst]
    · simp only [Wires.carry, hcurrent, hdecode, Option.isNone_some, Bool.false_eq_true, if_false]
      refine forall₂_modify_right h.streams fun st₀ c₀ hst₀ hc₀ hcarried₀ => ?_
      obtain rfl := Option.some.inj (hget.symm.trans hst₀)
      exact hcarried₀.take haccepted
    · intro d hd
      cases hd
      exact ⟨hreading, hfinished⟩
  · simp only [hdecode] at haction
    subst haction
    obtain rfl := Node.effect_eq_quiet hstep rfl
    refine ⟨.act .abortListener, rfl, ?_, fun _ => nofun, fun _ => hfinished⟩
    simp only [Wires.carry, hcurrent, hdecode, Option.isNone_none, if_true]
    rw [List.set_eq_modify]
    refine forall₂_modify_left h.streams fun st₀ c₀ hst₀ _ hcarried₀ => ?_
    obtain rfl := Option.some.inj (hget.symm.trans hst₀)
    exact hcarried₀.of_bytes rfl id rfl rfl

/-- The listener answers, and its answer is written, or a piece of it. -/
theorem matched_handle (hunanswered : s.Unanswered) {cut : Option Nat}
    (hcut : ∀ count, cut = some count →
      count < ((s.nodes i).responseBytes codec (C.conf i) env).length ∨
        (s.nodes i).responseBytes codec (C.conf i) env = [])
    (hstep : (s.nodes i).step (C.conf i) env (.handle cut.isNone) = some (m, effect)) :
    Matched codec w s i env (.handle cut) (.handle cut.isNone) effect
      (.act (.handle cut.isNone)) where
  resolved := rfl
  reads := nofun
  finished := by
    intro _
    obtain ⟨cid, req, hlistener, _⟩ := Node.handle_cases hstep
    cases hreading : w.reading i with
    | none => exact hreading
    | some d =>
      rw [(h.reading i d hreading).1] at hlistener
      cases hlistener
  streams := by
    obtain ⟨cid, req, hlistener, heffect⟩ := Node.handle_cases hstep
    obtain ⟨c, hc, rfl, _, _, hresp⟩ := hunanswered.handling i cid req hlistener
    have hcarry : w.carry codec i env effect (.handle cut) = w.streams.modify cid fun st =>
        { st with
          down := ((s.nodes i).responseBytes codec (C.conf i) env).take
            (cut.getD ((s.nodes i).responseBytes codec (C.conf i) env).length)
          downShut := true } := by
      simp only [Wires.carry, h.nodes, hlistener, Listener.owes]
    rw [hcarry]
    rcases (Node.step_sound hstep).effect_cases with rfl | ⟨_, _, _, hadvance, _⟩ |
      ⟨_, d, resp, req, hhandle, rfl, hlistener', hanswers⟩
    · refine forall₂_modify_left h.streams fun st c₀ _ hc₀ hcarried => ?_
      obtain rfl := Option.some.inj (hc.symm.trans hc₀)
      refine hcarried.cut hresp fun count => ?_
      rw [List.take_take]
      cases cut with
      | none =>
        -- the handler has panicked
        have hbytes : (s.nodes i).responseBytes codec (C.conf i) env = [] := by
          rw [Option.isNone_none] at hstep
          rw [Node.responseBytes, hstep]
        rw [hbytes, List.take_nil]
        exact codec.silent_nil _
      | some k =>
        rcases Node.responseBytes_cases codec (C.conf i) env hlistener with hbytes |
          ⟨resp, hanswers, hbytes⟩
        · rw [hbytes, List.take_nil]
          exact codec.silent_nil _
        · rcases hcut k rfl with hlt | hnil
          · rw [hbytes] at hlt ⊢
            exact codec.silent_short resp hanswers (lt_of_le_of_lt (min_le_right ..) hlt)
          · exact absurd (hbytes.symm.trans hnil) (codec.response_ne_nil resp)
    · cases hadvance
    · rw [hlistener] at hlistener'
      cases hlistener'
      cases cut with
      | some k =>
        rw [Option.isNone_some, Node.handle_unwritten] at heffect
        cases heffect
      | none =>
        have hbytes : (s.nodes i).responseBytes codec (C.conf i) env
            = codec.encodeResponse resp := by
          rw [Option.isNone_none] at hstep
          rw [Node.responseBytes, hstep]
        simp only [hbytes, Option.getD_none, List.take_length]
        refine forall₂_modify h.streams fun st c₀ _ hc₀ hcarried => ?_
        obtain rfl := Option.some.inj (hc.symm.trans hc₀)
        exact hcarried.respond hanswers

/-! ### One step -/

/-- **What a node does over byte streams it does over messages.** -/
theorem matched (hsound : s.NetworkSound) (hunanswered : s.Unanswered) {input : WireInput T}
    (hresolve : w.resolve codec i env input = some action)
    (hstep : (s.nodes i).step (C.conf i) env action = some (m, effect)) :
    ∃ input', Matched codec w s i env input action effect input' := by
  cases input with
  | traffic t => cases hresolve
  | act act =>
    obtain ⟨hlocal, heq⟩ := Option.ite_none_right_eq_some.1 hresolve
    obtain rfl := Option.some.inj heq
    exact ⟨_, h.matched_act hlocal hstep⟩
  | writeError =>
    obtain ⟨_, _, hresolve⟩ := Option.bind_eq_some_iff.1 hresolve
    obtain ⟨_, hanswered⟩ := Option.ite_none_right_eq_some.1 hresolve
    rw [h.nodes] at hanswered
    have hlocal : s.isLocal action = true := by
      rcases Node.answered_cases hanswered with ⟨_, _, _, _, _, rfl⟩ | ⟨_, _, _, _, _, rfl⟩ <;> rfl
    exact ⟨_, h.matched_lost (Or.inl rfl) hlocal hanswered hstep⟩
  | recvError =>
    have hanswered : (s.nodes i).answered .none .none = some action := h.nodes ▸ hresolve
    have hlocal : s.isLocal action = true := by
      rcases Node.answered_cases hanswered with ⟨_, _, _, _, _, rfl⟩ | ⟨_, _, _, _, _, rfl⟩ <;> rfl
    exact ⟨_, h.matched_lost (Or.inr rfl) hlocal hanswered hstep⟩
  | eof =>
    obtain ⟨⟨cid, st⟩, hcurrent, hresolve⟩ := Option.bind_eq_some_iff.1 hresolve
    obtain ⟨⟨hup, _⟩, heq⟩ := Option.ite_none_right_eq_some.1 hresolve
    refine h.matched_eof hcurrent hup ?_ hstep
    cases hdecode : codec.request st.got with
    | some req =>
      simp only [hdecode] at heq
      exact (Option.some.inj heq).symm
    | none =>
      simp only [hdecode] at heq
      exact (Option.some.inj heq).symm
  | handle cut =>
    unfold Wires.resolve at hresolve
    rw [h.nodes] at hresolve
    cases cut with
    | none =>
      obtain rfl := Option.some.inj hresolve
      exact ⟨_, h.matched_handle hunanswered nofun hstep⟩
    | some count =>
      obtain ⟨hcut, heq⟩ := Option.ite_none_right_eq_some.1 hresolve
      obtain rfl := Option.some.inj heq
      refine ⟨_, h.matched_handle hunanswered (fun k hk => ?_) hstep⟩
      cases hk
      exact hcut
  | recv count =>
    obtain ⟨⟨cid, st⟩, hwaiting, hresolve⟩ := Option.bind_eq_some_iff.1 hresolve
    obtain ⟨_, hanswered⟩ := Option.ite_none_right_eq_some.1 hresolve
    rw [h.nodes] at hanswered
    exact h.matched_recv hsound hwaiting hanswered hstep

omit h in
/-- A stream that has been accepted stays so. -/
theorem carry_accepted {input : WireInput T} {cid : Nat} {st : Stream n}
    (hget : w.streams[cid]? = some st) (haccepted : st.accepted = true) :
    ∃ st', (w.carry codec i env effect input)[cid]? = some st' ∧ st'.accepted = true := by
  have hmodify : ∀ (d : Nat) (f : Stream n → Stream n), (∀ st, (f st).accepted = st.accepted) →
      ∃ st', (w.streams.modify d f)[cid]? = some st' ∧ st'.accepted = true := by
    intro d f hf
    by_cases hd : d = cid
    · subst hd
      exact ⟨f st, by rw [List.getElem?_modify_eq, hget]; rfl, (hf st).trans haccepted⟩
    · exact ⟨st, by rw [List.getElem?_modify_ne _ _ hd, hget], haccepted⟩
  unfold carry
  split
  · split
    · have hlt := (List.getElem?_eq_some_iff.1 hget).1
      exact ⟨st, by rw [List.getElem?_append_left hlt, hget], haccepted⟩
    · exact ⟨st, hget, haccepted⟩
  · split
    · exact hmodify _ _ fun _ => rfl
    · exact ⟨st, hget, haccepted⟩
  · split
    · exact hmodify _ _ fun _ => rfl
    · exact ⟨st, hget, haccepted⟩
  · split
    · exact hmodify _ _ fun _ => rfl
    · exact ⟨st, hget, haccepted⟩
  · split
    · rename_i d st₀ hcurrent
      split
      · by_cases hd : d = cid
        · subst hd
          have hst₀ := (current_eq_some.1 hcurrent).2
          obtain rfl := Option.some.inj (hget.symm.trans hst₀)
          exact ⟨_, List.getElem?_set_self (List.getElem?_eq_some_iff.1 hget).1, haccepted⟩
        · exact ⟨st, by rw [List.getElem?_set_ne hd, hget], haccepted⟩
      · exact ⟨st, hget, haccepted⟩
    · exact ⟨st, hget, haccepted⟩
  all_goals exact ⟨st, hget, haccepted⟩

omit h in
/-- No listener turns to another stream while a node moves. -/
theorem reading_of_after {input : WireInput T} {j : Fin n} {cid : Nat}
    (hreading : w.readingAfter i input j = some cid) : w.reading j = some cid := by
  unfold readingAfter at hreading
  split at hreading
  · by_cases hj : j = i
    · subst hj
      rw [Function.update_self] at hreading
      cases hreading
    · rwa [Function.update_of_ne hj] at hreading
  · exact hreading

/-- The two clusters after a step that one makes as the other does. -/
theorem move {input : WireInput T} {input' : Input T}
    (hmatched : Matched codec w s i env input action effect input')
    (hmoves : s.Moves s' ⟨i, env, input'⟩ action effect) (hm : s'.nodes i = m) :
    Represents codec (w.moved codec i env input m effect) s' where
  nodes := by
    funext j
    change (if j = i then m else w.nodes j) = s'.nodes j
    by_cases hj : j = i
    · subst hj
      rw [if_pos rfl, hm]
    · rw [if_neg hj, hmoves.others j hj, h.nodes]
  streams := by
    rw [hmoves.conns]
    exact hmatched.streams
  reading := by
    intro j cid hreading
    change w.readingAfter i input j = some cid at hreading
    obtain ⟨hlistener, ⟨st, hget, haccepted⟩, c, bytes, hc, htaken, hdst, hencode⟩ :=
      h.reading j cid (reading_of_after hreading)
    refine ⟨?_, carry_accepted hget haccepted, ?_⟩
    · by_cases hj : j = i
      · subst hj
        cases hof : action.ofListener with
        | true =>
          rw [hmatched.finished hof] at hreading
          cases hreading
        | false => rw [hmoves.acting.listener_eq hof, hlistener]
      · rw [hmoves.others j hj, hlistener]
    · obtain ⟨c', hc', hdst', hreq', _, hfree, _⟩ := hmoves.kept hc
      refine ⟨c', bytes, hc', ?_, hdst'.trans hdst, hreq' ▸ hencode⟩
      rw [hfree fun hinput => ?_, htaken]
      -- two listeners never read the same stream
      obtain ⟨hown, hnone⟩ := hmatched.reads cid hinput
      obtain ⟨_, _, c₀, _, hc₀, _, hdst₀, _⟩ := h.reading i cid hown
      obtain rfl := Option.some.inj (hc.symm.trans hc₀)
      obtain rfl := C.addr_injective (hdst.symm.trans hdst₀)
      rw [hnone] at hreading
      cases hreading

/-- **A node moves.**  What it does is a step of its node in the cluster, after which the two
clusters stand for each other again. -/
theorem moved (hsound : s.NetworkSound) (hunanswered : s.Unanswered) {input : WireInput T}
    (hresolve : w.resolve codec i env input = some action)
    (hstep : (w.nodes i).step (C.conf i) env action = some (m, effect)) :
    ∃ input', s.resolve i input' = some action ∧
      (s.nodes i).step (C.conf i) env action = some (m, effect) ∧
      Represents codec (w.moved codec i env input m effect)
        ⟨s.setNode i m, Cluster.applyEffect i (Cluster.readInput s.conns input') effect⟩ := by
  rw [h.nodes] at hstep
  obtain ⟨input', hmatched⟩ := h.matched hsound hunanswered hresolve hstep
  have hmoves : s.Moves ⟨s.setNode i m,
      Cluster.applyEffect i (Cluster.readInput s.conns input') effect⟩
      ⟨i, env, input'⟩ action effect := by
    refine ⟨hmatched.resolved, ?_, fun j hj => s.setNode_of_ne m hj, rfl⟩
    simpa only [Cluster.setNode_self] using Node.step_sound hstep
  exact ⟨input', hmatched.resolved, hstep, h.move hmatched hmoves (s.setNode_self _ _)⟩

/-- **One step.**  What a cluster over byte streams does is a step of the cluster, or
none. -/
theorem step {ok : Node T → Action T → Prop} {l : WireLabel n T}
    (hreach : (clusterSystem C T).Reachable (Lift ok) s) (hok : OnWires codec ok w l)
    (hl : (wireSystem codec C).step w l = some w') :
    ∃ s', (clusterSystem C T).Steps (Lift ok) s s' ∧ w'.Represents codec s' := by
  rcases Wires.step_cases hl with ⟨t, _, _, ht⟩ | ⟨action, m, effect, hresolve, hstep, rfl⟩
  · exact ⟨s, .refl _ _ s, h.transfer ht⟩
  · obtain ⟨input', hresolved, hstep', hmoved⟩ := h.moved (.of_reachable hreach)
      (.of_reachable hreach) hresolve hstep
    refine ⟨_, Relation.ReflTransGen.single ⟨⟨l.node, l.env, input'⟩, ?_, ?_⟩, hmoved⟩
    · intro action' haction'
      obtain rfl := Option.some.inj (hresolved.symm.trans haction')
      exact h.nodes ▸ hok action hresolve
    · change s.step _ = _
      simp only [Cluster.step, hresolved, hstep']

end Wires.Represents

/-- A cluster over byte streams that has just been started. -/
theorem Wires.Represents.start (boot : Fin n → Env) :
    (Wires.start C T boot).Represents codec (Cluster.start C T boot) :=
  ⟨rfl, .nil, fun _ _ => nofun⟩

/-- Every run is one of the cluster. -/
theorem Wires.Represents.of_reachable {ok : Node T → Action T → Prop}
    (h : (wireSystem codec C).Reachable (OnWires codec ok) w) :
    ∃ s, (clusterSystem C T).Reachable (Lift ok) s ∧ w.Represents codec s := by
  obtain ⟨w₀, ⟨boot, rfl⟩, hsteps⟩ := h
  have hinit : (clusterSystem C T).Reachable (Lift ok) (Cluster.start C T boot) :=
    ⟨_, ⟨boot, rfl⟩, .refl _ _ _⟩
  have hstart : (wireSystem codec C).Reachable (OnWires codec ok) (Wires.start C T boot) :=
    ⟨_, ⟨boot, rfl⟩, .refl _ _ _⟩
  have hmatch : ∀ (w : Wires C T) (l : WireLabel n T) (w' : Wires C T) (s : Cluster C T),
      (wireSystem codec C).Reachable (OnWires codec ok) w →
      (clusterSystem C T).Reachable (Lift ok) s ∧ w.Represents codec s →
      OnWires codec ok w l → (wireSystem codec C).step w l = some w' →
      ∃ s', (clusterSystem C T).Steps (Lift ok) s s' ∧
        (clusterSystem C T).Reachable (Lift ok) s' ∧ w'.Represents codec s' := by
    intro w l w' s _ ⟨hreach, hR⟩ hok hl
    obtain ⟨s', hrun, hR'⟩ := hR.step hreach hok hl
    exact ⟨s', hrun, hreach.steps hrun, hR'⟩
  obtain ⟨s, _, hreach, hrepresents⟩ := hsteps.simulate hmatch hstart ⟨hinit, .start boot⟩
  exact ⟨s, hreach, hrepresents⟩

/-- **Byte streams carry messages.**  Whatever pieces the requests and the responses come
in, and wherever they are cut off: what the nodes of a cluster over byte streams come to,
they come to in a cluster that hands messages over whole, under the same condition on
their steps. -/
theorem wires_refine {ok : Node T → Action T → Prop}
    (h : (wireSystem codec C).Reachable (OnWires codec ok) w) :
    ∃ s, (clusterSystem C T).Reachable (Lift ok) s ∧ s.nodes = w.nodes := by
  obtain ⟨s, hreach, hrepresents⟩ := Wires.Represents.of_reachable h
  exact ⟨s, hreach, hrepresents.nodes.symm⟩

end Refinement

/-- Node `i` sends the next request of its loop, of `size` bytes, which leave in two pieces
and are read in two others; the response comes in one. -/
def exchangeInPieces {n : Nat} {T : Type} (now cid size : Nat) (i j : Fin n) :
    List (WireLabel n T) :=
  [⟨i, .atTime now, .act (.advance cid)⟩, ⟨i, .atTime now, .traffic (.write 10)⟩,
    ⟨j, .atTime now, .traffic (.accept cid)⟩, ⟨j, .atTime now, .traffic (.read 7)⟩,
    ⟨i, .atTime now, .traffic (.write (size - 10))⟩, ⟨i, .atTime now, .traffic .shut⟩,
    ⟨j, .atTime now, .traffic (.read (size - 7))⟩, ⟨j, .atTime now, .eof⟩,
    ⟨j, .atTime now, .handle none⟩, ⟨i, .atTime now, .recv 13⟩]

/-- Node 0 is elected by node 1. -/
def electInPieces {T : Type} : List (WireLabel 2 T) :=
  [⟨0, .atTime 200, .act .transitionCandidate⟩, ⟨0, .atTime 200, .act (.advance 0)⟩,
    ⟨0, .atTime 200, .act (.advance 0)⟩] ++ exchangeInPieces 200 0 28 0 1 ++
  [⟨0, .atTime 200, .act (.advance 1)⟩]

/-- The election in pieces is an election. -/
theorem wires_refine_electInPieces : ∃ s : Cluster duo Nat,
    (clusterSystem duo Nat).Reachable (Lift ExtendOk) s ∧ (s.nodes 0).isLeader = true := by
  obtain ⟨w, hw, hleader⟩ := System.exec_any (wireSystem (bincode (Codec.word 4)) duo)
    (OnWires (bincode (Codec.word 4)) ExtendOk) (Wires.start duo Nat fun _ => .atTime 0)
    electInPieces (P := fun w => (w.nodes 0).isLeader = true) (by decide +kernel)
  obtain ⟨s, hs, hnodes⟩ := wires_refine ⟨_, ⟨_, rfl⟩, hw⟩
  exact ⟨s, hs, by rw [hnodes]; exact hleader⟩

/-- **State machine safety over byte streams.**  However the bytes of the messages are cut
into pieces, and wherever they end: in a run whose steps all meet `ExtendOk`, with quorums
that are majorities, no two nodes deliver different entries for one index. -/
theorem wires_agree {n : Nat} {C : ClusterConfig n} {codec : MessageCodec T} {w : Wires C T}
    (hquorum : ∀ i, n < 2 * getQuorumLength (C.conf i))
    (h : (wireSystem codec C).Reachable (OnWires codec ExtendOk) w) {i j : Fin n} {k : Nat}
    {e e' : LogEntry T} (hi : (k, e) ∈ (w.nodes i).delivered)
    (hj : (k, e') ∈ (w.nodes j).delivered) : e = e' := by
  obtain ⟨s, hreach, hrepresents⟩ := Wires.Represents.of_reachable h
  obtain ⟨_, _, _, ha⟩ := Cluster.AgreementSound.of_reachable hquorum hreach
  rw [hrepresents.nodes] at hi hj
  exact (ha.delivered i k e hi).unique (ha.delivered j k e' hj)

/-- Node 0 replicates its first entry, commits it, and tells its follower. -/
def commitInPieces : List (WireLabel 2 Nat) :=
  electInPieces ++
  [⟨0, .atTime 200, .act (.appendEntry 7)⟩, ⟨0, .atTime 210, .act .sendHeartbeat⟩] ++
  exchangeInPieces 210 1 52 0 1 ++
  [⟨0, .atTime 210, .act (.advance 2)⟩, ⟨0, .atTime 210, .act (.commit [(1, 2)])⟩,
    ⟨0, .atTime 211, .act (.appendEntry 8)⟩, ⟨0, .atTime 220, .act .sendHeartbeat⟩] ++
  exchangeInPieces 220 2 52 0 1

theorem wires_agree_commitInPieces : ∃ w : Wires duo Nat,
    (0, ⟨7, 1⟩) ∈ (w.nodes 0).delivered ∧
      ∀ e, (0, e) ∈ (w.nodes 1).delivered → (⟨7, 1⟩ : LogEntry Nat) = e := by
  obtain ⟨w, hw, hmem, _⟩ := System.exec_any (wireSystem (bincode (Codec.word 4)) duo)
    (OnWires (bincode (Codec.word 4)) ExtendOk) (Wires.start duo Nat fun _ => .atTime 0)
    commitInPieces
    (P := fun w => (0, ⟨7, 1⟩) ∈ (w.nodes 0).delivered ∧ (0, ⟨7, 1⟩) ∈ (w.nodes 1).delivered)
    (by decide +kernel)
  exact ⟨w, hmem, fun e he => wires_agree (duo.lt_two_mul_getQuorumLength (by decide))
    ⟨_, ⟨_, rfl⟩, hw⟩ hmem he⟩

end Quaso
