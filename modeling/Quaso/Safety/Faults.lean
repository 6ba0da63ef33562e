import Quaso.Handlers.Outcome
import Quaso.Raft.Wire
import Quaso.Safety.Flag

/-!
# Bytes that are no message

What the three places that read bytes do with bytes they cannot use.

* `Node.Alive` — neither task has panicked.
* `Node.handle_alive_iff` — a handled request keeps the node alive exactly when
  it does not run into an index error and its response can be written.
* `Contained` — a delivery leaves the node alive, and counts as nothing when it
  does not decode.
* `contained_iff` — the deliveries that are contained: the election loop contains
  all, the heartbeat loop those that decode, and the listener no bytes at all or
  a request whose handler ends well.
-/

namespace Quaso

variable {T : Type}

/-- Neither task has panicked. -/
structure Node.Alive (n : Node T) : Prop where
  tick : n.tick ≠ .dead
  listener : n.listener ≠ .dead

/-- The handler of a request runs into an index error. -/
def Server.panics (state : State T) : RequestPattern T → Bool
  | .appendEntries req => underflows state req || overruns state req
  | _ => false

/-- The place a delivery is for waits for it. -/
def Node.Awaits (n : Node T) : Delivery → Prop
  | .request .. => n.listener = .accepting
  | .appendReply _ => ∃ conn logSize cid conns, n.tick = .heartbeatWait conn logSize cid conns
  | .voteReply _ => ∃ req conn cid conns, n.tick = .electionWait req conn cid conns

/-- A delivery does no harm: both tasks go on, and bytes that do not decode are taken as
nothing and leave the state alone. -/
def Contained (decoders : Decoders T) (conf : Config) (env : Env) (n : Node T) (d : Delivery) :
    Prop :=
  ∃ n', n.receive decoders conf env d = some n' ∧ n'.Alive ∧
    (decoders.undecodable d = true →
      n.receiveNothing conf d = some n' ∧ n'.state = n.state ∧ n'.delivered = n.delivered)

/-- The deliveries that the code contains. -/
def Harmless (decoders : Decoders T) (n : Node T) : Delivery → Prop
  | .request _ bytes written => bytes = [] ∨ ∃ req, decoders.request bytes = some req ∧
      Server.panics n.state req = false ∧ written = true
  | .appendReply bytes => (decoders.appendResponse bytes).isSome = true
  | .voteReply _ => True

variable {decoders : Decoders T} {conf : Config} {env : Env} {n : Node T} {d : Delivery}

/-- A response that is written lets the listener go on. -/
theorem Node.respond_alive_iff {cid : Nat} {written : Bool} {resp : Response}
    (htick : n.tick ≠ .dead) : (n.respond cid written resp).1.Alive ↔ written = true := by
  unfold respond
  cases written with
  | true => exact iff_of_true ⟨htick, by simp⟩ rfl
  | false => exact iff_of_false (fun h => h.listener rfl) Bool.false_ne_true

/-- **A handled request.**  The listener goes on exactly when the handler does not panic
and the response can be written. -/
theorem Node.handle_alive_iff {cid : Nat} {req : RequestPattern T} {written : Bool}
    (htick : n.tick ≠ .dead) : (n.handle conf env cid req written).1.Alive ↔
      Server.panics n.state req = false ∧ written = true := by
  cases req with
  | ping req => exact Iff.trans (respond_alive_iff htick) (by simp [Server.panics])
  | requestVote req => exact Iff.trans (respond_alive_iff htick) (by simp [Server.panics])
  | appendEntries req =>
    have hpanics : Server.panics n.state (.appendEntries req) = true ↔
        (Server.appendEntries conf.nodeId env n.state req).response = none := by
      rw [Server.response_eq_none_iff, Server.panics, Bool.or_eq_true]
    unfold handle
    cases hresp : (Server.appendEntries conf.nodeId env n.state req).response with
    | none =>
      simp only [hresp, hpanics.2 hresp]
      exact iff_of_false (fun h => h.listener rfl) (by simp)
    | some resp =>
      have hfine : Server.panics n.state (.appendEntries req) = false := by
        rw [← Bool.not_eq_true, hpanics, hresp]
        simp
      simp only [hresp, hfine, true_and]
      exact respond_alive_iff htick

/-- **Which deliveries are contained.**  While both tasks run and the place a delivery is for
waits for it, the node takes undecodable bytes as nothing and goes on if and only if the
bytes are for the election loop, decode for the heartbeat loop, or are for the listener no
bytes at all or a request that its handler answers. -/
theorem contained_iff (halive : n.Alive) (hawaits : n.Awaits d) :
    Contained decoders conf env n d ↔ Harmless decoders n d := by
  cases d with
  | request cid bytes written =>
    have hlistener : n.listener = .accepting := hawaits
    simp only [Contained, Harmless, Node.receive, Node.receiveNothing, hlistener,
      Listener.isAccepting, if_true, Node.listen]
    cases bytes with
    | nil => simp [halive]
    | cons b bytes =>
      cases hdecode : decoders.request (b :: bytes) with
      | none => simpa using fun h => absurd rfl h.listener
      | some req => simpa [hdecode, Decoders.undecodable] using Node.handle_alive_iff halive.tick
  | appendReply bytes =>
    obtain ⟨conn, logSize, cid, conns, htick⟩ := hawaits
    simp only [Contained, Harmless, Node.receive, Node.receiveNothing, Node.appendAnswer, htick,
      decodeAnswer]
    cases hdecode : decoders.appendResponse bytes with
    | none => simpa using fun h => absurd rfl h.tick
    | some resp => simpa [Decoders.undecodable, hdecode] using ⟨by simp, halive.listener⟩
  | voteReply bytes =>
    obtain ⟨req, conn, cid, conns, htick⟩ := hawaits
    simp only [Contained, Harmless, Node.receive, Node.receiveNothing, Node.voteAnswer, htick,
      decodeAnswer, iff_true]
    cases hdecode : decoders.voteResponse bytes with
    | none => simpa using ⟨by simp, halive.listener⟩
    | some resp =>
      simp only [Decoders.undecodable, hdecode, Option.isNone_some, Bool.false_eq_true,
        false_imp_iff, and_true]
      cases hcount : Raft.countVote conf n.state resp with
      | next state | won state => exact ⟨_, rfl, by simp, halive.listener⟩
      | denied state term => exact ⟨_, rfl, by simp, halive.listener⟩

/-- Decoders that no bytes pass. -/
def Decoders.refusing : Decoders Nat := ⟨fun _ => none, fun _ => none, fun _ => none⟩

/-- A candidate that waits for the vote of its peer takes a closed connection for no reply. -/
theorem contained_closedVote : Contained Decoders.refusing pairConf (.atTime 0)
    { (Node.start pairConf (.atTime 0)) with tick := .electionWait ⟨1, 1, 0, 0⟩ "b" 0 [] }
    (.voteReply []) := by
  refine (contained_iff ⟨by simp, by simp [Node.start]⟩ ?_).2 trivial
  exact ⟨_, _, _, _, rfl⟩

/-- A leader whose peer closes the connection of a heartbeat loses its tick task. -/
theorem not_contained : ¬ ∀ (decoders : Decoders Nat) (conf : Config) (env : Env) (n : Node Nat)
    (d : Delivery), (nodeSystem conf Nat).Reachable System.Always n → n.Alive → n.Awaits d →
      Contained decoders conf env n d := by
  intro hall
  obtain ⟨n, hn, hwait, hcampaign, hlistener⟩ := System.exec_any (nodeSystem pairConf Nat)
    System.Always (Node.start pairConf (.atTime 0))
    (wonElection ++ [(.atTime 202, .sendHeartbeat), (.atTime 202, .advance 1)])
    (P := fun n => n.tick.waitsOn = some 1 ∧ n.tick.campaign = none ∧
      n.listener.isAccepting = true) (by decide +kernel)
  obtain ⟨conn, logSize, cid, conns, htick⟩ : ∃ conn logSize cid conns,
      n.tick = .heartbeatWait conn logSize cid conns := by
    cases htick : n.tick with
    | heartbeatWait conn logSize cid conns => exact ⟨conn, logSize, cid, conns, rfl⟩
    | electionWait => simp [htick, Tick.campaign] at hcampaign
    | _ => simp [htick, Tick.waitsOn] at hwait
  obtain ⟨n', hreceive, halive, _⟩ := hall Decoders.refusing pairConf (.atTime 202) n
    (.appendReply []) ⟨_, ⟨_, rfl⟩, hn⟩
    ⟨by simp [htick], by simp [Listener.eq_accepting hlistener]⟩ ⟨conn, logSize, cid, conns, htick⟩
  simp only [Node.receive, Node.appendAnswer, htick, decodeAnswer, Decoders.refusing,
    Option.some.injEq] at hreceive
  exact halive.tick (by rw [← hreceive])

end Quaso
