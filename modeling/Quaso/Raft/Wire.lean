import Quaso.Raft.Node

/-!
# Bytes on a connection

A `Node` sees decoded messages.  What a peer sends are bytes, and the three
places where a node reads them treat bytes that do not decode differently: the
listener and the heartbeat loop unwrap, the election loop skips.

* `Decoders` — `bincode::deserialize` at the three types, as arbitrary partial
  functions.
* `Node.listen` — the body of the loop of `Server::start_listener`;
  `listen_of_decodes` and `listen_of_undecodable` say which steps of the node it
  is.
* `Delivery`, `Node.receive` — bytes for one of the three places.
-/

namespace Quaso

variable {T : Type}

/-- What is read from a connection: a request up to the end of the stream, a response in one
read. -/
abbrev Bytes := List UInt8

/-- `bincode::deserialize`, at the types of the three places that read. -/
structure Decoders (T : Type) where
  request : Bytes → Option (RequestPattern T)
  appendResponse : Bytes → Option AppendEntriesResponse
  voteResponse : Bytes → Option ElectionVoteResponse

/-- What the caller of `Client::send` makes of the bytes it gets. -/
def decodeAnswer {R : Type} (decode : Bytes → Option R) (bytes : Bytes) : Answer R :=
  match decode bytes with
  | some resp => .reply resp
  | none => .undecodable

/-- Bytes for one of the places that read. -/
inductive Delivery where
  /-- A request for the listener, on connection `cid`; `written` tells whether the response
  can be written. -/
  | request (cid : Nat) (bytes : Bytes) (written : Bool)
  /-- The reply to a heartbeat. -/
  | appendReply (bytes : Bytes)
  /-- The reply to a vote request. -/
  | voteReply (bytes : Bytes)

/-- The bytes are no message of the expected type; a request of no bytes is none either. -/
def Decoders.undecodable (decoders : Decoders T) : Delivery → Bool
  | .request _ bytes _ => bytes.isEmpty || (decoders.request bytes).isNone
  | .appendReply bytes => (decoders.appendResponse bytes).isNone
  | .voteReply bytes => (decoders.voteResponse bytes).isNone

/-- Whether the listener waits for a connection. -/
def Listener.isAccepting : Listener T → Bool
  | .accepting => true
  | _ => false

theorem Listener.eq_accepting {listener : Listener T} (h : listener.isAccepting = true) :
    listener = .accepting := by
  cases listener <;> first | rfl | exact absurd h (by simp [Listener.isAccepting])

namespace Node

variable (decoders : Decoders T) (conf : Config) (env : Env)

/-- The body of the loop of `Server::start_listener` once a connection is read to its end,
with the node as the handler finds it. -/
def listen (cid : Nat) (bytes : Bytes) (written : Bool) (n : Node T) : Node T × Effect T :=
  if bytes.isEmpty then (n, .quiet)
  else
    match decoders.request bytes with
    | none => ({ n with listener := .dead }, .quiet)
    | some req => n.handle conf env cid req written

/-- The node after a delivery, `none` where it does not wait for one. -/
def receive (n : Node T) : Delivery → Option (Node T)
  | .request cid bytes written =>
    if n.listener.isAccepting then some (n.listen decoders conf env cid bytes written).1 else none
  | .appendReply bytes => n.appendAnswer (decodeAnswer decoders.appendResponse bytes)
  | .voteReply bytes => n.voteAnswer conf (decodeAnswer decoders.voteResponse bytes)

/-- The node after nothing has come: no request, or no reply. -/
def receiveNothing (n : Node T) : Delivery → Option (Node T)
  | .request .. => if n.listener.isAccepting then some n else none
  | .appendReply _ => n.appendAnswer .none
  | .voteReply _ => n.voteAnswer conf .none

variable {decoders conf env} {n : Node T} {cid : Nat} {bytes : Bytes} {written : Bool}

/-- A handler overwrites where the listener stands. -/
theorem handle_listener (listener : Listener T) (req : RequestPattern T) :
    { n with listener := listener }.handle conf env cid req written
      = n.handle conf env cid req written := by
  cases req with
  | ping req => cases written <;> rfl
  | requestVote req => cases written <;> rfl
  | appendEntries req =>
    unfold handle
    cases (Server.appendEntries conf.nodeId env n.state req).response with
    | none => rfl
    | some resp => cases written <;> rfl

/-- Bytes that decode are a request accepted and handled. -/
theorem listen_of_decodes {req : RequestPattern T} (hlistener : n.listener = .accepting)
    (hlock : n.tick.holdsLock = false) (hclock : n.clock = env.now)
    (hbytes : bytes.isEmpty = false) (hdecode : decoders.request bytes = some req) :
    (n.step conf env (.accept cid req)).bind
        (fun result => result.1.step conf env (.handle written))
      = some (n.listen decoders conf env cid bytes written) := by
  have haccept : n.step conf env (.accept cid req)
      = some ({ n with listener := .handling cid req }, .quiet) := by
    unfold step
    rw [if_neg (by omega)]
    simp only [hlistener, ← hclock]
  have hhandle : { n with listener := .handling cid req }.step conf env (.handle written)
      = some (n.handle conf env cid req written) := by
    unfold step
    rw [if_neg (by simp only; omega)]
    simp only [hlock, ← hclock, Bool.false_eq_true, if_false, handle_listener]
  rw [haccept, Option.bind_some, hhandle, listen, hbytes, hdecode]
  rfl

/-- Bytes that do not decode abort the listener. -/
theorem listen_of_undecodable (hclock : n.clock = env.now) (hbytes : bytes.isEmpty = false)
    (hdecode : decoders.request bytes = none) :
    n.step conf env .abortListener = some (n.listen decoders conf env cid bytes written) := by
  unfold step listen
  rw [if_neg (by omega), hbytes, hdecode]
  simp only [← hclock, Bool.false_eq_true, if_false]

end Node
end Quaso
