import Quaso.Raft.Cluster
import Quaso.Raft.Wire

/-!
# A cluster over byte streams

`Quaso.Raft.Cluster` hands a request to a listener and a response to the loop that waits
for it.  The code moves bytes: `Client::send` writes a request, shuts its side down and
reads once, whatever has come by then; the listener accepts a connection, reads chunks
until the end of the stream, and writes its response.  Bytes arrive in order, in pieces
of any size.

* `MessageCodec` — bincode at the messages.
* `Stream` — one TCP connection.
* `Wires` — the nodes and their streams.
* `Wires.transfer` — what happens to bytes while no node moves.
* `Wires.resolve` — what a node does when bytes are complete, or at an end.
* `wireSystem` — the steps.
-/

namespace Quaso

/-- bincode at the messages.  A message decodes to itself, and no proper beginning of one
decodes. -/
structure MessageCodec (T : Type) extends Decoders T where
  /-- `none` when a request cannot be serialized. -/
  encodeRequest : RequestPattern T → Option Bytes
  encodeResponse : Response → Bytes
  request_encode : ∀ {req bytes}, encodeRequest req = some bytes → request bytes = some req
  request_short : ∀ {req bytes} {count : Nat}, encodeRequest req = some bytes →
    count < bytes.length → request (bytes.take count) = none
  request_ne_nil : ∀ {req bytes}, encodeRequest req = some bytes → bytes ≠ []
  response_ne_nil : ∀ resp, encodeResponse resp ≠ []
  append_encode : ∀ resp, appendResponse (encodeResponse (.appendEntries resp)) = some resp
  append_short : ∀ resp {count : Nat}, count < (encodeResponse (.appendEntries resp)).length →
    appendResponse ((encodeResponse (.appendEntries resp)).take count) = none
  vote_encode : ∀ resp, voteResponse (encodeResponse (.requestVote resp)) = some resp
  vote_short : ∀ resp {count : Nat}, count < (encodeResponse (.requestVote resp)).length →
    voteResponse ((encodeResponse (.requestVote resp)).take count) = none

/-! ## Streams -/

/-- A TCP connection that `Client::send` has opened, or tried to open. -/
structure Stream (n : Nat) where
  src : Fin n
  dst : Addr
  /-- What `write_all` of the sender has still to write. -/
  unsent : Bytes
  /-- On the way to the listener. -/
  up : Bytes
  /-- The sender has shut its side down, or dropped the connection. -/
  upShut : Bool
  accepted : Bool
  /-- What the listener has read. -/
  got : Bytes
  /-- What the listener has written. -/
  down : Bytes
  /-- The listener has shut its side down, or dropped the connection. -/
  downShut : Bool

variable {n : Nat} {C : ClusterConfig n} {T : Type}

/-- The connection on which `Client::send` starts to write; a request that cannot be
serialized opens none. -/
def Stream.connect (codec : MessageCodec T) (src : Fin n) (dst : Addr)
    (req : RequestPattern T) : Stream n :=
  match codec.encodeRequest req with
  | some bytes => ⟨src, dst, bytes, [], false, false, [], [], false⟩
  | none => ⟨src, dst, [], [], true, true, [], [], false⟩

/-- The nodes of a cluster and the streams opened so far. -/
structure Wires {n : Nat} (C : ClusterConfig n) (T : Type) where
  nodes : Fin n → Node T
  /-- The stream that a listener reads, if it reads one. -/
  reading : Fin n → Option Nat
  streams : List (Stream n)

/-- What happens to bytes while no node moves. -/
inductive Traffic where
  /-- `write_all` of the sender writes the next bytes. -/
  | write (count : Nat)
  /-- The sender has written its request and shuts its side down. -/
  | shut
  /-- The listener accepts stream `cid`. -/
  | accept (cid : Nat)
  /-- The listener reads the next bytes. -/
  | read (count : Nat)
  /-- The listener finds the end of a stream without a byte. -/
  | hangUp

/-- What happens at a node. -/
inductive WireInput (T : Type) where
  | traffic (t : Traffic)
  /-- A step that needs nothing from the network. -/
  | act (action : Action T)
  /-- `write_all` of the sender fails. -/
  | writeError
  /-- The listener finds the end of a stream. -/
  | eof
  /-- The handler runs; with `cut` its response fails after so many bytes. -/
  | handle (cut : Option Nat)
  /-- `read_buf` of the sender returns so many bytes. -/
  | recv (count : Nat)
  /-- The connection cannot be opened, or `read_buf` fails. -/
  | recvError

/-- A step: which node, what it reads from its clock, and what happens there. -/
structure WireLabel (n : Nat) (T : Type) where
  node : Fin n
  env : Env
  input : WireInput T

/-- What the loop that waits makes of an answer, in either of its two forms. -/
def Node.answered (m : Node T) (append : Answer AppendEntriesResponse)
    (vote : Answer ElectionVoteResponse) : Option (Action T) :=
  match m.tick with
  | .heartbeatWait .. => some (.appendAnswer append)
  | .electionWait .. => some (.voteAnswer vote)
  | _ => none

/-- The bytes that the handler has to write; none when it panics. -/
def Node.responseBytes (codec : MessageCodec T) (conf : Config) (env : Env) (m : Node T) :
    Bytes :=
  match m.step conf env (.handle true) with
  | some (_, .respond _ resp) => codec.encodeResponse resp
  | _ => []

namespace Wires

variable (codec : MessageCodec T) (w : Wires C T) (i : Fin n)

/-- The stream whose answer the tick task waits for. -/
def waiting : Option (Nat × Stream n) :=
  (w.nodes i).tick.waitsOn.bind fun cid => (w.streams[cid]?).map fun st => (cid, st)

/-- The stream that the listener reads. -/
def current : Option (Nat × Stream n) :=
  (w.reading i).bind fun cid => (w.streams[cid]?).map fun st => (cid, st)

/-- One stream changes. -/
def setStream (cid : Nat) (st : Stream n) : Wires C T :=
  { w with streams := w.streams.set cid st }

/-- The listener goes to a stream, or from one. -/
def setReading (cid : Option Nat) : Wires C T :=
  { w with reading := Function.update w.reading i cid }

/-- What happens to bytes while no node moves. -/
def transfer : Traffic → Option (Wires C T)
  | .write count =>
    w.waiting i |>.bind fun (cid, st) =>
      if st.upShut = false ∧ count ≤ st.unsent.length then
        some (w.setStream cid { st with
          unsent := st.unsent.drop count
          up := st.up ++ st.unsent.take count })
      else none
  | .shut =>
    w.waiting i |>.bind fun (cid, st) =>
      if st.upShut = false ∧ st.unsent = [] then some (w.setStream cid { st with upShut := true })
      else none
  | .accept cid =>
    w.streams[cid]? |>.bind fun st =>
      if (w.nodes i).listener.isAccepting = true ∧ w.reading i = none ∧
          st.dst = (C.conf i).listenerAddr ∧ st.accepted = false then
        some ((w.setStream cid { st with accepted := true }).setReading i (some cid))
      else none
  | .read count =>
    w.current i |>.bind fun (cid, st) =>
      if count ≤ st.up.length then
        some (w.setStream cid { st with
          up := st.up.drop count
          got := st.got ++ st.up.take count })
      else none
  | .hangUp =>
    w.current i |>.bind fun (cid, st) =>
      if st.up = [] ∧ st.upShut = true ∧ st.got = [] then
        some ((w.setStream cid { st with downShut := true }).setReading i none)
      else none

/-- The actions that need nothing from the network; a new stream takes the next free
position. -/
def isLocal : Action T → Bool
  | .accept .. | .appendAnswer _ | .voteAnswer _ | .handle _ | .abortListener => false
  | .advance cid => decide (cid = w.streams.length)
  | _ => true

/-- What the node does, if it moves. -/
def resolve (env : Env) : WireInput T → Option (Action T)
  | .traffic _ => none
  | .act action => if w.isLocal action then some action else none
  | .writeError =>
    w.waiting i |>.bind fun (_, st) =>
      if st.upShut = false then (w.nodes i).answered .writeFailed .writeFailed else none
  | .eof =>
    w.current i |>.bind fun (cid, st) =>
      if st.up = [] ∧ st.upShut = true ∧ st.got ≠ [] then
        match codec.request st.got with
        | some req => some (.accept cid req)
        | none => some .abortListener
      else none
  | .handle cut =>
    let bytes := (w.nodes i).responseBytes codec (C.conf i) env
    match cut with
    | none => some (.handle true)
    -- what `write_all` has written to its end has not failed
    | some count => if count < bytes.length ∨ bytes = [] then some (.handle false) else none
  | .recv count =>
    w.waiting i |>.bind fun (_, st) =>
      -- `read_buf` returns no bytes at the end of the stream only
      if st.upShut = true ∧ count ≤ st.down.length ∧
          (count = 0 → st.down = [] ∧ st.downShut = true) then
        (w.nodes i).answered (decodeAnswer codec.appendResponse (st.down.take count))
          (decodeAnswer codec.voteResponse (st.down.take count))
      else none
  | .recvError => (w.nodes i).answered .none .none

/-- The streams after a node has moved. -/
def carry (env : Env) (effect : Effect T) : WireInput T → List (Stream n)
  | .act _ =>
    match effect with
    | .send dst req => w.streams ++ [Stream.connect codec i dst req]
    | _ => w.streams
  | .writeError | .recvError =>
    match (w.nodes i).tick.waitsOn with
    | some cid => w.streams.modify cid fun st => { st with upShut := true }
    | none => w.streams
  | .handle cut =>
    match (w.nodes i).listener.owes with
    | some cid =>
      let bytes := (w.nodes i).responseBytes codec (C.conf i) env
      w.streams.modify cid fun st =>
        { st with down := bytes.take (cut.getD bytes.length), downShut := true }
    | none => w.streams
  | .eof =>
    match w.current i with
    | some (cid, st) =>
      -- a listener that panics drops the connection
      if (codec.request st.got).isNone then w.streams.set cid { st with downShut := true }
      else w.streams
    | none => w.streams
  | .traffic _ | .recv _ => w.streams

/-- Where the listener reads after a node has moved. -/
def readingAfter : WireInput T → Fin n → Option Nat
  | .eof => Function.update w.reading i none
  | _ => w.reading

/-- The cluster after node `i` has moved to `m`. -/
def moved (env : Env) (input : WireInput T) (m : Node T) (effect : Effect T) : Wires C T where
  nodes := fun j => if j = i then m else w.nodes j
  reading := w.readingAfter i input
  streams := w.carry codec i env effect input

/-- One step of the cluster. -/
def step (l : WireLabel n T) : Option (Wires C T) :=
  match l.input with
  | .traffic t => w.transfer l.node t
  | input =>
    match w.resolve codec l.node l.env input with
    | none => none
    | some action =>
      match (w.nodes l.node).step (C.conf l.node) l.env action with
      | none => none
      | some (m, effect) => some (w.moved codec l.node l.env input m effect)

/-- A cluster whose nodes have just been started. -/
def start (C : ClusterConfig n) (T : Type) (boot : Fin n → Env) : Wires C T where
  nodes := fun i => Node.start (C.conf i) (boot i)
  reading := fun _ => none
  streams := []

end Wires

/-- The cluster over byte streams as a transition system. -/
def wireSystem (codec : MessageCodec T) (C : ClusterConfig n) :
    System (Wires C T) (WireLabel n T) where
  Init := fun w => ∃ boot, w = Wires.start C T boot
  step := Wires.step codec

/-- A condition on the steps of a node, as one on the steps of a cluster over byte
streams. -/
def OnWires (codec : MessageCodec T) (ok : Node T → Action T → Prop) (w : Wires C T)
    (l : WireLabel n T) : Prop :=
  ∀ action, w.resolve codec l.node l.env l.input = some action → ok (w.nodes l.node) action

instance (codec : MessageCodec T) (ok : Node T → Action T → Prop) [∀ m a, Decidable (ok m a)]
    (w : Wires C T) (l : WireLabel n T) : Decidable (OnWires codec ok w l) :=
  match h : w.resolve codec l.node l.env l.input with
  | none => .isTrue fun action ha => by rw [h] at ha; cases ha
  | some action =>
    if hok : ok (w.nodes l.node) action then
      .isTrue fun a ha => by rw [h] at ha; cases ha; exact hok
    else .isFalse fun hall => hok (hall action h)

end Quaso
