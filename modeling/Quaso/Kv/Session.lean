import Quaso.Kv.Store

/-!
# A client session

One run of the CLI, `kv/src/bin/client.rs`, against one `handle_client` task: two
streams of bytes between two programs that both read with a single `read_buf` on
an empty buffer.

* `Session` — the bytes in flight, where the two programs stand, and what they
  have done so far.
* `Session.handleClient` — what the task makes of the bytes it reads.
* `Session.handleClient_eq_store` — it is what a client task of a `KVStore` does.
* `Session.step` — a `read_buf` returns a prefix of the pending bytes that is
  not empty and fits into the spare capacity of the buffer.

Other connections and the node change the flag and the storage at any time, so a
step takes them as it finds them.  What is written arrives.
-/

namespace Quaso

/-- Where the CLI stands. -/
inductive Cli where
  /-- It waits for the greeting. -/
  | greeting
  | prompt
  /-- It has sent a line and waits for the reply. -/
  | waiting (line : Text)
  | stopped
  deriving DecidableEq, Repr

/-- Where the `handle_client` task stands. -/
inductive Handler where
  | serving
  /-- It has returned. -/
  | finished
  /-- It has panicked. -/
  | aborted
  deriving DecidableEq, Repr

/-- The CLI, the task that serves it, and the bytes between them. -/
structure Session where
  /-- Written by the CLI and not read yet. -/
  toServer : Bytes
  /-- Written to the CLI and not read yet. -/
  toClient : Bytes
  handler : Handler
  cli : Cli
  /-- The lines that the CLI has sent so far. -/
  lines : List Text
  /-- The operations that the task has executed so far, each with its reply. -/
  executed : List (Operation × Text)
  /-- What the CLI has shown so far as the reply to a line. -/
  shown : List (Text × Text)

/-- What happens in a session. -/
inductive SessionEvent where
  /-- The task reads `count` bytes and answers them. -/
  | serve (count : Nat) (leader : Bool) (sl : StorageLayer)
  /-- The task reads the end of the stream. -/
  | serveEnd
  /-- The CLI gets a line at its prompt. -/
  | enter (line : Text)
  /-- The CLI reads `count` bytes. -/
  | read (count : Nat)
  /-- The CLI reads the end of the stream. -/
  | readEnd
  /-- The CLI ends: on the command `exit`, or on an error once the task has ended. -/
  | exit

/-- What `main` writes on a new connection. -/
def greeting (leader : Bool) : Text := if leader then okReply else warnReply

/-- What `handle_client` answers to an operation. -/
def reply (leader : Bool) (sl : StorageLayer) : Operation → Text
  | .get key => getReply sl key
  | _ => if leader then okReply else notLeaderReply

/-- The text that `handle_resp` of the CLI prints, `none` when it fails. -/
def handleResp (resp : Bytes) : Option Text := (fromUtf8 resp).map trim

/-- A single `read_buf` can return the first `count` of the pending bytes. -/
def readable (spare count : Nat) (pending : Bytes) : Bool :=
  decide (0 < count) && decide (count ≤ spare) && decide (count ≤ pending.length)

namespace Session

/-- A session that `main` has greeted. -/
def start (leader : Bool) : Session where
  toServer := []
  toClient := encode (greeting leader)
  handler := .serving
  cli := .greeting
  lines := []
  executed := []
  shown := []

/-- The body of the loop of `handle_client`, on the bytes it has read. -/
def handleClient (c : Session) (buf : Bytes) (leader : Bool) (sl : StorageLayer) : Session :=
  match fromUtf8 buf with
  | none => { c with handler := .aborted }
  | some cmd =>
    match Operation.parseCommand cmd with
    | none => { c with handler := .aborted }
    | some op =>
      { c with
        toClient := c.toClient ++ encode (reply leader sl op)
        executed := c.executed ++ [(op, reply leader sl op)] }

/-- One step of a session. -/
def step (spare : Nat) (c : Session) : SessionEvent → Option Session
  | .serve count leader sl =>
    if c.handler = .serving ∧ readable spare count c.toServer then
      some ({ c with toServer := c.toServer.drop count }.handleClient
        (c.toServer.take count) leader sl)
    else none
  | .serveEnd =>
    if c.handler = .serving ∧ c.toServer = [] ∧ c.cli = .stopped then
      some { c with handler := .finished }
    else none
  | .enter line =>
    if c.cli = .prompt then
      -- a line without a known keyword and a word after it is not sent
      if (validate line).isSome then
        some { c with
          toServer := c.toServer ++ encode line
          cli := .waiting line
          lines := c.lines ++ [line] }
      else some c
    else none
  | .read count =>
    if readable spare count c.toClient then
      let next := { c with toClient := c.toClient.drop count }
      match c.cli, handleResp (c.toClient.take count) with
      | .greeting, some _ => some { next with cli := .prompt }
      | .waiting line, some text =>
        some { next with cli := .prompt, shown := c.shown ++ [(line, text)] }
      | .greeting, none | .waiting _, none => some { next with cli := .stopped }
      | .prompt, _ | .stopped, _ => none
    else none
  | .readEnd =>
    if c.handler ≠ .serving ∧ c.toClient = [] then
      match c.cli with
      | .greeting => some { c with cli := .prompt }
      | .waiting line => some { c with cli := .prompt, shown := c.shown ++ [(line, [])] }
      | .prompt | .stopped => none
    else none
  | .exit =>
    if c.cli = .prompt ∨ c.handler ≠ .serving then some { c with cli := .stopped } else none

end Session

/-- Sessions whose reads have `spare` bytes of room. -/
def sessionSystem (spare : Nat) : System Session SessionEvent where
  Init := fun c => ∃ leader, c = Session.start leader
  step := fun c e => c.step spare e

@[simp] theorem sessionSystem_step (spare : Nat) (c : Session) (e : SessionEvent) :
    (sessionSystem spare).step c e = c.step spare e := rfl

/-! ## The same task in a store -/

namespace KVStore

variable {conf : Config} {s : KVStore} {client : Nat} {cmd : Text} {op : Operation}

theorem steps_of_step {l : StoreAction} {s' : KVStore} (h : s.step conf l = some s') :
    (storeSystem conf).Steps System.Always s s' :=
  Relation.ReflTransGen.single ⟨l, trivial, h⟩

/-- **A client task that nothing comes between.**  It answers a command with the `reply` of
the flag and the storage it finds. -/
theorem answers_reply (conf : Config) (htask : s.clients client = .reading)
    (hlock : s.clientTx = none) (hparse : Operation.parseCommand cmd = some op) :
    ∃ s' r, (storeSystem conf).Steps System.Always s s' ∧ s'.clients client = .answering r ∧
      r.op = op ∧ r.text = reply s.raft.isLeader s.storage op := by
  have hcommand : s.step conf (.command client cmd) = some (s.handleCommand client cmd) := by
    simp [step, htask]
  by_cases hget : ∃ key, op = .get key
  · obtain ⟨key, rfl⟩ := hget
    have hread : s.handleCommand client cmd = s.setClient client (.getting key) := by
      simp [handleCommand, hparse]
    have hlookup : (s.setClient client (.getting key)).step conf (.lookup client)
        = some ((s.setClient client (.getting key)).setClient client
          (.answering ⟨.get key, getReply s.storage key, none⟩)) := by
      simp [step, setClient]
    rw [hread] at hcommand
    refine ⟨_, ⟨.get key, getReply s.storage key, none⟩,
      (steps_of_step hcommand).trans (steps_of_step hlookup), ?_, rfl, rfl⟩
    simp [setClient]
  · have hreply : reply s.raft.isLeader s.storage op
        = if s.raft.isLeader then okReply else notLeaderReply := by
      cases op with
      | get key => exact absurd ⟨key, rfl⟩ hget
      | _ => rfl
    have hwrite : s.handleCommand client cmd
        = if s.raft.isLeader then s.setClient client (.queueing op)
          else s.setClient client (.answering ⟨op, notLeaderReply, none⟩) := by
      cases op with
      | get key => exact absurd ⟨key, rfl⟩ hget
      | _ => simp [handleCommand, hparse]
    cases hflag : s.raft.isLeader with
    | false =>
      rw [hwrite, hflag] at hcommand
      refine ⟨_, ⟨op, notLeaderReply, none⟩, steps_of_step hcommand, ?_, rfl, ?_⟩
      · simp [setClient]
      · rw [← hflag, hreply, hflag]
        rfl
    | true =>
      rw [hwrite, hflag] at hcommand
      have hput : ∃ s', (s.setClient client (.queueing op)).step conf (.put client) = some s' ∧
          s'.clients client = .answering ⟨op, okReply, some s.put.length⟩ := by
        simp [step, setClient, hlock]
      obtain ⟨s', hput, hclient⟩ := hput
      refine ⟨s', ⟨op, okReply, some s.put.length⟩,
        (steps_of_step hcommand).trans (steps_of_step hput), hclient, rfl, ?_⟩
      rw [← hflag, hreply, hflag]
      rfl

end KVStore

/-- What a session executes and answers is what the task of a store does with the same
bytes. -/
theorem Session.handleClient_eq_store {conf : Config} {s : KVStore} {client : Nat} {buf : Bytes}
    {cmd : Text} {op : Operation} (c : Session) (hbuf : fromUtf8 buf = some cmd)
    (hparse : Operation.parseCommand cmd = some op) (htask : s.clients client = .reading)
    (hlock : s.clientTx = none) :
    ∃ s' r, (storeSystem conf).Steps System.Always s s' ∧ s'.clients client = .answering r ∧
      c.handleClient buf s.raft.isLeader s.storage = { c with
        toClient := c.toClient ++ encode r.text
        executed := c.executed ++ [(r.op, r.text)] } := by
  obtain ⟨s', r, hsteps, hclient, hop, htext⟩ :=
    KVStore.answers_reply conf htask hlock hparse
  refine ⟨s', r, hsteps, hclient, ?_⟩
  rw [hop, htext]
  simp [handleClient, hbuf, hparse]

/-- Both panic on the same commands. -/
theorem Session.handleClient_panics {conf : Config} {s : KVStore} {client : Nat} {buf : Bytes}
    {cmd : Text} (c : Session) (leader : Bool) (sl : StorageLayer)
    (hbuf : fromUtf8 buf = some cmd) (hparse : Operation.parseCommand cmd = none)
    (htask : s.clients client = .reading) :
    s.step conf (.command client cmd) = some (s.setClient client .closed) ∧
      (c.handleClient buf leader sl).handler = .aborted := by
  constructor
  · simp [KVStore.step, KVStore.handleCommand, htask, hparse]
  · simp [handleClient, hbuf, hparse]

end Quaso
