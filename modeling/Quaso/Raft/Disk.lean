import Quaso.Raft.Transitions
import Quaso.Raft.Wire

/-!
# The file a node restarts from

`PersistentState::init_state` and `PersistentState::persist` with the file they
read and write, and a node on a machine that can lose it at any moment.

* `DiskCodec` — bincode at the persistent state; decoding inverts encoding.
* `PersistentState.initState` — what a start finds in the file.
* `Saving`, `Saving.step` — `persist` cut at its file operations: remove, create,
  write any number of bytes, finish.
* `Machine` — a node, its file, and what it has served over all its lives.
* `machineSystem` — its steps.  While `persist` is under way the tick task holds the
  state lock, so only the listener can read a request meanwhile.
* `Machine.Step` — the same by what happens; `Machine.step_sound`.
* `numberCodec` — a codec for logs of numbers, in unary; `DiskCodec.translate` makes one for
  other commands of it.
-/

namespace Quaso

variable {T : Type}

/-- bincode at `PersistentState<T>`. -/
structure DiskCodec (T : Type) where
  encode : PersistentState T → Bytes
  decode : Bytes → Option (PersistentState T)
  /-- Decoding inverts encoding. -/
  decode_encode : ∀ p, decode (encode p) = some p

/-- The file at `persist_path`, if there is one. -/
abbrev File := Option Bytes

/-- The state that `PersistentState::init_state` returns; `none` when it panics on bytes
that do not decode. -/
def PersistentState.initState (codec : DiskCodec T) : File → Option (PersistentState T)
  | some bytes => codec.decode bytes
  | none => some .fresh

/-- The file that `PersistentState::init_state` leaves: without one it writes the fresh
state, if the file can be created. -/
def PersistentState.initFile (codec : DiskCodec T) (created : Bool) : File → File
  | some bytes => some bytes
  | none => if created then some (codec.encode .fresh) else none

/-! ## Saving -/

/-- Where `PersistentState::persist` stands; `image` are the serialized bytes, `rest` those
that are not in the file yet. -/
inductive Saving where
  /-- Before `remove_file`. -/
  | remove (image : Bytes)
  /-- Before `File::create`. -/
  | create (image : Bytes)
  /-- In `write_all` or `flush`. -/
  | write (rest : Bytes)
  /-- Before the return, with the file written or given up. -/
  | done
  deriving DecidableEq, Repr

/-- A file operation; the Boolean tells whether it succeeds. -/
inductive FileOp where
  | remove (success : Bool)
  | create (success : Bool)
  /-- The next bytes reach the file. -/
  | write (count : Nat)
  /-- No more bytes are written: all are, or writing has failed. -/
  | finish
  deriving DecidableEq, Repr

/-- One file operation of `persist`. -/
def Saving.step (file : File) : Saving → FileOp → Option (File × Saving)
  | .remove image, .remove success => some (if success then none else file, .create image)
  | .create image, .create success =>
    -- a file that cannot be created is a warning
    if success then some (some [], .write image) else some (file, .done)
  | .write rest, .write count =>
    some (file.map fun bytes => bytes ++ rest.take count, .write (rest.drop count))
  | .write _, .finish => some (file, .done)
  | _, _ => none

/-! ## A node on a machine -/

/-- A node that has just been started from a persistent state. -/
def Node.boot (conf : Config) (env : Env) (persistent : PersistentState T) : Node T :=
  { Node.start conf env with state := State.new env conf.connections persistent }

/-- What a handler made of a vote or append request. -/
structure Served (T : Type) where
  req : RequestPattern T
  /-- The response, if it could be written. -/
  reply : Option Response
  /-- The entries of an append request that was accepted. -/
  stored : List (LogEntry T)
  /-- The node's term after it. -/
  term : NodeTerm
  /-- The node's vote after it. -/
  votedFor : Option NodeId
  /-- The length of the node's log after it. -/
  logLength : Nat

/-- A node, the file it is restarted from, and the requests it has served. -/
structure Machine (T : Type) where
  /-- The running node, `none` when the process is down. -/
  node : Option (Node T)
  /-- The record that `persist` writes and where it stands, if the tick task is in it. -/
  saving : Option (PersistentState T × Saving)
  file : File
  /-- The record that the node was started from or that was last written to the end, the
  fresh one from the moment the file is removed, `none` while the file is half written. -/
  image : Option (PersistentState T)
  /-- The vote and append requests served in all its lives. -/
  served : List (Served T)
  /-- How many of them were served when the file was last written to its end; `0` from the
  moment it is touched. -/
  saved : Nat

/-- What happens on a machine. -/
inductive Event (T : Type) where
  /-- The node makes a step. -/
  | act (env : Env) (action : Action T)
  /-- The tick task calls `persist`. -/
  | beginSave (env : Env)
  | fileOp (op : FileOp)
  /-- `persist` returns to `try_persist_state`. -/
  | endSave (env : Env)
  /-- The process dies. -/
  | crash
  /-- The process starts; `created` tells whether a missing file could be created. -/
  | boot (env : Env) (created : Bool)
  /-- The process dies at its start, while it writes a missing file. -/
  | tornBoot (count : Nat)

/-- The response that an effect writes. -/
def Effect.response : Effect T → Option Response
  | .respond _ resp => some resp
  | _ => none

/-- The entries that the handler of a request puts into the log. -/
def Server.stores (state : State T) : RequestPattern T → List (LogEntry T)
  | .appendEntries req => if accepts state req then req.entries else []
  | _ => []

/-- What a step that ends in `n'` serves. -/
def Node.serves (n n' : Node T) (action : Action T) (effect : Effect T) : List (Served T) :=
  match n.handled action with
  | some (.requestVote req) =>
    [⟨.requestVote req, effect.response, [], n'.state.nodeTerm, n'.state.votedFor,
      n'.state.log.length⟩]
  | some (.appendEntries req) =>
    [⟨.appendEntries req, effect.response, Server.stores n.state (.appendEntries req),
      n'.state.nodeTerm, n'.state.votedFor, n'.state.log.length⟩]
  | _ => []

/-- The listener reads, without the state lock. -/
def Action.onlyReads : Action T → Bool
  | .accept .. | .abortListener => true
  | _ => false

/-- A call of `try_persist_state` that gets to `persist`, with the image it writes. -/
def Node.savesImage (env : Env) (n : Node T) : Option (PersistentState T) :=
  if n.tick.isIdle && decide (n.clock ≤ env.now) && decide (n.state.persistTimeout < env.now) then
    n.state.toPersistentState.persist n.state.commitedIndex
  else none

/-- The steps a node makes by itself: all but a call of `persist`, and while that is under
way only those that need no lock. -/
def Machine.mayAct (m : Machine T) (n : Node T) (env : Env) (action : Action T) : Bool :=
  match m.saving, action with
  | some _, action => action.onlyReads
  | none, .tryPersist => (n.savesImage env).isNone
  | none, _ => true

/-- A machine after a file operation of the call of `persist` that writes `image`. -/
def Machine.afterFileOp (m : Machine T) (image : PersistentState T) (file : File)
    (saving : Saving) : Machine T :=
  let m' := { m with file := file, saving := some (image, saving) }
  if saving = .write [] then { m' with image := some image, saved := m.served.length }
  else if file = m.file then m'
  else { m' with image := if file.isNone then some .fresh else none, saved := 0 }

/-- A file operation is about the file and the call. -/
theorem Machine.afterFileOp_fields (m : Machine T) (image : PersistentState T) (file : File)
    (saving : Saving) : (m.afterFileOp image file saving).node = m.node ∧
      (m.afterFileOp image file saving).file = file ∧
      (m.afterFileOp image file saving).saving = some (image, saving) := by
  unfold afterFileOp
  split
  · exact ⟨rfl, rfl, rfl⟩
  · split
    · exact ⟨rfl, rfl, rfl⟩
    · exact ⟨rfl, rfl, rfl⟩

/-- One step of a machine. -/
def Machine.step (codec : DiskCodec T) (conf : Config) (m : Machine T) :
    Event T → Option (Machine T)
  | .act env action =>
    match m.node with
    | some n =>
      if m.mayAct n env action then
        (n.step conf env action).map fun (n', effect) =>
          { m with node := some n', served := m.served ++ n.serves n' action effect }
      else none
    | none => none
  | .beginSave env =>
    match m.node, m.saving with
    | some n, none =>
      (n.savesImage env).map fun image =>
        { m with
          node := some { n with clock := env.now }
          saving := some (image, .remove (codec.encode image)) }
    | _, _ => none
  | .fileOp op =>
    match m.saving with
    | some (image, saving) =>
      (saving.step m.file op).map fun (file, saving') => m.afterFileOp image file saving'
    | none => none
  | .endSave env =>
    match m.node, m.saving with
    | some n, some (_, .done) =>
      (n.step conf env .tryPersist).map fun (n', _) =>
        { m with node := some n', saving := none }
    | _, _ => none
  | .crash =>
    match m.node with
    | some _ => some { m with node := none, saving := none }
    | none => none
  | .boot env created =>
    match m.node with
    | none =>
      (PersistentState.initState codec m.file).map fun persistent =>
        { m with
          node := some (Node.boot conf env persistent)
          file := PersistentState.initFile codec created m.file
          image := some persistent }
    | some _ => none
  | .tornBoot count =>
    match m.node, m.file with
    | none, none =>
      some { m with file := some ((codec.encode .fresh).take count), image := none, saved := 0 }
    | _, _ => none

/-- Machines with a node, from any file. -/
def machineSystem (codec : DiskCodec T) (conf : Config) : System (Machine T) (Event T) where
  Init := fun m => ∃ file, m = ⟨none, none, file, none, [], 0⟩
  step := fun m e => m.step codec conf e

/-- One step of a machine, by what happens. -/
inductive Machine.Step (codec : DiskCodec T) (conf : Config) (m : Machine T) :
    Event T → Machine T → Prop
  | act {n n' : Node T} {effect : Effect T} (env : Env) (action : Action T)
      (hnode : m.node = some n) (hmay : m.mayAct n env action = true)
      (hstep : n.step conf env action = some (n', effect)) :
      Step codec conf m (.act env action)
        { m with node := some n', served := m.served ++ n.serves n' action effect }
  | beginSave {n : Node T} {image : PersistentState T} (env : Env) (hnode : m.node = some n)
      (hsaving : m.saving = none) (himage : n.savesImage env = some image) :
      Step codec conf m (.beginSave env)
        { m with
          node := some { n with clock := env.now }
          saving := some (image, .remove (codec.encode image)) }
  | fileOp {image : PersistentState T} {saving saving' : Saving} {file : File} (op : FileOp)
      (hsaving : m.saving = some (image, saving))
      (hop : saving.step m.file op = some (file, saving')) :
      Step codec conf m (.fileOp op) (m.afterFileOp image file saving')
  | endSave {n n' : Node T} {effect : Effect T} {image : PersistentState T} (env : Env)
      (hnode : m.node = some n) (hsaving : m.saving = some (image, .done))
      (hstep : n.step conf env .tryPersist = some (n', effect)) :
      Step codec conf m (.endSave env) { m with node := some n', saving := none }
  | crash {n : Node T} (hnode : m.node = some n) :
      Step codec conf m .crash { m with node := none, saving := none }
  | boot {p : PersistentState T} (env : Env) (created : Bool) (hnode : m.node = none)
      (hloads : PersistentState.initState codec m.file = some p) :
      Step codec conf m (.boot env created)
        { m with
          node := some (Node.boot conf env p)
          file := PersistentState.initFile codec created m.file
          image := some p }
  | tornBoot (count : Nat) (hnode : m.node = none) (hfile : m.file = none) :
      Step codec conf m (.tornBoot count)
        { m with file := some ((codec.encode .fresh).take count), image := none, saved := 0 }

/-- **What a step of a machine can be.** -/
theorem Machine.step_sound {codec : DiskCodec T} {conf : Config} {m m' : Machine T} {e : Event T}
    (h : m.step codec conf e = some m') : Machine.Step codec conf m e m' := by
  cases e with
  | act env action =>
    simp only [Machine.step] at h
    split at h
    · rename_i n hnode
      obtain ⟨hmay, h⟩ := Option.ite_none_right_eq_some.1 h
      obtain ⟨⟨n', effect⟩, hstep, rfl⟩ := Option.map_eq_some_iff.1 h
      exact .act env action hnode hmay hstep
    · cases h
  | beginSave env =>
    simp only [Machine.step] at h
    split at h
    · rename_i n hnode hsaving
      obtain ⟨image, himage, rfl⟩ := Option.map_eq_some_iff.1 h
      exact .beginSave env hnode hsaving himage
    · cases h
  | fileOp op =>
    simp only [Machine.step] at h
    split at h
    · rename_i image saving hsaving
      obtain ⟨⟨file, saving'⟩, hop, rfl⟩ := Option.map_eq_some_iff.1 h
      exact .fileOp op hsaving hop
    · cases h
  | endSave env =>
    simp only [Machine.step] at h
    split at h
    · rename_i n image hnode hsaving
      obtain ⟨⟨n', effect⟩, hstep, rfl⟩ := Option.map_eq_some_iff.1 h
      exact .endSave env hnode hsaving hstep
    · cases h
  | crash =>
    simp only [Machine.step] at h
    split at h
    · rename_i n hnode
      obtain rfl := Option.some.inj h
      exact .crash hnode
    · cases h
  | boot env created =>
    simp only [Machine.step] at h
    split at h
    · rename_i hnode
      obtain ⟨p, hloads, rfl⟩ := Option.map_eq_some_iff.1 h
      exact .boot env created hnode hloads
    · cases h
  | tornBoot count =>
    simp only [Machine.step] at h
    split at h
    · rename_i hnode hfile
      obtain rfl := Option.some.inj h
      exact .tornBoot count hnode hfile
    · cases h

/-! ## A codec -/

/-- The numbers that runs of ones spell, each ended by a zero. -/
def readNumbers : Nat → Bytes → List Nat
  | _, [] => []
  | n, byte :: bytes => if byte = 0 then n :: readNumbers 0 bytes else readNumbers (n + 1) bytes

def writeNumbers (numbers : List Nat) : Bytes :=
  numbers.flatMap fun n => List.replicate n 1 ++ [0]

theorem readNumbers_replicate (k n : Nat) (bytes : Bytes) :
    readNumbers k (List.replicate n 1 ++ 0 :: bytes) = (k + n) :: readNumbers 0 bytes := by
  induction n generalizing k with
  | zero => simp [readNumbers]
  | succ n ih =>
    rw [List.replicate_succ, List.cons_append, readNumbers, if_neg (by decide), ih]
    congr 1
    omega

theorem readNumbers_writeNumbers (numbers : List Nat) :
    readNumbers 0 (writeNumbers numbers) = numbers := by
  induction numbers with
  | nil => rfl
  | cons n numbers ih =>
    have hcons : writeNumbers (n :: numbers)
        = List.replicate n 1 ++ 0 :: writeNumbers numbers := by simp [writeNumbers]
    rw [hcons, readNumbers_replicate, ih, Nat.zero_add]

/-- Log entries from pairs of a value and a term. -/
def readEntries : List Nat → Option (List (LogEntry Nat))
  | [] => some []
  | value :: term :: rest => (readEntries rest).map (⟨value, Fin.ofNat _ term⟩ :: ·)
  | _ => none

theorem readEntries_flatMap (log : List (LogEntry Nat)) :
    readEntries (log.flatMap fun entry => [entry.value, entry.term.val]) = some log := by
  induction log with
  | nil => rfl
  | cons entry log ih => simp [readEntries, ih]

/-- A codec for logs of numbers. -/
def numberCodec : DiskCodec Nat where
  encode p := writeNumbers (p.nodeTerm.val :: (p.votedFor.elim 0 fun id => id.toNat + 1) ::
    p.log.flatMap fun entry => [entry.value, entry.term.val])
  decode bytes :=
    match readNumbers 0 bytes with
    | term :: vote :: rest => (readEntries rest).map fun log =>
      ⟨Fin.ofNat _ term, if vote = 0 then none else some (UInt64.ofNat (vote - 1)), log⟩
    | _ => none
  decode_encode p := by
    obtain ⟨term, vote, log⟩ := p
    simp only [readNumbers_writeNumbers, readEntries_flatMap]
    cases vote <;> simp

/-- A record with other commands in its log. -/
def PersistentState.mapValues {S : Type} (f : T → S) (p : PersistentState T) :
    PersistentState S :=
  { p with log := p.log.map fun entry => ⟨f entry.value, entry.term⟩ }

/-- A codec for commands that can be translated into those of another codec. -/
def DiskCodec.translate {S : Type} (codec : DiskCodec S) (f : T → S) (g : S → T)
    (hback : ∀ x, g (f x) = x) : DiskCodec T where
  encode p := codec.encode (p.mapValues f)
  decode bytes := (codec.decode bytes).map (PersistentState.mapValues g)
  decode_encode p := by
    rw [codec.decode_encode]
    simp [PersistentState.mapValues, Function.comp_def, hback]

end Quaso
