import Mathlib.Logic.Equiv.List
import Quaso.Lib.Registers
import Quaso.Kv.Store
import Quaso.Safety.CrashPoint
import Quaso.Safety.Delivery

/-!
# The map of a log

The storage is in no file.  It is built from the entries that the node delivers, and
after a restart it is built again, from the part of the log that `persist` has kept.

* `LastSet` — the value that a log gives to a key.
* `StorageLayer.replay` — entries applied to an empty storage, and
  `StorageLayer.get_replay_iff`, what is found there.
* `replay_rebuilds` — however the commit index has advanced, the entries delivered
  make the map of the log below it; and so they do after a restart.
* `KVStore.drained` — a running store that has applied all that was delivered has this
  map.
-/

namespace Quaso

/-! ## The map of a log -/

/-- The last `Set` of the key gives it the value, and no `Delete` of the key follows. -/
def LastSet (log : List (LogEntry Operation)) (key value : Text) : Prop :=
  ∃ before entry after, log = before ++ entry :: after ∧ entry.value = .set key value ∧
    ∀ later ∈ after, later.value ≠ .delete key ∧ ∀ value', later.value ≠ .set key value'

/-- What an operation leaves at a key, if it is about the key. -/
def Operation.effect (op : Operation) (key : Text) : Option (Option Text) :=
  match op with
  | .set key' value => if key' = key then some (some value) else none
  | .delete key' => if key' = key then some none else none
  | .get _ | .invalid => none

theorem Operation.effect_eq_some_iff {op : Operation} {key value : Text} :
    op.effect key = some (some value) ↔ op = .set key value := by
  cases op <;> simp [effect]

theorem Operation.effect_eq_none_iff {op : Operation} {key : Text} :
    op.effect key = none ↔ op ≠ .delete key ∧ ∀ value, op ≠ .set key value := by
  cases op <;> simp [effect]

namespace StorageLayer

/-- `KVStore::apply`, key by key. -/
theorem updates_apply :
    Registers.Updates get apply fun (entry : LogEntry Operation) key => entry.value.effect key := by
  rintro sl ⟨op, term⟩ key
  cases op with
  | set key' value =>
    change (sl.set key' value).get key = _
    simp only [get_set, Operation.effect]
    split <;> rfl
  | delete key' =>
    change (sl.delete key').get key = _
    simp only [get_delete, Operation.effect]
    split <;> rfl
  | get key' => rfl
  | invalid => rfl

/-- Entries applied to an empty storage, one after the other. -/
def replay (entries : List (LogEntry Operation)) : StorageLayer := entries.foldl apply initDefault

/-- **The storage has the map of the log.** -/
theorem get_replay_iff {entries : List (LogEntry Operation)} {key value : Text} :
    (replay entries).get key = some value ↔ LastSet entries key value := by
  have hempty : initDefault.get key ≠ some value := by simp [get, initDefault]
  rw [replay, updates_apply.read_foldl]
  simp only [hempty, and_false, or_false, Registers.LastAbout, LastSet,
    Operation.effect_eq_some_iff, Operation.effect_eq_none_iff]

end StorageLayer

/-! ## Operations in a file -/

/-- A number for an operation. -/
def Operation.toNumber (op : Operation) : Nat :=
  let words : Nat × List Text :=
    match op with
    | .set key value => (0, [key, value])
    | .get key => (1, [key])
    | .delete key => (2, [key])
    | .invalid => (3, [])
  Encodable.encode (words.1, words.2.map fun word => word.map Char.toNat)

/-- The operation of a number. -/
def Operation.ofNumber (number : Nat) : Operation :=
  let words : Option (Nat × List (List Nat)) := Encodable.decode number
  match words.map fun words => (words.1, words.2.map fun word => word.map Char.ofNat) with
  | some (0, [key, value]) => .set key value
  | some (1, [key]) => .get key
  | some (2, [key]) => .delete key
  | _ => .invalid

theorem Operation.ofNumber_toNumber (op : Operation) : ofNumber op.toNumber = op := by
  cases op <;> simp [ofNumber, toNumber, Function.comp_def]

/-- A codec for logs of operations. -/
def operationCodec : DiskCodec Operation :=
  numberCodec.translate Operation.toNumber Operation.ofNumber Operation.ofNumber_toNumber

/-! ## However the commit index has advanced -/

/-- A run that commits up to `c` over a log that keeps what is below sends this part of the
log. -/
theorem sent_eq_take {T : Type} {conf : Config} {n₀ : Node T} {o : Outbox T} {c : Nat}
    (hstart : n₀.state.commitedIndex = 0)
    (h : (outboxSystem conf T).Steps (KeepsBelow conf c) ⟨n₀, []⟩ o)
    (hc : o.node.state.commitedIndex = c) :
    c ≤ o.node.state.log.length ∧ o.sent.map Prod.snd = o.node.state.log.take c := by
  have hsent := (SentLog.start hstart).steps h hc.le
  exact ⟨hc ▸ hsent.inside, hc ▸ hsent.sent⟩

/-- After a restart from the record for `c` the log keeps this record's entries below `c`. -/
theorem take_eq_of_boot {T : Type} {conf : Config} {env : Env} {image : PersistentState T}
    {o : Outbox T} {c : Nat} (hlen : image.log.length = c)
    (h : (outboxSystem conf T).Steps (KeepsBelow conf c) ⟨Node.boot conf env image, []⟩ o) :
    o.node.state.log.take c = image.log := by
  have hkept : image.log.take c <+: o.node.state.log := keepsBelow_steps h
  rw [List.take_of_length_le hlen.le, List.prefix_iff_eq_take, hlen] at hkept
  exact hkept.symm

/-- **Replay is incremental application.**  A node that has committed nothing advances its
commit index to `c`, in whatever steps and in whatever roles, while its log keeps what is
below `c`.  The entries delivered give each key the value of its last `Set` below `c`
that no `Delete` follows, and no other key is present.  And if `persist` writes the file
with this commit index, a node that starts from it and commits up to `c` again, in
whatever steps, rebuilds the same storage. -/
theorem replay_rebuilds (codec : DiskCodec Operation) {conf : Config} {n₀ : Node Operation}
    {o : Outbox Operation} {c : Nat} (hstart : n₀.state.commitedIndex = 0)
    (h : (outboxSystem conf Operation).Steps (KeepsBelow conf c) ⟨n₀, []⟩ o)
    (hc : o.node.state.commitedIndex = c) :
    (∀ key value, (StorageLayer.replay (o.sent.map Prod.snd)).get key = some value ↔
      LastSet (o.node.state.log.take c) key value) ∧
    (n₀.delivered = [] →
      (outboxSystem conf Operation).Steps (CallReturns conf) ⟨n₀, []⟩ o →
        o.node.delivered = o.sent) ∧
    ∃ image, o.node.state.persist c = some image ∧
      ∀ file ops file' saving,
        (Saving.remove (codec.encode image)).run file ops = some (file', saving) →
        FileOp.create true ∈ ops → (codec.encode image).length ≤ bytesWritten ops →
        PersistentState.initState codec file' = some image ∧
        ∀ conf' env o',
          (outboxSystem conf' Operation).Steps (KeepsBelow conf' c)
            ⟨Node.boot conf' env image, []⟩ o' →
          o'.node.state.commitedIndex = c →
          StorageLayer.replay (o'.sent.map Prod.snd)
            = StorageLayer.replay (o.sent.map Prod.snd) := by
  obtain ⟨hle, hsent⟩ := sent_eq_take hstart h hc
  refine ⟨fun key value => ?_, fun hnone hreturns => delivered_eq_sent hnone hreturns,
    _, PersistentState.persist_of_le hle, ?_⟩
  · rw [hsent]
    exact StorageLayer.get_replay_iff
  · intro file ops file' saving hrun hcreate hwritten
    constructor
    · rw [Saving.run_complete hrun hcreate hwritten]
      exact codec.decode_encode _
    · intro conf' env o' h' hc'
      have hlen : (o.node.state.log.take c).length = c := by
        rw [List.length_take, Nat.min_eq_left hle]
      rw [(sent_eq_take rfl h' hc').2, take_eq_of_boot hlen h', hsent]

/-- Three writes of two keys, and a read. -/
abbrev fourOperations : List (LogEntry Operation) :=
  [⟨.set ['a'] ['1'], 1⟩, ⟨.set ['b'] ['2'], 1⟩, ⟨.delete ['a'], 1⟩, ⟨.get ['b'], 1⟩]

/-- The state that the node is first started from, and the record that it leaves. -/
abbrev firstRecord : PersistentState Operation := ⟨1, some 2, fourOperations⟩
abbrev secondRecord : PersistentState Operation := ⟨2, some 1, fourOperations⟩

/-- A follower delivers one entry, is elected, and delivers the other three as leader; after
a restart it delivers them again as follower, two at a time. -/
theorem replay_rebuilds_restarted : ∃ (o o' : Outbox Operation) (file : File),
    o.node.state.nodeType = .leader ∧
    (StorageLayer.replay (o.sent.map Prod.snd)).get ['b'] = some ['2'] ∧
    PersistentState.initState operationCodec file = some secondRecord ∧
    o'.node.state.nodeType = .follower ∧
    StorageLayer.replay (o'.sent.map Prod.snd) = StorageLayer.replay (o.sent.map Prod.snd) := by
  obtain ⟨o, ho, hrole, hcommit, hlog, hpersist⟩ := System.exec_any
    (outboxSystem Raft.confOfThree Operation) (KeepsBelow Raft.confOfThree 4)
    ⟨Node.boot Raft.confOfThree (.atTime 0) firstRecord, []⟩
    [(.atTime 10, .accept 0 (.appendEntries ⟨1, 2, 4, 1, [], 1⟩)),
      (.atTime 10, .handle true), (.atTime 11, .clearFlag), (.atTime 200, .transitionCandidate),
      (.atTime 200, .advance 0), (.atTime 200, .advance 0), (.atTime 200, .advance 0),
      (.atTime 201, .voteAnswer (.reply ⟨2, 1, true⟩)), (.atTime 201, .advance 0),
      (.atTime 210, .sendHeartbeat), (.atTime 210, .advance 1),
      (.atTime 211, .appendAnswer (.reply ⟨2, 2, true⟩)), (.atTime 211, .advance 2),
      (.atTime 212, .appendAnswer .none), (.atTime 212, .advance 0),
      (.atTime 213, .commit [(4, 2), (0, 1)])]
    (P := fun o => o.node.state.nodeType = .leader ∧ o.node.state.commitedIndex = 4 ∧
      o.node.state.log = fourOperations ∧
      (o.node.state.persist 4).map (fun p => (p.nodeTerm, p.votedFor, p.log))
        = some (2, some 1, fourOperations))
    (by decide +kernel)
  obtain ⟨o', ho', hrole', hcommit'⟩ := System.exec_any
    (outboxSystem Raft.confOfThree Operation) (KeepsBelow Raft.confOfThree 4)
    ⟨Node.boot Raft.confOfThree (.atTime 500) secondRecord, []⟩
    [(.atTime 510, .accept 0 (.appendEntries ⟨2, 2, 4, 1, [], 2⟩)), (.atTime 510, .handle true),
      (.atTime 520, .accept 1 (.appendEntries ⟨2, 2, 4, 1, [], 4⟩)), (.atTime 520, .handle true)]
    (P := fun o => o.node.state.nodeType = .follower ∧ o.node.state.commitedIndex = 4)
    (by decide +kernel)
  obtain ⟨hmap, _, image, himage, hrestart⟩ := replay_rebuilds operationCodec rfl ho hcommit
  obtain rfl : image = secondRecord := by
    rw [himage] at hpersist
    obtain ⟨term, votedFor, log⟩ := image
    simpa using hpersist
  have hlast : LastSet (o.node.state.log.take 4) ['b'] ['2'] := by
    rw [hlog]
    exact ⟨[⟨.set ['a'] ['1'], 1⟩], _, [⟨.delete ['a'], 1⟩, ⟨.get ['b'], 1⟩], rfl, rfl, by simp⟩
  obtain ⟨hfile, hagain⟩ := hrestart _ _ _ _ (Saving.run_undisturbed none _) (by simp)
    (Saving.bytesWritten_undisturbed _).ge
  exact ⟨o, o', _, hrole, (hmap _ _).2 hlast, hfile, hrole', hagain _ _ _ ho' hcommit'⟩

/-! ## A running store -/

/-- The storage is what the entries applied so far make of an empty one. -/
structure KVStore.Replays (s : KVStore) : Prop where
  applied : s.applied ≤ s.raft.delivered.length
  storage : s.storage
    = StorageLayer.replay ((s.raft.delivered.take s.applied).map Prod.snd)

/-- What has been delivered stays on the channel. -/
theorem Node.Step.delivered_isPrefix {T : Type} {conf : Config} {env : Env} {n n' : Node T}
    {action : Action T} {effect : Effect T} (h : Node.Step conf env n action n' effect) :
    n.delivered <+: n'.delivered := by
  cases h.logMove with
  | keep _ _ hdelivered => rw [hdelivered]
  | append _ _ _ hdelivered => rw [hdelivered]
  | commit _ _ _ _ hdelivered => rw [hdelivered]; exact List.prefix_append _ _
  | accept _ _ _ _ _ _ _ _ _ _ hdelivered => rw [hdelivered]; exact List.prefix_append _ _

variable {conf : Config} {s s' : KVStore} {l : StoreAction} {c : Nat}

/-- More entries on the channel change nothing. -/
theorem KVStore.Replays.mono (h : s.Replays) (happlied : s'.applied = s.applied)
    (hstorage : s'.storage = s.storage) (hdelivered : s.raft.delivered <+: s'.raft.delivered) :
    s'.Replays := by
  obtain ⟨rest, hrest⟩ := hdelivered
  refine ⟨?_, ?_⟩
  · rw [happlied]
    exact h.applied.trans (List.IsPrefix.length_le ⟨rest, hrest⟩)
  · rw [happlied, hstorage, h.storage, ← hrest, List.take_append_of_le_length h.applied]

theorem KVStore.Replays.step (h : s.Replays) (hstep : KVStore.Step conf s l s') : s'.Replays := by
  cases hstep with
  | node env action n effect haction hnode => exact h.mono rfl rfl hnode.delivered_isPrefix
  | apply message hhand hmessage =>
    obtain ⟨hlt, hget⟩ := List.getElem?_eq_some_iff.1 hmessage
    refine ⟨hlt, ?_⟩
    rw [List.take_add_one, hmessage]
    simp [StorageLayer.replay, h.storage]
  | _ => exact h.mono rfl rfl (List.prefix_refl _)

/-- Whether the call that a step makes returns, if it makes one that may deliver entries. -/
def KVStore.callReturns (conf : Config) (s : KVStore) : StoreAction → Bool
  | .node env action => s.raft.callReturns conf (env, action)
  | _ => true

/-- The steps of a store on a node whose calls return and whose log keeps what is below
`c`. -/
def ReplayOk (conf : Config) (c : Nat) (s : KVStore) (l : StoreAction) : Prop :=
  s.callReturns conf l = true ∧
    ∀ s' ∈ s.step conf l, s.raft.state.log.take c <+: s'.raft.state.log

/-- A store leaves its node alone or lets it make a step. -/
theorem KVStore.step_raft (h : s.step conf l = some s') :
    s'.raft = s.raft ∨ ∃ l', (nodeSystem conf Operation).step s.raft l' = some s'.raft ∧
      (s.callReturns conf l = true → s.raft.callReturns conf l' = true) := by
  rcases KVStore.raft_cases h with hsame | ⟨env, action, effect, rfl, hn⟩ |
    ⟨env, cmd, number, effect, rfl, _, _, hn⟩
  · exact Or.inl hsame
  · exact Or.inr ⟨(env, action), by simp [nodeSystem, hn], id⟩
  · exact Or.inr ⟨(env, .appendEntry cmd), by simp [nodeSystem, hn], fun _ => rfl⟩

/-- The run of a store is one of its node. -/
theorem KVStore.steps_outbox {s₀ : KVStore}
    (h : (storeSystem conf).Steps (ReplayOk conf c) s₀ s) :
    ∃ o, (outboxSystem conf Operation).Steps
      (fun o l => KeepsBelow conf c o l ∧ CallReturns conf o l) ⟨s₀.raft, []⟩ o ∧
        o.node = s.raft := by
  induction h with
  | refl => exact ⟨_, .refl _ _ _, rfl⟩
  | @tail m m' _ hnext ih =>
    obtain ⟨l, ⟨hreturns, hkeeps⟩, hstep⟩ := hnext
    obtain ⟨o, hsteps, hnode⟩ := ih
    rcases KVStore.step_raft hstep with hsame | ⟨l', hraft, hreturns'⟩
    · exact ⟨o, hsteps, hnode.trans hsame.symm⟩
    · have hout : (outboxSystem conf Operation).step o l' = some ⟨m'.raft,
          o.sent ++ if o.node.callReturns conf l' then o.node.sends conf l' else []⟩ := by
        simp [outboxSystem, hnode, hraft]
      refine ⟨_, hsteps.tail ⟨l', ⟨fun o' ho' => ?_, ?_⟩, hout⟩, rfl⟩
      · obtain rfl := Option.some.inj (hout.symm.trans ho')
        rw [hnode]
        exact hkeeps m' hstep
      · rw [CallReturns, hnode]
        exact hreturns' hreturns

/-- **A store that has caught up has the map of the log.**  When everything that was
delivered up to the commit index `c` is applied, a key is found with the value of its
last `Set` below `c` that no `Delete` follows, and no other key is found. -/
theorem KVStore.drained {s₀ : KVStore} (h₀ : (storeSystem conf).Init s₀)
    (h : (storeSystem conf).Steps (ReplayOk conf c) s₀ s)
    (hc : s.raft.state.commitedIndex = c) (happlied : s.applied = s.raft.delivered.length)
    (key value : Text) :
    s.storage.get key = some value ↔ LastSet (s.raft.state.log.take c) key value := by
  obtain ⟨env, persistent, rfl⟩ := h₀
  have hreplays : s.Replays :=
    h.invariant (fun _ _ _ hs _ hstep => hs.step (KVStore.step_sound hstep)) ⟨Nat.zero_le _, rfl⟩
  obtain ⟨o, hsteps, hnode⟩ := KVStore.steps_outbox h
  rw [← hnode] at hc happlied
  have hkeeps := hsteps.mono fun _ _ hok => hok.1
  have hreturns := hsteps.mono fun _ _ hok => hok.2
  obtain ⟨-, hsent⟩ := sent_eq_take rfl hkeeps hc
  have hdelivered : o.node.delivered = o.sent := delivered_eq_sent rfl hreturns
  rw [hreplays.storage, ← hnode, happlied, List.take_length, hdelivered, hsent]
  exact StorageLayer.get_replay_iff

end Quaso
