import Quaso.Kv.Cluster
import Quaso.Kv.Replay
import Quaso.Safety.Validity

/-!
# Reads return what was written

A value takes a long way from the client who sets it to the client who gets it:
the channel of a store, the log of its node, requests to other nodes, their logs,
their delivery channels, and their storages.  Nothing on this way makes up a value.

* `Reply.Honest`, `KVStore.Sourced` — the values that one store holds or answers come
  from operations with a property; `KVStore.Sourced.step`.
* `StoreCluster.Put` — the operations that clients have put on a channel.
* `reads_written` — in every run of a cluster of stores, the reply to a `get` is a
  value that some client has set for the key, or says that there is none.
-/

namespace Quaso

/-! ## One store -/

/-- The reply to a `get` says that there is no value, or quotes one that an operation with
the property has set. -/
def Reply.Honest (P : Operation → Prop) (r : Reply) : Prop :=
  ∀ key, r.op = .get key →
    r.text = undefinedReply ∨ ∃ value, r.text = quoted value ∧ P (.set key value)

/-- What a store has on its way to the log, in its storage, and in its replies. -/
structure KVStore.Sourced (P : Operation → Prop) (t : KVStore) : Prop where
  queued : ∀ item ∈ t.hand.toList ++ t.channel, P item.1
  put : ∀ op ∈ t.put, P op
  storage : ∀ key value, t.storage.get key = some value → P (.set key value)
  queueing : ∀ client op, t.clients client = .queueing op → op.isGet = false
  answering : ∀ client r, t.clients client = .answering r → r.Honest P
  replies : ∀ r ∈ t.replies, r.Honest P

variable {P Q : Operation → Prop} {t t' : KVStore} {conf : Config} {a : StoreAction}

/-- A reply to an operation that is no `get` is honest. -/
theorem Reply.honest_of_not_isGet {r : Reply} (h : r.op.isGet = false) : r.Honest P := by
  intro key hop
  rw [hop] at h
  cases h

theorem Reply.Honest.mono {r : Reply} (h : r.Honest P) (himp : ∀ op, P op → Q op) :
    r.Honest Q := fun key hop =>
  (h key hop).imp_right fun ⟨value, htext, hP⟩ => ⟨value, htext, himp _ hP⟩

/-- What is found in a storage is what the reply quotes. -/
theorem Reply.honest_getReply {sl : StorageLayer} {key : Text} {number : Option Nat}
    (h : ∀ value, sl.get key = some value → P (.set key value)) :
    (⟨.get key, getReply sl key, number⟩ : Reply).Honest P := by
  rintro key' ⟨⟩
  simp only [getReply]
  cases hget : sl.get key with
  | none => exact Or.inl rfl
  | some value => exact Or.inr ⟨value, rfl, h value hget⟩

namespace KVStore.Sourced

theorem start (P : Operation → Prop) (conf : Config) (env : Env)
    (persistent : PersistentState Operation) :
    (KVStore.start conf env persistent).Sourced P where
  queued := by simp [KVStore.start]
  put := by simp [KVStore.start]
  storage := by
    intro key value h
    simp [KVStore.start, StorageLayer.get, StorageLayer.initDefault] at h
  queueing := by simp [KVStore.start]
  answering := by simp [KVStore.start]
  replies := by simp [KVStore.start]

theorem mono (h : t.Sourced P) (himp : ∀ op, P op → Q op) : t.Sourced Q where
  queued := fun item hitem => himp _ (h.queued item hitem)
  put := fun op hop => himp op (h.put op hop)
  storage := fun key value hget => himp _ (h.storage key value hget)
  queueing := h.queueing
  answering := fun client r hr => (h.answering client r hr).mono himp
  replies := fun r hr => (h.replies r hr).mono himp

/-- A client task goes on. -/
theorem setClient (h : t.Sourced P) (client : Nat) (task : ClientTask)
    (hqueueing : ∀ op, task = .queueing op → op.isGet = false)
    (hanswering : ∀ r, task = .answering r → r.Honest P) :
    (t.setClient client task).Sourced P where
  queued := h.queued
  put := h.put
  storage := h.storage
  queueing := by
    intro c op hc
    rcases KVStore.setClient_cases hc with ⟨_, hc⟩ | ⟨_, hc⟩
    · exact hqueueing op hc
    · exact h.queueing c op hc
  answering := by
    intro c r hc
    rcases KVStore.setClient_cases hc with ⟨_, hc⟩ | ⟨_, hc⟩
    · exact hanswering r hc
    · exact h.answering c r hc
  replies := h.replies

/-- An applied entry leaves in the storage what its operation sets. -/
theorem storage_apply {message : LogEntry Operation} (h : t.Sourced P) (hmessage : P message.value)
    (key value : Text) (hget : (t.storage.apply message).get key = some value) :
    P (.set key value) := by
  have happly : (t.storage.apply message).get key
      = (message.value.effect key).getD (t.storage.get key) :=
    StorageLayer.updates_apply t.storage message key
  rw [happly] at hget
  cases heffect : message.value.effect key with
  | none =>
    rw [heffect] at hget
    exact h.storage key value hget
  | some found =>
    rw [heffect] at hget
    obtain rfl : found = some value := hget
    rw [← Operation.effect_eq_some_iff.1 heffect]
    exact hmessage

/-- **A step of a store makes up no value.**  What it puts on the channel is put there by
a client, and what it applies is on the delivery channel. -/
theorem step (h : t.Sourced P) (hstep : KVStore.Step conf t a t') (hput : ∀ op ∈ t'.put, P op)
    (hdelivered : ∀ p ∈ t.raft.delivered, P p.2.value) : t'.Sourced P := by
  cases hstep with
  | abort client text htask hparse => exact h.setClient client _ (by simp) (by simp)
  | query client text key htask hparse => exact h.setClient client _ (by simp) (by simp)
  | enqueue client text op htask hparse hop hflag =>
    exact h.setClient client _ (fun _ heq => by cases heq; exact hop) (by simp)
  | refuse client text op htask hparse hop hflag =>
    refine h.setClient client _ (by simp) ?_
    rintro r ⟨⟩
    exact Reply.honest_of_not_isGet hop
  | lookup client key htask =>
    refine h.setClient client _ (by simp) ?_
    rintro r ⟨⟩
    exact Reply.honest_getReply (h.storage key)
  | put client op htask hlock =>
    have hnew : ∀ r, ClientTask.answering ⟨op, okReply, some t.put.length⟩ = .answering r →
        r.Honest P := by
      rintro r ⟨⟩
      exact Reply.honest_of_not_isGet (h.queueing client op htask)
    have htasks := h.setClient client _ (by simp) hnew
    refine { htasks with queued := fun item hitem => ?_, put := hput }
    rw [← List.append_assoc] at hitem
    rcases List.mem_append.1 hitem with hold | hlast
    · exact h.queued item hold
    · rw [List.mem_singleton.1 hlast]
      exact hput op (List.mem_append_right _ (List.mem_singleton_self op))
  | answer client written reply task htask htask' =>
    have htasks := h.setClient client task
      (by rcases htask' with rfl | rfl <;> simp) (by rcases htask' with rfl | rfl <;> simp)
    refine { htasks with replies := fun r hr => ?_ }
    change r ∈ (if written then t.replies ++ [reply] else t.replies) at hr
    split at hr
    · rcases List.mem_append.1 hr with hold | hlast
      · exact h.replies r hold
      · rw [List.mem_singleton.1 hlast]
        exact h.answering client reply htask
    · exact h.replies r hr
  | hangUp client htask => exact h.setClient client _ (by simp) (by simp)
  | receive item channel hhand hchannel =>
    refine { h with queued := fun item' hitem => ?_ }
    refine h.queued item' ?_
    rw [hhand, hchannel]
    exact hitem
  | drop | lose | append =>
    exact { h with queued := fun item hitem => h.queued item (List.mem_append_right _ hitem) }
  | apply message hhand hmessage =>
    have hmem := List.mem_of_getElem? hmessage
    exact { h with storage := h.storage_apply (hdelivered message hmem) }
  | node env action n effect haction hnode => exact { h with }

end KVStore.Sourced

/-- Operations stay among those put on the channel. -/
theorem KVStore.Step.mem_put {op : Operation} (hstep : KVStore.Step conf t a t')
    (hop : op ∈ t.put) : op ∈ t'.put := by
  cases hstep with
  | put client op' htask hlock => exact List.mem_append_left _ hop
  | _ => exact hop

/-! ## A cluster of stores -/

namespace StoreCluster

variable {n : Nat} {C : ClusterConfig n} {s s' : StoreCluster C} {l : StoreLabel n}

/-- Some client has put the operation on the channel of its store. -/
def Put (s : StoreCluster C) (op : Operation) : Prop := ∃ i, op ∈ (s.stores i).put

/-- All entries and all values come from clients. -/
structure SourcedPut (s : StoreCluster C) : Prop where
  entries : s.raft.EntriesFrom fun e => s.Put e.value
  stores : ∀ i, (s.stores i).Sourced s.Put

theorem Put.step {op : Operation} (h : s.Put op) (hl : s.step l = some s') : s'.Put op := by
  obtain ⟨i, hi⟩ := h
  refine ⟨i, ?_⟩
  obtain ⟨action, _, hstep, hothers⟩ := step_store hl
  by_cases hnode : i = l.node
  · subst hnode
    exact (KVStore.step_sound hstep).mem_put hi
  · rw [hothers i hnode]
    exact hi

/-- What a store submits to its node has been put on its channel. -/
theorem put_of_appendEntry {l' : Label n Operation} {value : Operation}
    (h : ∀ i, (s.stores i).Sourced s.Put) (hl : s.step l = some s') (hl' : l' ∈ s.raftLabel l)
    (hinput : l'.input = .act (.appendEntry value)) : s.Put value := by
  unfold raftLabel at hl'
  split at hl'
  · rename_i env input hnode
    obtain rfl := Option.some.inj hl'
    -- a step of the node that `handle_cmd` has no part in appends nothing
    obtain ⟨action, haction, hstep, _⟩ := step_store hl
    obtain rfl : input = .act (.appendEntry value) := hinput
    simp only [StoreCluster.action, hnode, Cluster.resolve, Cluster.isLocal, if_true,
      Option.map_some, Option.some.injEq] at haction
    subst haction
    cases hstep
  · rename_i env htask
    split at hl'
    · rename_i cmd number hhand
      split at hl'
      · obtain rfl := Option.some.inj hl'
        cases hinput
        refine (h l.node).queued (value, number) ?_
        rw [hhand]
        exact List.mem_append_left _ (List.mem_singleton_self _)
      · cases hl'
    · cases hl'
  · cases hl'

theorem SourcedPut.step (h : s.SourcedPut) (hnet : s.raft.NetworkSound) (hl : s.step l = some s') :
    s'.SourcedPut := by
  have hput : ∀ op, s.Put op → s'.Put op := fun op hop => hop.step hl
  have hentries : s.raft.EntriesFrom fun e => s'.Put e.value :=
    h.entries.mono fun e => hput e.value
  constructor
  · rcases step_raft hl with hsame | ⟨l', hl', hraft⟩
    · rw [hsame]
      exact hentries
    · obtain ⟨action, effect, hm⟩ := Cluster.step_cases hraft
      refine hentries.step hm hnet fun value haction _ => hput value ?_
      exact put_of_appendEntry h.stores hl hl'
        (Cluster.resolve_appendEntry (haction ▸ hm.resolved))
  · intro i
    obtain ⟨action, _, hstep, hothers⟩ := step_store hl
    by_cases hi : i = l.node
    · subst hi
      exact ((h.stores _).mono hput).step (KVStore.step_sound hstep) (fun op hop => ⟨_, hop⟩)
        fun p hp => hentries.delivered l.node p hp
    · rw [hothers i hi]
      exact (h.stores i).mono hput

theorem SourcedPut.of_reachable {ok : StoreCluster C → StoreLabel n → Prop}
    (h : (storeClusterSystem C).Reachable ok s) : s.SourcedPut := by
  refine h.invariant (I := SourcedPut) ?_ ?_
  · rintro s ⟨boot, rfl⟩
    exact ⟨.start _ boot, fun i => .start _ _ _ _⟩
  · intro s l s' hreach hI _ hl
    have hraft : (clusterSystem C Operation).Reachable System.Always s.raft :=
      reachable_raft (hreach.mono fun _ _ _ _ _ => trivial)
    exact hI.step (.of_reachable hraft) hl

end StoreCluster

variable {n : Nat} {C : ClusterConfig n} {s : StoreCluster C}

/-- **Integrity of reads.**  In every run of a cluster of stores, whatever the nodes and
the network do, a store that replies to a `get` with a value quotes one that a client
has set for this key at some store, and so does every storage. -/
theorem reads_written (h : (storeClusterSystem C).Reachable System.Always s) (i : Fin n) :
    (∀ r ∈ (s.stores i).replies, ∀ key, r.op = .get key → r.text = undefinedReply ∨
      ∃ value, r.text = quoted value ∧ s.Put (.set key value)) ∧
    ∀ key value, (s.stores i).storage.get key = some value → s.Put (.set key value) := by
  have hsourced : s.SourcedPut := .of_reachable h
  exact ⟨(hsourced.stores i).replies, (hsourced.stores i).storage⟩

/-- The follower answers with the value that was written at the leader. -/
theorem reads_written_writeAndRead : ∃ s : StoreCluster duo,
    (s.stores 1).replies.map Reply.text = [quoted ['b']] ∧ s.Put (.set ['a'] ['b']) := by
  obtain ⟨s, hs, htext, hget⟩ := System.exec_any (storeClusterSystem duo) System.Always
    (.start₀ duo) writeAndRead
    (P := fun s => (s.stores 1).replies.map Reply.text = [quoted ['b']] ∧
      (s.stores 1).storage.get ['a'] = some ['b'])
    (by decide +kernel)
  have hreads := reads_written ⟨_, StoreCluster.init_start₀ duo, hs⟩ 1
  exact ⟨s, htext, hreads.2 _ _ hget⟩

end Quaso
