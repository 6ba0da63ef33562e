import Quaso.Kv.Acknowledged
import Quaso.Kv.Integrity
import Quaso.Safety.Order

/-!
# One store on many nodes

In runs of `ExtendOk`, where a term has one leader and logs only grow, a cluster of stores
is what it is meant to be: a replicated state machine in the sense of
`Quaso.Lib.Replication`, whose events are the entries that the nodes have committed and
whose replicas are the storages.

* `StoreCluster.Represents` — the replicated state machine that a cluster is.
* `stores_replicate` — every run of a cluster is a run of a replicated state machine.
* `reads_consistent` — the clients see one history of writes, and a client that stays
  with its connection never sees it go back.
* `writes_decided` — a write that is committed where it was taken has its place in that
  history for good.
-/

namespace Quaso

/-! ## What a step of a store applies -/

section Store

variable {conf : Config} {t t' : KVStore} {a : StoreAction}

/-- A step of a store applies nothing, or the next entry that its node has delivered. -/
theorem KVStore.Step.applied_cases (h : KVStore.Step conf t a t') :
    t'.applied = t.applied ∨
      (t'.applied = t.applied + 1 ∧ t.applied < t.raft.delivered.length ∧ t'.raft = t.raft) := by
  cases h with
  | apply message hhand hmessage =>
    exact Or.inr ⟨rfl, (List.getElem?_eq_some_iff.1 hmessage).1, rfl⟩
  | _ => exact Or.inl rfl

end Store

namespace StoreCluster

variable {n : Nat} {C : ClusterConfig n} {s s' : StoreCluster C} {l : StoreLabel n}

theorem replays {ok : StoreCluster C → StoreLabel n → Prop}
    (h : (storeClusterSystem C).Reachable ok s) (i : Fin n) : (s.stores i).Replays := by
  obtain ⟨s₀, ⟨boot, rfl⟩, hsteps⟩ := h
  refine (steps_store hsteps i).invariant (I := KVStore.Replays) ?_ ⟨Nat.zero_le _, rfl⟩
  intro t a t' ht _ hstep
  exact ht.step (KVStore.step_sound hstep)

/-- A store applies nothing that its node has not committed, and its storage is what a
beginning of the order makes of an empty one. -/
theorem storage_eq (hquorum : ∀ i, n < 2 * getQuorumLength (C.conf i))
    (h : (storeClusterSystem C).Reachable (OnNodes (Lift ExtendOk)) s) (i : Fin n) :
    (s.stores i).applied ≤ (s.raft.committed i).length ∧
      s.raft.committed i <+: s.raft.order ∧
      (s.stores i).storage = StorageLayer.replay (s.raft.order.take (s.stores i).applied) := by
  have hraft := reachable_raft h
  have hpre := Cluster.committed_isPrefix_order hquorum hraft i
  have hr : s.raft.ReturnSound := .of_reachable (fun _ _ hok => hok.returnOk) hraft
  have hdelivered : (s.stores i).raft.delivered.map Prod.snd = s.raft.committed i :=
    (hr.sent i).sent
  have hreplays := replays h i
  have hle : (s.stores i).applied ≤ (s.raft.committed i).length := by
    rw [← hdelivered, List.length_map]
    exact hreplays.applied
  refine ⟨hle, hpre, ?_⟩
  obtain ⟨rest, hrest⟩ := hpre
  rw [hreplays.storage, List.map_take, hdelivered, ← hrest, List.take_append_of_le_length hle]

/-- The order is made of what clients have put on the channels. -/
theorem put_of_mem_order (h : s.SourcedPut) {e : LogEntry Operation} (he : e ∈ s.raft.order) :
    s.Put e.value :=
  let ⟨i, hi⟩ := Cluster.mem_order he
  h.entries.log i e hi

/-- The replicated state machine that a cluster of stores is: its order is what the nodes
have committed, all of which clients have put on the channels, and its replicas are the
storages. -/
structure Represents (s : StoreCluster C) (r : Replication (Fin n) (LogEntry Operation)) :
    Prop where
  order : r.order = s.raft.order
  put : ∀ e ∈ r.order, s.Put e.value
  position : ∀ i, r.position i = (s.stores i).applied
  storage : ∀ i, (s.stores i).storage = r.view StorageLayer.apply .initDefault i

/-- In a run, the order and the positions say it all. -/
theorem Represents.of_reachable (hquorum : ∀ i, n < 2 * getQuorumLength (C.conf i))
    (h : (storeClusterSystem C).Reachable (OnNodes (Lift ExtendOk)) s)
    {r : Replication (Fin n) (LogEntry Operation)} (horder : r.order = s.raft.order)
    (hposition : ∀ i, r.position i = (s.stores i).applied) : s.Represents r where
  order := horder
  put := fun e he => put_of_mem_order (.of_reachable h) (horder ▸ he)
  position := hposition
  storage := fun i => by
    rw [(storage_eq hquorum h i).2.2, Replication.view, horder, hposition]
    rfl

/-! ## Every step is one of a replicated state machine -/

section Step

variable (hquorum : ∀ i, n < 2 * getQuorumLength (C.conf i))

include hquorum

/-- The order after a step extends the one before it. -/
theorem order_isPrefix
    (hs : (storeClusterSystem C).Reachable (OnNodes (Lift ExtendOk)) s)
    (h : (storeClusterSystem C).Steps (OnNodes (Lift ExtendOk)) s s') :
    s.raft.order <+: s'.raft.order :=
  Cluster.order_isPrefix hquorum (reachable_raft hs) (steps_raft h)

/-- **A step of the cluster is a step of the replicated state machine it is.** -/
theorem Represents.step {r : Replication (Fin n) (LogEntry Operation)} (hr : s.Represents r)
    (hs : (storeClusterSystem C).Reachable (OnNodes (Lift ExtendOk)) s)
    (hok : OnNodes (Lift ExtendOk) s l) (hl : (storeClusterSystem C).step s l = some s') :
    ∃ r', (replicationSystem (Fin n) (LogEntry Operation)).Steps System.Always r r' ∧
      s'.Represents r' := by
  have hs' := hs.step hok hl
  obtain ⟨action, _, hstep, hothers⟩ := step_store hl
  rcases (KVStore.step_sound hstep).applied_cases with hsame | ⟨hnext, hlt, hraft⟩
  · -- nothing is applied, but more may be committed
    obtain ⟨rest, hrest⟩ := order_isPrefix hquorum hs (.single ⟨l, hok, hl⟩)
    have happlied : ∀ i, (s'.stores i).applied = (s.stores i).applied := by
      intro i
      by_cases hi : i = l.node
      · exact hi ▸ hsame
      · rw [hothers i hi]
    refine ⟨r.extend rest, .single ⟨.extend rest, trivial, rfl⟩, .of_reachable hquorum hs' ?_ ?_⟩
    · rw [Replication.extend_order, hr.order, hrest]
    · intro i
      rw [Replication.extend_position, hr.position, happlied]
  · have hnodes : s'.raft.nodes = s.raft.nodes := by
      funext i
      by_cases hi : i = l.node
      · subst hi
        exact hraft
      · exact congrArg KVStore.raft (hothers i hi)
    have horder : s'.raft.order = s.raft.order := by
      have hcommitted : s'.raft.committed = s.raft.committed := by
        funext i
        simp only [Cluster.committed, hnodes]
      rw [Cluster.order, Cluster.order, hcommitted]
    have hpos : r.position l.node < r.order.length := by
      obtain ⟨hle, hpre, _⟩ := storage_eq hquorum hs' l.node
      rw [hr.position, hr.order, ← horder]
      have := hpre.length_le
      omega
    refine ⟨r.advance l.node hpos, .single ⟨.advance l.node, trivial, dif_pos hpos⟩,
      .of_reachable hquorum hs' (hr.order.trans horder.symm) ?_⟩
    intro i
    by_cases hi : i = l.node
    · subst hi
      rw [Replication.advance_position_self, hr.position, hnext]
    · rw [Replication.advance_position_of_ne r hpos hi, hr.position, hothers i hi]

end Step
end StoreCluster

variable {n : Nat} {C : ClusterConfig n} {s s' : StoreCluster C}

open StoreCluster

/-- **A cluster of stores is a replicated state machine.**  In runs whose steps all meet
`ExtendOk`, with quorums that are majorities: there is one order of the writes, made of what
clients have put on the channels, and each storage is what a beginning of it makes of an
empty one; from any moment of a run to a later one the order grows at its end, and the
stores go on in it. -/
theorem stores_replicate (hquorum : ∀ i, n < 2 * getQuorumLength (C.conf i))
    (hs : (storeClusterSystem C).Reachable (OnNodes (Lift ExtendOk)) s)
    (h : (storeClusterSystem C).Steps (OnNodes (Lift ExtendOk)) s s') :
    ∃ r r', (replicationSystem (Fin n) (LogEntry Operation)).Reachable System.Always r ∧
      (replicationSystem (Fin n) (LogEntry Operation)).Steps System.Always r r' ∧
      s.Represents r ∧ s'.Represents r' := by
  obtain ⟨s₀, hinit, hsteps⟩ := hs
  have hs₀ : (storeClusterSystem C).Reachable (OnNodes (Lift ExtendOk)) s₀ :=
    ⟨s₀, hinit, .refl _ _ _⟩
  have hstart : s₀.Represents (.start (Fin n) (LogEntry Operation)) := by
    obtain ⟨boot, rfl⟩ := hinit
    refine .of_reachable hquorum hs₀ ?_ fun _ => rfl
    rcases longest_cases ((List.finRange n).map (start C boot).raft.committed) with hnil | hmem
    · exact hnil.symm
    · obtain ⟨i, _, hi⟩ := List.mem_map.1 hmem
      exact hi
  have hmatch : ∀ s l s' r, (storeClusterSystem C).Reachable (OnNodes (Lift ExtendOk)) s →
      s.Represents r → OnNodes (Lift ExtendOk) s l → (storeClusterSystem C).step s l = some s' →
      ∃ r', (replicationSystem (Fin n) (LogEntry Operation)).Steps System.Always r r' ∧
        s'.Represents r' := fun _ _ _ _ hs hr hok hl => hr.step hquorum hs hok hl
  obtain ⟨r, hbefore, hr⟩ := System.Steps.simulate hmatch hs₀ hsteps hstart
  obtain ⟨r', hafter, hr'⟩ := System.Steps.simulate hmatch (hs₀.steps hsteps) h hr
  exact ⟨r, r', ⟨_, rfl, hbefore⟩, hafter, hr, hr'⟩

/-- Both stores have applied the write of the first. -/
theorem stores_replicate_writeAndRead : ∃ (s : StoreCluster duo)
    (r : Replication (Fin 2) (LogEntry Operation)),
    (s.stores 1).storage.get ['a'] = some ['b'] ∧ r.position 1 = 1 ∧ s.Represents r := by
  obtain ⟨s, hs, hget, happlied⟩ := System.exec_any (storeClusterSystem duo)
    (OnNodes (Lift ExtendOk)) (.start₀ duo) writeAndRead
    (P := fun s => (s.stores 1).storage.get ['a'] = some ['b'] ∧ (s.stores 1).applied = 1)
    (by decide +kernel)
  obtain ⟨_, r, _, _, _, hr⟩ := stores_replicate (duo.lt_two_mul_getQuorumLength (by decide))
    ⟨_, StoreCluster.init_start₀ duo, hs⟩ (.refl _ _ s)
  exact ⟨s, r, hget, (hr.position 1).trans happlied, hr⟩

/-! ## What clients read -/

/-- A reply to a `get`, as the client at the other end of the connection gets it. -/
structure ReadReply (n : Nat) where
  store : Fin n
  client : Nat
  key : Text
  text : Text

/-- The two replies came over the same connection. -/
def ReadReply.SameClient (q q' : ReadReply n) : Prop := q.store = q'.store ∧ q.client = q'.client

/-- The reply to a `get` that a store writes in a step, if it writes one. -/
def KVStore.readReply (t : KVStore) (store : Fin n) : StoreAction → Option (ReadReply n)
  | .answer client true =>
    match t.clients client with
    | .answering ⟨.get key, text, _⟩ => some ⟨store, client, key, text⟩
    | _ => none
  | _ => none

/-- The reply to a `get` that a step of the cluster writes. -/
def StoreCluster.readReply (s : StoreCluster C) (l : StoreLabel n) : Option (ReadReply n) :=
  match l.input with
  | .task action => (s.stores l.node).readReply l.node action
  | .node .. => none

/-- The text is what a store that has applied `k` entries of the order answers. -/
def ReadAt (order : List (LogEntry Operation)) (k : Nat) (key text : Text) : Prop :=
  text = getReply (StorageLayer.replay (order.take k)) key

/-- Where a reply to a `get` comes from: the task had it before the step, which does not
write it, or the step has looked up the key. -/
theorem KVStore.Step.answering_cases {conf : Config} {t t' : KVStore} {a : StoreAction}
    (h : KVStore.Step conf t a t')
    (hqueueing : ∀ client op, t.clients client = .queueing op → op.isGet = false)
    {client : Nat} {key text : Text} {number : Option Nat}
    (hanswer : t'.clients client = .answering ⟨.get key, text, number⟩) :
    (t.clients client = .answering ⟨.get key, text, number⟩ ∧
        ∀ written, a ≠ .answer client written) ∨
      (text = getReply t.storage key ∧ t'.applied = t.applied ∧ ∃ c, a = .lookup c) := by
  cases h with
  | lookup c k htask =>
    rcases KVStore.setClient_cases hanswer with ⟨_, heq⟩ | ⟨_, hold⟩
    · cases heq
      exact Or.inr ⟨rfl, rfl, c, rfl⟩
    · exact Or.inl ⟨hold, nofun⟩
  | answer c written reply task htask htask' =>
    rcases KVStore.setClient_cases hanswer with ⟨_, rfl⟩ | ⟨hne, hold⟩
    · rcases htask' with h | h <;> cases h
    · exact Or.inl ⟨hold, by rintro w ⟨⟩; exact hne rfl⟩
  | refuse c _ op htask hparse hop =>
    rcases KVStore.setClient_cases hanswer with ⟨_, heq⟩ | ⟨_, hold⟩
    · cases heq
      cases hop
    · exact Or.inl ⟨hold, nofun⟩
  | put c op htask =>
    rcases KVStore.setClient_cases hanswer with ⟨_, heq⟩ | ⟨_, hold⟩
    · cases heq
      cases hqueueing c _ htask
    · exact Or.inl ⟨hold, nofun⟩
  | abort | query | enqueue | hangUp =>
    rcases KVStore.setClient_cases hanswer with ⟨_, heq⟩ | ⟨_, hold⟩
    · cases heq
    · exact Or.inl ⟨hold, nofun⟩
  | _ => exact Or.inl ⟨hanswer, nofun⟩

namespace StoreCluster

/-- The step that writes a reply is one of the task that has it at hand. -/
theorem readReply_eq_some {l : StoreLabel n} {q : ReadReply n} (h : s.readReply l = some q) :
    q.store = l.node ∧ s.action l = some (.answer q.client true) ∧
      ∃ number, (s.stores l.node).clients q.client = .answering ⟨.get q.key, q.text, number⟩ := by
  unfold readReply at h
  split at h
  · rename_i action hinput
    unfold KVStore.readReply at h
    split at h
    · rename_i client
      split at h
      · rename_i key text number hanswer
        obtain rfl := Option.some.inj h
        exact ⟨rfl, by simp [StoreCluster.action, hinput], number, hanswer⟩
      · cases h
    · cases h
  · cases h

/-- The replies read so far, each with the position in the order that it was read at, and
what the tasks that have a reply at hand will add to them. -/
structure Seen (s : StoreCluster C) (order : List (LogEntry Operation))
    (seen : List (ReadReply n × Nat)) : Prop where
  replies : ∀ p ∈ seen, p.2 ≤ (s.stores p.1.store).applied ∧ ReadAt order p.2 p.1.key p.1.text
  ordered : seen.Pairwise fun p p' => p.1.SameClient p'.1 → p.2 ≤ p'.2
  pending : ∀ i client key text number,
    (s.stores i).clients client = .answering ⟨.get key, text, number⟩ →
      ∃ k ≤ (s.stores i).applied, ReadAt order k key text ∧
        ∀ p ∈ seen, p.1.store = i → p.1.client = client → p.2 ≤ k

namespace Seen

variable {order order' : List (LogEntry Operation)} {seen : List (ReadReply n × Nat)}
  {l : StoreLabel n}

theorem start (order : List (LogEntry Operation)) (boot : Fin n → Env) :
    Seen (StoreCluster.start C boot) order [] where
  replies := by simp
  ordered := .nil
  pending := by simp [StoreCluster.start, KVStore.start]

/-- The order may grow behind what the stores have applied. -/
theorem mono (h : Seen s order seen) (horder : order <+: order')
    (happlied : ∀ i, (s.stores i).applied ≤ order.length) : Seen s order' seen := by
  have hread : ∀ {i k key text}, k ≤ (s.stores i).applied → ReadAt order k key text →
      ReadAt order' k key text := by
    intro i k key text hk htext
    obtain ⟨rest, rfl⟩ := horder
    rw [ReadAt, List.take_append_of_le_length (hk.trans (happlied i))]
    exact htext
  refine ⟨fun p hp => ?_, h.ordered, fun i client key text number hanswer => ?_⟩
  · obtain ⟨hle, htext⟩ := h.replies p hp
    exact ⟨hle, hread hle htext⟩
  · obtain ⟨k, hle, htext, hseen⟩ := h.pending i client key text number hanswer
    exact ⟨k, hle, hread hle htext, hseen⟩

/-- What a task has at hand after a step it had before, or it has just looked it up. -/
theorem step_pending (h : Seen s order seen) (hl : s.step l = some s')
    (hqueueing : ∀ i client op, (s.stores i).clients client = .queueing op → op.isGet = false)
    (hstorage : ∀ i, (s.stores i).storage
      = StorageLayer.replay (order.take (s.stores i).applied)) (i : Fin n) (client : Nat)
    (key text : Text) (number : Option Nat)
    (hanswer : (s'.stores i).clients client = .answering ⟨.get key, text, number⟩) :
    ∃ k ≤ (s'.stores i).applied, ReadAt order k key text ∧
      (∀ p ∈ seen, p.1.store = i → p.1.client = client → p.2 ≤ k) ∧
      ∀ q ∈ s.readReply l, ¬ (q.store = i ∧ q.client = client) := by
  obtain ⟨action, haction, hstep, hothers⟩ := step_store hl
  have hsound := KVStore.step_sound hstep
  by_cases hi : i = l.node
  · subst hi
    have happlied : (s.stores l.node).applied ≤ (s'.stores l.node).applied := by
      rcases hsound.applied_cases with hsame | ⟨hnext, _⟩ <;> omega
    rcases hsound.answering_cases (hqueueing _) hanswer with ⟨hold, hother⟩ |
      ⟨htext, hsame, c, rfl⟩
    · obtain ⟨k, hle, htext, hseen⟩ := h.pending l.node client key text number hold
      refine ⟨k, hle.trans happlied, htext, hseen, ?_⟩
      rintro q hq ⟨_, rfl⟩
      obtain ⟨_, hanswer', _⟩ := readReply_eq_some hq
      exact hother true (Option.some.inj (haction.symm.trans hanswer'))
    · refine ⟨(s.stores l.node).applied, happlied, ?_, fun p hp hstore _ => ?_, ?_⟩
      · rw [ReadAt, ← hstorage, htext]
      · exact hstore ▸ (h.replies p hp).1
      · rintro q hq ⟨_, rfl⟩
        obtain ⟨_, hanswer', _⟩ := readReply_eq_some hq
        cases Option.some.inj (haction.symm.trans hanswer')
  · rw [hothers i hi] at hanswer ⊢
    obtain ⟨k, hle, htext, hseen⟩ := h.pending i client key text number hanswer
    refine ⟨k, hle, htext, hseen, ?_⟩
    rintro q hq ⟨rfl, _⟩
    exact hi (readReply_eq_some hq).1

/-- **A step adds the reply it writes**, read at a position that the client has not been
behind before. -/
theorem step (h : Seen s order seen) (hl : s.step l = some s')
    (hqueueing : ∀ i client op, (s.stores i).clients client = .queueing op → op.isGet = false)
    (hstorage : ∀ i, (s.stores i).storage
      = StorageLayer.replay (order.take (s.stores i).applied)) :
    ∃ seen', seen'.map Prod.fst = seen.map Prod.fst ++ (s.readReply l).toList ∧
      Seen s' order seen' := by
  have happlied : ∀ i, (s.stores i).applied ≤ (s'.stores i).applied := by
    intro i
    obtain ⟨action, _, hstep, hothers⟩ := step_store hl
    by_cases hi : i = l.node
    · subst hi
      rcases (KVStore.step_sound hstep).applied_cases with hsame | ⟨hnext, _⟩ <;> omega
    · rw [hothers i hi]
  have hreplies : ∀ p ∈ seen,
      p.2 ≤ (s'.stores p.1.store).applied ∧ ReadAt order p.2 p.1.key p.1.text :=
    fun p hp => ⟨(h.replies p hp).1.trans (happlied _), (h.replies p hp).2⟩
  have hpending := h.step_pending hl hqueueing hstorage
  cases hreply : s.readReply l with
  | none =>
    refine ⟨seen, by simp, hreplies, h.ordered, fun i client key text number hanswer => ?_⟩
    obtain ⟨k, hle, htext, hseen, _⟩ := hpending i client key text number hanswer
    exact ⟨k, hle, htext, hseen⟩
  | some q =>
    obtain ⟨hstore, _, number, hanswer⟩ := readReply_eq_some hreply
    obtain ⟨k, hle, htext, hseen⟩ := h.pending _ _ _ _ _ hanswer
    rw [← hstore] at hle hseen
    refine ⟨seen ++ [(q, k)], by simp, ?_, ?_, ?_⟩
    · intro p hp
      rcases List.mem_append.1 hp with hold | hlast
      · exact hreplies p hold
      · rw [List.mem_singleton.1 hlast]
        exact ⟨hle.trans (happlied _), htext⟩
    · refine List.pairwise_append.2 ⟨h.ordered, List.pairwise_singleton _ _, ?_⟩
      intro p hp p' hp' hsame
      rw [List.mem_singleton.1 hp'] at hsame ⊢
      exact hseen p hp hsame.1 hsame.2
    · intro i client key text number hanswer
      obtain ⟨k', hle', htext', hseen', hother⟩ := hpending i client key text number hanswer
      refine ⟨k', hle', htext', fun p hp hstore' hclient => ?_⟩
      rcases List.mem_append.1 hp with hold | hlast
      · exact hseen' p hold hstore' hclient
      · rw [List.mem_singleton.1 hlast] at hstore' hclient
        exact absurd ⟨hstore', hclient⟩ (hother q hreply)

/-- Every reply of a run can be placed in the order that the run has come to. -/
theorem of_reachable (hquorum : ∀ i, n < 2 * getQuorumLength (C.conf i))
    {history : List (ReadReply n)}
    (h : ((storeClusterSystem C).record readReply).Reachable
      (System.OnState (OnNodes (Lift ExtendOk))) (s, history)) :
    ∃ seen : List (ReadReply n × Nat), seen.map Prod.fst = history ∧
      Seen s s.raft.order seen := by
  refine h.invariant (I := fun m => ∃ seen : List (ReadReply n × Nat),
    seen.map Prod.fst = m.2 ∧ Seen m.1 m.1.raft.order seen) ?_ ?_
  · rintro ⟨s, history⟩ ⟨⟨boot, rfl⟩, rfl⟩
    exact ⟨[], rfl, .start _ boot⟩
  · rintro ⟨s, history⟩ l ⟨s', history'⟩ hreach ⟨seen, hseen, hs⟩ hok hl
    obtain ⟨hl, hhistory⟩ := System.record_step hl
    have hreach := hreach.of_record
    have hsourced : s.SourcedPut := .of_reachable hreach
    have horder := order_isPrefix hquorum hreach (.single ⟨l, hok, hl⟩)
    have hle : ∀ i, (s.stores i).applied ≤ s.raft.order.length := fun i =>
      (storage_eq hquorum hreach i).1.trans (storage_eq hquorum hreach i).2.1.length_le
    have hstorage : ∀ i, (s.stores i).storage
        = StorageLayer.replay (s'.raft.order.take (s.stores i).applied) := by
      intro i
      obtain ⟨rest, hrest⟩ := horder
      rw [← hrest, List.take_append_of_le_length (hle i)]
      exact (storage_eq hquorum hreach i).2.2
    obtain ⟨seen', hseen', hs'⟩ :=
      (hs.mono horder hle).step hl (fun i => (hsourced.stores i).queueing) hstorage
    exact ⟨seen', by rw [hseen', hseen, hhistory], hs'⟩

/-- The positions lie in the order, and explain the replies. -/
theorem explains (h : Seen s s.raft.order seen)
    (hquorum : ∀ i, n < 2 * getQuorumLength (C.conf i))
    (hreach : (storeClusterSystem C).Reachable (OnNodes (Lift ExtendOk)) s) :
    (∀ p ∈ seen, p.2 ≤ s.raft.order.length ∧ ReadAt s.raft.order p.2 p.1.key p.1.text) ∧
      seen.Pairwise fun p p' => p.1.SameClient p'.1 → p.2 ≤ p'.2 := by
  refine ⟨fun p hp => ⟨?_, (h.replies p hp).2⟩, h.ordered⟩
  obtain ⟨hle, hpre, _⟩ := storage_eq hquorum hreach p.1.store
  exact (h.replies p hp).1.trans (hle.trans hpre.length_le)

end Seen
end StoreCluster

/-- **Reads are consistent.**  In a run whose steps all meet `ExtendOk`, with quorums that
are majorities, take the replies to `get`s that the clients of all stores have got, in the
order they got them.  There is one order of writes, made of what clients have put on the channels,
such that every reply is what an empty storage answers after a beginning of that order, and
the replies over one connection come from beginnings that do not get shorter. -/
theorem reads_consistent (hquorum : ∀ i, n < 2 * getQuorumLength (C.conf i))
    {history : List (ReadReply n)}
    (h : ((storeClusterSystem C).record readReply).Reachable
      (System.OnState (OnNodes (Lift ExtendOk))) (s, history)) :
    ∃ order : List (LogEntry Operation), (∀ e ∈ order, s.Put e.value) ∧
      ∃ seen : List (ReadReply n × Nat), seen.map Prod.fst = history ∧
        (∀ p ∈ seen, p.2 ≤ order.length ∧ ReadAt order p.2 p.1.key p.1.text) ∧
        seen.Pairwise fun p p' => p.1.SameClient p'.1 → p.2 ≤ p'.2 := by
  have hreach := h.of_record
  obtain ⟨seen, hseen, hs⟩ := Seen.of_reachable hquorum h
  exact ⟨s.raft.order, fun e he => put_of_mem_order (.of_reachable hreach) he, seen, hseen,
    hs.explains hquorum hreach⟩

/-- The clients of both stores read what the first has written. -/
theorem reads_consistent_writeAndRead : ∃ (s : StoreCluster duo) (history : List (ReadReply 2))
    (order : List (LogEntry Operation)) (seen : List (ReadReply 2 × Nat)),
    history.map ReadReply.text = [quoted ['b'], quoted ['b']] ∧ seen.map Prod.fst = history ∧
      (∀ p ∈ seen, ReadAt order p.2 p.1.key p.1.text) ∧ ∀ e ∈ order, s.Put e.value := by
  obtain ⟨⟨s, history⟩, hs, htexts⟩ := System.exec_any
    ((storeClusterSystem duo).record readReply) (System.OnState (OnNodes (Lift ExtendOk)))
    (.start₀ duo, []) writeAndRead
    (P := fun m => m.2.map ReadReply.text = [quoted ['b'], quoted ['b']]) (by decide +kernel)
  obtain ⟨order, hput, seen, hseen, hreplies, _⟩ := reads_consistent
    (duo.lt_two_mul_getQuorumLength (by decide))
    ⟨_, ⟨StoreCluster.init_start₀ duo, rfl⟩, hs⟩
  exact ⟨s, history, order, seen, htexts, hseen, fun p hp => (hreplies p hp).2, hput⟩

/-! ## What clients write -/

/-- Where no request truncates a log, none truncates it at a given position. -/
theorem Node.truncates_of_shortAppend {T : Type} {node : Node T} {action : Action T}
    (h : shortAppend node action = false) (position : Nat) :
    node.truncates action position = false := by
  unfold Node.truncates
  split
  · rename_i req hhandled
    cases haccept : Server.accepts node.state req with
    | false => rfl
    | true => simp [not_lt.2 (le_of_shortAppend h hhandled haccept)]
  · rfl

/-- Such a step truncates no command that was appended. -/
theorem cutsCommand_of_shortAppend {t : KVStore} {a : StoreAction}
    (h : ∀ env action, a = .node env action → shortAppend t.raft action = false) :
    cutsCommand t a = false := by
  cases a with
  | node env action =>
    refine List.any_eq_false.2 fun p _ => ?_
    rw [Node.truncates_of_shortAppend (h env action rfl)]
    exact Bool.false_ne_true
  | _ => rfl

namespace StoreCluster

/-- The commands that a node has appended are in its log. -/
theorem appended_inLog (h : (storeClusterSystem C).Reachable (OnNodes (Lift ExtendOk)) s)
    (i : Fin n) : (s.stores i).InLog := by
  revert i
  refine h.invariant (I := fun s => ∀ i, (s.stores i).InLog) ?_ ?_
  · rintro s ⟨boot, rfl⟩ i
    exact ⟨by simp [start, KVStore.start], by simp [start, KVStore.start]⟩
  · intro s l s' _ hs hok hl i
    obtain ⟨action, haction, hstep, hothers⟩ := step_store hl
    by_cases hi : i = l.node
    · subst hi
      refine (hs _).step (KVStore.step_sound hstep)
        (cutsCommand_of_shortAppend fun env act hact => ?_)
      subst hact
      unfold action at haction
      split at haction
      · rename_i env' input hinput
        obtain ⟨act', hresolve, heq⟩ := Option.map_eq_some_iff.1 haction
        cases heq
        have hlabel : (⟨l.node, env, input⟩ : Label n Operation) ∈ s.raftLabel l := by
          simp [raftLabel, hinput]
        exact (hok _ hlabel act hresolve).returnOk.2
      · rename_i task hinput
        cases haction
        change s.step l = some s' at hl
        simp [step, hinput] at hl
    · rw [hothers i hi]
      exact hs i

end StoreCluster

/-- **Writes are decided.**  In a run whose steps all meet `ExtendOk`, with quorums that are
majorities, a command that a store has appended, and its node has committed, has its place
in the order of the writes for good: at every later moment each store that has got beyond
this place has applied the command there. -/
theorem writes_decided (hquorum : ∀ i, n < 2 * getQuorumLength (C.conf i))
    (hs : (storeClusterSystem C).Reachable (OnNodes (Lift ExtendOk)) s)
    (h : (storeClusterSystem C).Steps (OnNodes (Lift ExtendOk)) s s') {i : Fin n} {p : Placed}
    (hp : p ∈ (s.stores i).appended)
    (hcommit : p.position < (s.stores i).raft.state.commitedIndex) :
    ∃ e, e.value = p.op ∧ s'.raft.order[p.position]? = some e ∧
      ∀ j, p.position < (s'.stores j).applied →
        (s'.stores j).raft.delivered[p.position]? = some (p.position, e) := by
  obtain ⟨entry, hentry, hvalue⟩ := Option.map_eq_some_iff.1
    ((appended_inLog hs i).stored p hp)
  have hs' := hs.steps h
  have horder : s'.raft.order[p.position]? = some entry := by
    have hcommitted : (s.raft.committed i)[p.position]? = some entry := by
      have hlt : p.position < (s.raft.nodes i).state.commitedIndex := hcommit
      rw [Cluster.committed, List.getElem?_take_of_lt hlt]
      exact hentry
    have hpre := (Cluster.committed_isPrefix_order hquorum (reachable_raft hs) i).trans
      (order_isPrefix hquorum hs h)
    exact getElem?_of_isPrefix hpre hcommitted
  refine ⟨entry, hvalue, horder, fun j hj => ?_⟩
  obtain ⟨hle, hpre, _⟩ := storage_eq hquorum hs' j
  have hr : s'.raft.ReturnSound := .of_reachable (fun _ _ hok => hok.returnOk) (reachable_raft hs')
  have hlt : p.position < (s'.raft.nodes j).state.commitedIndex := by
    have hlen : (s'.raft.committed j).length ≤ (s'.raft.nodes j).state.commitedIndex :=
      List.length_take_le _ _
    omega
  obtain ⟨e, he, hdelivered⟩ := hr.delivered_getElem? hlt
  have hcommitted : (s'.raft.committed j)[p.position]? = some e := by
    rw [Cluster.committed, List.getElem?_take_of_lt hlt, he]
  have hsame := (getElem?_of_isPrefix hpre hcommitted).symm.trans horder
  exact Option.some.inj hsame ▸ hdelivered

/-- The follower of two stores has applied the write that its leader has committed. -/
theorem writes_decided_writeAndRead : ∃ s : StoreCluster duo, ∃ p ∈ (s.stores 0).appended,
    p.op = .set ['a'] ['b'] ∧
      ∃ e, e.value = p.op ∧ (s.stores 1).raft.delivered[p.position]? = some (p.position, e) := by
  obtain ⟨s, hs, happended, hcommit, happlied⟩ := System.exec_any (storeClusterSystem duo)
    (OnNodes (Lift ExtendOk)) (.start₀ duo) writeAndRead
    (P := fun s => (s.stores 0).appended.map (fun p => (p.op, p.position))
        = [(.set ['a'] ['b'], 0)] ∧
      0 < (s.stores 0).raft.state.commitedIndex ∧ 0 < (s.stores 1).applied)
    (by decide +kernel)
  obtain ⟨p, hp, heq⟩ : ∃ p ∈ (s.stores 0).appended,
      (p.op, p.position) = (.set ['a'] ['b'], 0) :=
    List.mem_map.1 (happended ▸ List.mem_singleton_self _)
  obtain ⟨hop, hposition⟩ := Prod.mk.inj heq
  obtain ⟨e, hvalue, _, hdelivered⟩ := writes_decided
    (duo.lt_two_mul_getQuorumLength (by decide)) ⟨_, StoreCluster.init_start₀ duo, hs⟩
    (.refl _ _ s) hp (hposition ▸ hcommit)
  exact ⟨s, p, hp, hop, e, hvalue, hdelivered 1 (hposition ▸ happlied)⟩

end Quaso
