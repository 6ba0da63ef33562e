import Quaso.Lib.Codec
import Quaso.Raft.Stream

/-!
# The messages in bincode

The format of `bincode::serialize` at the types of `raft/src/server/rpc.rs`: the fields of a
structure in their order, the numbers in their width with the low byte first, a vector with
its length in front, and an enumeration with the number of its variant in front.
`bincode::deserialize` does not mind what comes after the value.

* `Bincode.request`, `Bincode.appendResponse`, `Bincode.voteResponse`,
  `Bincode.pingResponse` — the formats of the messages.
* `bincode` — a `MessageCodec` for commands that have a format.
-/

namespace Quaso

variable {T : Type}

namespace Bincode

/-! ## The scalars -/

def nodeTerm : Codec NodeTerm :=
  (Codec.word 4).embed (Fin.ofNat _) (fun term => some term.val) (by
    intro value term h
    obtain rfl := Option.some.inj h
    exact Fin.ofNat_val_eq_self term)

def nodeId : Codec NodeId :=
  (Codec.word 8).embed UInt64.ofNat (fun id => some id.toNat) (by
    intro value id h
    obtain rfl := Option.some.inj h
    exact UInt64.ofNat_toNat)

theorem nodeTerm_fits (term : NodeTerm) : nodeTerm.fits term = true :=
  decide_eq_true term.isLt

theorem nodeId_fits (id : NodeId) : nodeId.fits id = true :=
  decide_eq_true id.toNat_lt

/-! ## The messages -/

def logEntry (V : Codec T) : Codec (LogEntry T) :=
  (V.seq nodeTerm).embed (fun (value, term) => ⟨value, term⟩)
    (fun entry => some (entry.value, entry.term)) (by
      rintro _ _ h
      cases h
      rfl)

def pingRequest : Codec PingRequest :=
  (nodeTerm.seq nodeId).embed (fun (term, nodeId) => ⟨term, nodeId⟩)
    (fun req => some (req.term, req.nodeId)) (by
      rintro _ _ h
      cases h
      rfl)

def voteRequest : Codec ElectionVoteRequest :=
  (nodeTerm.seq (nodeId.seq ((Codec.word 8).seq nodeTerm))).embed
    (fun (term, candidateId, lastLogIndex, lastLogTerm) =>
      ⟨term, candidateId, lastLogIndex, lastLogTerm⟩)
    (fun req => some (req.term, req.candidateId, req.lastLogIndex, req.lastLogTerm)) (by
      rintro _ _ h
      cases h
      rfl)

def appendRequest (V : Codec T) : Codec (AppendEntriesRequest T) :=
  (nodeTerm.seq (nodeId.seq ((Codec.word 8).seq
      (nodeTerm.seq ((logEntry V).list.seq (Codec.word 8)))))).embed
    (fun (term, leaderId, prevLogIndex, prevLogTerm, entries, leaderCommit) =>
      ⟨term, leaderId, prevLogIndex, prevLogTerm, entries, leaderCommit⟩)
    (fun req => some (req.term, req.leaderId, req.prevLogIndex, req.prevLogTerm, req.entries,
      req.leaderCommit)) (by
      rintro _ _ h
      cases h
      rfl)

def pingResponse : Codec PingResponse :=
  (nodeTerm.seq nodeId).embed (fun (term, nodeId) => ⟨term, nodeId⟩)
    (fun resp => some (resp.term, resp.nodeId)) (by
      rintro _ _ h
      cases h
      rfl)

def appendResponse : Codec AppendEntriesResponse :=
  (nodeId.seq (nodeTerm.seq Codec.bool)).embed
    (fun (nodeId, term, success) => ⟨nodeId, term, success⟩)
    (fun resp => some (resp.nodeId, resp.term, resp.success)) (by
      rintro _ _ h
      cases h
      rfl)

def voteResponse : Codec ElectionVoteResponse :=
  (nodeId.seq (nodeTerm.seq Codec.bool)).embed
    (fun (nodeId, term, voteGranted) => ⟨nodeId, term, voteGranted⟩)
    (fun resp => some (resp.nodeId, resp.term, resp.voteGranted)) (by
      rintro _ _ h
      cases h
      rfl)

/-- The numbers of the variants of `RequestPattern`. -/
def variant : RequestPattern T → Nat
  | .ping _ => 0
  | .appendEntries _ => 1
  | .requestVote _ => 2

def request (V : Codec T) : Codec (RequestPattern T) :=
  Codec.variants
    [pingRequest.embed RequestPattern.ping
      (fun | .ping req => some req | _ => none)
      (by
        rintro _ (_ | _ | _) h <;> cases h
        rfl),
     (appendRequest V).embed RequestPattern.appendEntries
      (fun | .appendEntries req => some req | _ => none)
      (by
        rintro _ (_ | _ | _) h <;> cases h
        rfl),
     voteRequest.embed RequestPattern.requestVote
      (fun | .requestVote req => some req | _ => none)
      (by
        rintro _ (_ | _ | _) h <;> cases h
        rfl)]
    variant

/-- A response always fits. -/
theorem appendResponse_fits (resp : AppendEntriesResponse) : appendResponse.fits resp = true := by
  have hid := nodeId_fits resp.nodeId
  have hterm := nodeTerm_fits resp.term
  simp [appendResponse, Codec.embed, Codec.seq, hid, hterm, Codec.bool]

theorem voteResponse_fits (resp : ElectionVoteResponse) : voteResponse.fits resp = true := by
  have hid := nodeId_fits resp.nodeId
  have hterm := nodeTerm_fits resp.term
  simp [voteResponse, Codec.embed, Codec.seq, hid, hterm, Codec.bool]

end Bincode

/-- bincode at the messages, for commands that have a format. -/
def bincode (V : Codec T) : MessageCodec T where
  request := (Bincode.request V).read
  appendResponse := Bincode.appendResponse.read
  voteResponse := Bincode.voteResponse.read
  encodeRequest req :=
    if (Bincode.request V).fits req then some ((Bincode.request V).encode req) else none
  encodeResponse
    | .ping resp => Bincode.pingResponse.encode resp
    | .appendEntries resp => Bincode.appendResponse.encode resp
    | .requestVote resp => Bincode.voteResponse.encode resp
  request_encode h := by
    obtain ⟨hfits, heq⟩ := Option.ite_none_right_eq_some.1 h
    obtain rfl := Option.some.inj heq
    exact Codec.read_encode _ hfits
  request_short h hk := by
    obtain ⟨hfits, heq⟩ := Option.ite_none_right_eq_some.1 h
    obtain rfl := Option.some.inj heq
    exact Codec.read_short _ hfits hk
  request_ne_nil h := by
    obtain ⟨_, heq⟩ := Option.ite_none_right_eq_some.1 h
    obtain rfl := Option.some.inj heq
    exact Codec.variants_encode_ne_nil _ _ _
  response_ne_nil resp := by
    cases resp <;> exact List.cons_ne_nil _ _
  append_encode resp := Codec.read_encode _ (Bincode.appendResponse_fits resp)
  append_short resp _ hk := Codec.read_short _ (Bincode.appendResponse_fits resp) hk
  vote_encode resp := Codec.read_encode _ (Bincode.voteResponse_fits resp)
  vote_short resp _ hk := Codec.read_short _ (Bincode.voteResponse_fits resp) hk

/-- A vote request of term 1 by node 2 with an empty log. -/
example : (bincode (Codec.word 4)).encodeRequest (.requestVote ⟨1, 2, 0, 0⟩)
    = some ([2, 0, 0, 0] ++ [1, 0, 0, 0] ++ [2, 0, 0, 0, 0, 0, 0, 0] ++ List.replicate 12 0) := by
  decide +kernel

end Quaso
