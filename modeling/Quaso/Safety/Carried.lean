import Mathlib.Data.List.Forall2
import Quaso.Raft.Stream
import Quaso.Safety.Answers

/-!
# A stream and its connection

The bytes of a stream, wherever they are, are those of the connection that the cluster of
`Quaso.Raft.Cluster` has in its place.

* `Carried` — a stream stands for a connection.
* `Carried.request_cases` — what a listener has read at the end of the stream is the request
  that was sent, or no request.
* `Carried.down_cases` — what a sender has read is the response that was written, or none.
-/

namespace Quaso

variable {T : Type}

/-! ## The bytes of a response -/

namespace Node

variable {m : Node T}

/-- The bytes of a response: none, or those of a response to what the listener has read. -/
theorem responseBytes_cases (codec : MessageCodec T) (conf : Config) (env : Env) {cid : Nat}
    {req : RequestPattern T} (hlistener : m.listener = .handling cid req) :
    m.responseBytes codec conf env = [] ∨ ∃ resp, resp.Answers req ∧
      m.responseBytes codec conf env = codec.encodeResponse resp := by
  unfold responseBytes
  split
  · rename_i n d resp hstep
    rcases (step_sound hstep).effect_cases with h | ⟨_, _, _, h, _⟩ |
      ⟨_, _, resp', req', _, heffect, hlistener', hanswers⟩
    · cases h
    · cases h
    · cases heffect
      rw [hlistener] at hlistener'
      cases hlistener'
      exact Or.inr ⟨resp, hanswers, rfl⟩
  · exact Or.inl rfl

end Node

/-! ## Streams and connections -/

/-- No piece of the bytes is a response to the request. -/
def MessageCodec.Silent (codec : MessageCodec T) (req : RequestPattern T) (bytes : Bytes) : Prop :=
  match req with
  | .ping _ => True
  | .appendEntries _ => codec.appendResponse bytes = none
  | .requestVote _ => codec.voteResponse bytes = none

/-- A stream stands for a connection. -/
structure Carried {n : Nat} (codec : MessageCodec T) (st : Stream n) (c : Connection n T) :
    Prop where
  dst : st.dst = c.dst
  /-- The request is in the three places, as far as it can be serialized. -/
  request : ∀ bytes, codec.encodeRequest c.req = some bytes →
    st.got ++ st.up ++ st.unsent = bytes
  refused : codec.encodeRequest c.req = none → st.accepted = true
  taken : c.taken = true → st.accepted = true
  written : ∀ resp, c.resp = some resp →
    resp.Answers c.req ∧ st.down = codec.encodeResponse resp
  silent : c.resp = none → ∀ count, codec.Silent c.req (st.down.take count)

namespace MessageCodec

variable (codec : MessageCodec T) {req : RequestPattern T} {resp : Response}

/-- A proper beginning of a response is none. -/
theorem silent_short (resp : Response) (h : resp.Answers req) {count : Nat}
    (hcount : count < (codec.encodeResponse resp).length) :
    codec.Silent req ((codec.encodeResponse resp).take count) := by
  cases resp with
  | ping resp =>
    obtain ⟨r, rfl⟩ := h
    trivial
  | appendEntries resp =>
    obtain ⟨r, rfl⟩ := h
    exact codec.append_short resp hcount
  | requestVote resp =>
    obtain ⟨r, rfl⟩ := h
    exact codec.vote_short resp hcount

/-- No bytes are no response. -/
theorem silent_nil (req : RequestPattern T) : codec.Silent req [] := by
  have hpos : ∀ resp, 0 < (codec.encodeResponse resp).length := fun resp =>
    List.length_pos_iff.2 (codec.response_ne_nil resp)
  cases req with
  | ping req => trivial
  | appendEntries req =>
    exact codec.silent_short (.appendEntries ⟨0, 0, false⟩) ⟨req, rfl⟩ (hpos _)
  | requestVote req =>
    exact codec.silent_short (.requestVote ⟨0, 0, false⟩) ⟨req, rfl⟩ (hpos _)

end MessageCodec

/-- The stream that `Client::send` opens stands for the connection that is opened. -/
theorem Carried.connect {n : Nat} (codec : MessageCodec T) (src : Fin n) (dst : Addr)
    (req : RequestPattern T) :
    Carried codec (Stream.connect codec src dst req) ⟨src, dst, req, false, none⟩ := by
  have hsilent : ∀ count, codec.Silent req (([] : Bytes).take count) := fun count => by
    rw [List.take_nil]
    exact codec.silent_nil req
  unfold Stream.connect
  cases hencode : codec.encodeRequest req with
  | some bytes =>
    refine ⟨rfl, ?_, ?_, nofun, nofun, fun _ => hsilent⟩
    · intro bytes' h
      rw [hencode] at h
      simpa using Option.some.inj h
    · intro h
      rw [hencode] at h
      cases h
  | none =>
    refine ⟨rfl, ?_, fun _ => rfl, nofun, nofun, fun _ => hsilent⟩
    intro bytes h
    rw [hencode] at h
    cases h

namespace Carried

variable {n : Nat} {codec : MessageCodec T} {st st' : Stream n} {c : Connection n T}

/-- Bytes move on, and the connection is the same. -/
theorem of_bytes (h : Carried codec st c) (hdst : st'.dst = st.dst)
    (haccepted : st.accepted = true → st'.accepted = true) (hdown : st'.down = st.down)
    (hbytes : st'.got ++ st'.up ++ st'.unsent = st.got ++ st.up ++ st.unsent) :
    Carried codec st' c where
  dst := hdst.trans h.dst
  request := fun bytes hencode => hbytes.trans (h.request bytes hencode)
  refused := fun hencode => haccepted (h.refused hencode)
  taken := fun htaken => haccepted (h.taken htaken)
  written := by
    rw [hdown]
    exact h.written
  silent := by
    rw [hdown]
    exact h.silent

/-- The listener has read the request. -/
theorem take (h : Carried codec st c) (haccepted : st.accepted = true) :
    Carried codec st { c with taken := true } :=
  { h with taken := fun _ => haccepted }

/-- The handler has written its response. -/
theorem respond (h : Carried codec st c) {resp : Response} (hanswers : resp.Answers c.req) :
    Carried codec { st with down := codec.encodeResponse resp, downShut := true }
      { c with resp := some resp } :=
  { h with
    written := fun _ hresp => Option.some.inj hresp ▸ ⟨hanswers, rfl⟩
    silent := nofun }

/-- The handler has written no response, or a piece of one. -/
theorem cut (h : Carried codec st c) (hresp : c.resp = none) {bytes : Bytes}
    (hsilent : ∀ count, codec.Silent c.req (bytes.take count)) :
    Carried codec { st with down := bytes, downShut := true } c :=
  { h with
    written := fun resp hsome => by
      rw [hresp] at hsome
      cases hsome
    silent := fun _ => hsilent }

/-- What the listener has read at the end of the stream is the request, or no request. -/
theorem request_cases (h : Carried codec st c) (hup : st.up = []) {bytes : Bytes}
    (hencode : codec.encodeRequest c.req = some bytes) :
    codec.request st.got = some c.req ∨ codec.request st.got = none := by
  have hall := h.request bytes hencode
  rw [hup, List.append_nil] at hall
  cases hunsent : st.unsent with
  | nil =>
    rw [hunsent, List.append_nil] at hall
    rw [hall]
    exact Or.inl (codec.request_encode hencode)
  | cons byte rest =>
    have hshort : st.got.length < bytes.length := by
      rw [← hall, hunsent, List.length_append, List.length_cons]
      omega
    have htake : bytes.take st.got.length = st.got := by
      rw [← hall, List.take_left]
    exact Or.inr (htake ▸ codec.request_short hencode hshort)

/-- What the sender has read is the response, or none. -/
theorem down_cases (h : Carried codec st c) (count : Nat) :
    codec.Silent c.req (st.down.take count) ∨
      ∃ resp, c.resp = some resp ∧ resp.Answers c.req ∧
        st.down.take count = codec.encodeResponse resp := by
  cases hresp : c.resp with
  | none => exact Or.inl (h.silent hresp count)
  | some resp =>
    obtain ⟨hanswers, hdown⟩ := h.written resp hresp
    rcases Nat.lt_or_ge count st.down.length with hlt | hge
    · rw [hdown] at hlt ⊢
      exact Or.inl (codec.silent_short resp hanswers hlt)
    · exact Or.inr ⟨resp, rfl, hanswers, by rw [List.take_of_length_le hge, hdown]⟩

end Carried

/-! ## Lists in step -/

section InStep

variable {α β : Type} {R : α → β → Prop} {as : List α} {bs : List β}

theorem forall₂_getElem? (h : List.Forall₂ R as bs) {k : Nat} {a : α} (ha : as[k]? = some a) :
    ∃ b, bs[k]? = some b ∧ R a b := by
  induction h generalizing k with
  | nil => cases ha
  | cons hab _ ih =>
    cases k with
    | zero =>
      obtain rfl := Option.some.inj ha
      exact ⟨_, rfl, hab⟩
    | succ k => exact ih ha

/-- Lists stay in step where both change at one position. -/
theorem forall₂_modify (h : List.Forall₂ R as bs) {k : Nat} {f : α → α} {g : β → β}
    (hfg : ∀ a b, as[k]? = some a → bs[k]? = some b → R a b → R (f a) (g b)) :
    List.Forall₂ R (as.modify k f) (bs.modify k g) := by
  induction h generalizing k with
  | nil =>
    rw [List.modify_nil, List.modify_nil]
    exact .nil
  | cons hab hrest ih =>
    cases k with
    | zero => exact .cons (hfg _ _ rfl rfl hab) hrest
    | succ k => exact .cons hab (ih fun a b ha hb => hfg a b ha hb)

/-- Lists stay in step where one changes at one position. -/
theorem forall₂_modify_left (h : List.Forall₂ R as bs) {k : Nat} {f : α → α}
    (hf : ∀ a b, as[k]? = some a → bs[k]? = some b → R a b → R (f a) b) :
    List.Forall₂ R (as.modify k f) bs := by
  have h' := forall₂_modify h (g := id) hf
  rwa [List.modify_id] at h'

theorem forall₂_modify_right (h : List.Forall₂ R as bs) {k : Nat} {g : β → β}
    (hg : ∀ a b, as[k]? = some a → bs[k]? = some b → R a b → R a (g b)) :
    List.Forall₂ R as (bs.modify k g) := by
  have h' := forall₂_modify h (f := id) hg
  rwa [List.modify_id] at h'

end InStep

end Quaso
