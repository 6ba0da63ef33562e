import Quaso.Lib.TransitionSystem
import Quaso.Kv.Session

/-!
# Where one command ends

Neither program of a `Session` marks the end of what it writes; each takes what
one read returns as the whole.

* `WholeOk` — the steps that keep the two in step: a read leaves nothing pending,
  and no `set` without a value is sent.
* `Session.Framed` — one operation for every line, and one reply.
* `Session.Orderly` — the four situations between which a session then goes
  round.
* `framed` — the framing along a run; `exchange_steps` — every line that fits into one
  read can be exchanged so.
-/

namespace Quaso

variable {spare : Nat} {c c' : Session} {e : SessionEvent}

/-! ## The condition -/

/-- A read returns less than what is pending. -/
def cutsShort (c : Session) : SessionEvent → Bool
  | .serve count _ _ => decide (count < c.toServer.length)
  | .read count => decide (count < c.toClient.length)
  | _ => false

/-- A line is entered on which the parser panics. -/
def entersIncomplete : SessionEvent → Bool
  | .enter line => lacksValue line
  | _ => false

/-- The steps that keep one reply to a line. -/
def WholeOk (c : Session) (e : SessionEvent) : Prop :=
  cutsShort c e = false ∧ entersIncomplete e = false

/-! ## The framing -/

/-- The task executes the lines and the CLI shows their replies, one by one. -/
structure Session.Framed (c : Session) : Prop where
  alive : c.handler ≠ .aborted
  /-- The operations executed are those of the lines, in their order. -/
  executed : c.executed.map (fun x => some x.1) <+: c.lines.map Operation.parseCommand
  /-- Every line is executed once it is read. -/
  served : c.toServer = [] → c.executed.length = c.lines.length
  /-- A line is shown with the reply to its operation. -/
  paired : c.shown <+: c.lines.zip (c.executed.map Prod.snd)
  /-- Every line is shown, unless the CLI waits for the reply. -/
  answered : (∀ line, c.cli ≠ .waiting line) → c.shown.length = c.lines.length

/-- A line that has been executed and answered. -/
structure Exchange where
  line : Text
  op : Operation
  reply : Text

/-- The operation is what the line says. -/
def Exchange.Valid (x : Exchange) : Prop := Operation.parseCommand x.line = some x.op

/-- The situations of a session whose reads are whole. -/
inductive Session.Orderly : Session → Prop
  | greeting (leader : Bool) : Orderly (.start leader)
  /-- Every line is answered. -/
  | settled (xs : List Exchange) (hxs : ∀ x ∈ xs, x.Valid) (handler : Handler) (cli : Cli)
      (hends : cli = .prompt ∧ handler = .serving ∨ cli = .stopped ∧ handler ≠ .aborted) :
      Orderly
        { toServer := []
          toClient := []
          handler := handler
          cli := cli
          lines := xs.map Exchange.line
          executed := xs.map fun x => (x.op, x.reply)
          shown := xs.map fun x => (x.line, x.reply) }
  /-- A line has been sent and not read. -/
  | sent (xs : List Exchange) (hxs : ∀ x ∈ xs, x.Valid) (line : Text) (op : Operation)
      (hline : line ≠ []) (hparse : Operation.parseCommand line = some op) :
      Orderly
        { toServer := encode line
          toClient := []
          handler := .serving
          cli := .waiting line
          lines := xs.map Exchange.line ++ [line]
          executed := xs.map fun x => (x.op, x.reply)
          shown := xs.map fun x => (x.line, x.reply) }
  /-- A line has been executed and its reply not read. -/
  | executed (xs : List Exchange) (hxs : ∀ x ∈ xs, x.Valid) (x : Exchange) (hx : x.Valid)
      (hreply : trim x.reply = x.reply) :
      Orderly
        { toServer := []
          toClient := encode x.reply
          handler := .serving
          cli := .waiting x.line
          lines := xs.map Exchange.line ++ [x.line]
          executed := (xs.map fun x => (x.op, x.reply)) ++ [(x.op, x.reply)]
          shown := xs.map fun x => (x.line, x.reply) }

/-! ## Whole texts -/

/-- A text between two characters that are no whitespace is not trimmed. -/
theorem trim_eq_self {first last : Char} {text : Text} (hfirst : isWhitespace first = false)
    (hlast : isWhitespace last = false) :
    trim (first :: text ++ [last]) = first :: text ++ [last] := by
  rw [trim, List.cons_append, List.dropWhile_cons_of_neg (by simp [hfirst]), ← List.cons_append,
    List.rdropWhile_concat_neg _ _ _ (by simp [hlast])]

/-- The CLI shows a reply as it was written. -/
theorem trim_reply (leader : Bool) (sl : StorageLayer) (op : Operation) :
    trim (reply leader sl op) = reply leader sl op := by
  have hwrite : ∀ leader : Bool, trim (if leader then okReply else notLeaderReply)
      = if leader then okReply else notLeaderReply := by decide
  cases op with
  | get key =>
    unfold reply getReply
    simp only
    split
    · exact trim_eq_self (by decide) (by decide)
    · decide
  | set key value => exact hwrite leader
  | delete key => exact hwrite leader
  | invalid => exact hwrite leader

theorem reply_ne_nil (leader : Bool) (sl : StorageLayer) (op : Operation) :
    reply leader sl op ≠ [] := by
  cases op with
  | get key =>
    unfold reply getReply
    simp only
    split <;> simp [quoted, undefinedReply]
  | _ => cases leader <;> simp [reply, okReply, notLeaderReply]

@[simp] theorem handleResp_encode (text : Text) : handleResp (encode text) = some (trim text) := by
  rw [handleResp, fromUtf8_encode, Option.map_some]

/-- A line that the CLI sends is not empty. -/
theorem ne_nil_of_validate {line : Text} (h : (validate line).isSome = true) : line ≠ [] := by
  rintro rfl
  exact absurd h (by decide)

/-- A line that may be entered is executed as it reads. -/
theorem parseCommand_of_complete {line : Text} (h : lacksValue line = false) :
    ∃ op, Operation.parseCommand line = some op := by
  refine Option.ne_none_iff_exists'.1 fun hnone => ?_
  rw [Operation.parseCommand_eq_none_iff.1 hnone] at h
  cases h

/-- A read that leaves nothing pending takes all. -/
theorem take_of_readable {count : Nat} {pending : Bytes} (h : readable spare count pending = true)
    (hwhole : ¬ count < pending.length) :
    pending ≠ [] ∧ pending.take count = pending ∧ pending.drop count = [] := by
  unfold readable at h
  simp only [Bool.and_eq_true, decide_eq_true_eq] at h
  refine ⟨?_, List.take_of_length_le (by omega), List.drop_of_length_le (by omega)⟩
  rintro rfl
  simp only [List.length_nil] at h
  omega

/-! ## Steps -/

/-- The task executes a whole line. -/
theorem Session.Orderly.serve {count : Nat} {leader : Bool} {sl : StorageLayer} (h : c.Orderly)
    (hok : WholeOk c (.serve count leader sl))
    (hstep : c.step spare (.serve count leader sl) = some c') : c'.Orderly := by
  simp only [Session.step] at hstep
  split at hstep
  · rename_i hserve
    have hwhole : ¬ count < c.toServer.length := by simpa [cutsShort] using hok.1
    obtain ⟨hne, htake, hdrop⟩ := take_of_readable hserve.2 hwhole
    rw [htake, hdrop] at hstep
    cases h with
    | greeting leader => exact absurd rfl hne
    | settled xs hxs handler cli hends => exact absurd rfl hne
    | executed xs hxs x hx hreply => exact absurd rfl hne
    | sent xs hxs line op hline hparse =>
      simp only [handleClient, fromUtf8_encode, hparse, List.nil_append, Option.some.injEq] at hstep
      subst hstep
      exact .executed xs hxs ⟨line, op, reply leader sl op⟩ hparse (trim_reply leader sl op)
  · cases hstep

/-- The CLI reads a whole greeting or reply. -/
theorem Session.Orderly.read {count : Nat} (h : c.Orderly) (hok : WholeOk c (.read count))
    (hstep : c.step spare (.read count) = some c') : c'.Orderly := by
  simp only [Session.step] at hstep
  split at hstep
  · rename_i hread
    have hwhole : ¬ count < c.toClient.length := by simpa [cutsShort] using hok.1
    obtain ⟨hne, htake, hdrop⟩ := take_of_readable hread hwhole
    rw [htake, hdrop] at hstep
    cases h with
    | settled xs hxs handler cli hends => exact absurd rfl hne
    | sent xs hxs line op hline hparse => exact absurd rfl hne
    | greeting leader =>
      simp only [Session.start, handleResp_encode, Option.some.injEq] at hstep
      subst hstep
      exact .settled [] (by simp) .serving .prompt (Or.inl ⟨rfl, rfl⟩)
    | executed xs hxs x hx hreply =>
      simp only [handleResp_encode, hreply, Option.some.injEq] at hstep
      subst hstep
      have hsettled := Session.Orderly.settled (xs ++ [x])
        (by simpa [or_imp, forall_and] using ⟨hxs, hx⟩) .serving .prompt (Or.inl ⟨rfl, rfl⟩)
      simpa using hsettled
  · cases hstep

/-- The CLI gets a line at its prompt, and sends it or not. -/
theorem Session.Orderly.enter {line : Text} (h : c.Orderly) (hok : WholeOk c (.enter line))
    (hstep : c.step spare (.enter line) = some c') : c'.Orderly := by
  simp only [Session.step] at hstep
  split at hstep
  · rename_i hprompt
    split at hstep
    · rename_i hvalid
      obtain ⟨op, hparse⟩ := parseCommand_of_complete hok.2
      cases h with
      | greeting leader => cases hprompt
      | sent => cases hprompt
      | executed => cases hprompt
      | settled xs hxs handler cli hends =>
        rcases hends with ⟨rfl, rfl⟩ | ⟨rfl, _⟩
        · cases hstep
          exact .sent xs hxs line op (ne_nil_of_validate hvalid) hparse
        · cases hprompt
    · cases hstep
      exact h
  · cases hstep

/-- One of the two programs ends. -/
theorem Session.Orderly.ends (h : c.Orderly) (he : e = .serveEnd ∨ e = .readEnd ∨ e = .exit)
    (hstep : c.step spare e = some c') : c'.Orderly := by
  cases h with
  -- neither can end while something is in flight
  | greeting leader =>
    rcases he with rfl | rfl | rfl <;> simp [Session.step, Session.start] at hstep
  | sent => rcases he with rfl | rfl | rfl <;> simp [Session.step] at hstep
  | executed => rcases he with rfl | rfl | rfl <;> simp [Session.step] at hstep
  | settled xs hxs handler cli hends =>
    rcases he with rfl | rfl | rfl
    · simp only [Session.step] at hstep
      split at hstep
      · rename_i hserve
        obtain ⟨-, -, rfl⟩ := hserve
        cases hstep
        exact .settled xs hxs .finished .stopped (Or.inr ⟨rfl, by decide⟩)
      · cases hstep
    · rcases hends with ⟨rfl, rfl⟩ | ⟨rfl, _⟩ <;> simp [Session.step] at hstep
    · simp only [Session.step] at hstep
      split at hstep
      · cases hstep
        refine .settled xs hxs handler .stopped (Or.inr ⟨rfl, ?_⟩)
        rcases hends with ⟨_, rfl⟩ | ⟨_, halive⟩
        · decide
        · exact halive
      · cases hstep

/-- **With whole reads a session goes round its four situations.** -/
theorem Session.Orderly.step (h : c.Orderly) (hok : WholeOk c e)
    (hstep : c.step spare e = some c') : c'.Orderly := by
  cases e with
  | serve count leader sl => exact h.serve hok hstep
  | read count => exact h.read hok hstep
  | enter line => exact h.enter hok hstep
  | serveEnd => exact h.ends (by simp) hstep
  | readEnd => exact h.ends (by simp) hstep
  | exit => exact h.ends (by simp) hstep

/-- In each of the situations the framing is kept. -/
theorem Session.Orderly.keepsFraming (h : c.Orderly) : c.Framed := by
  have hops : ∀ (xs : List Exchange) (rest : List Text), (∀ x ∈ xs, x.Valid) →
      (xs.map fun x => (x.op, x.reply)).map (fun y => some y.1)
        <+: (xs.map Exchange.line ++ rest).map Operation.parseCommand := by
    intro xs rest hxs
    have heq : (xs.map Exchange.line).map Operation.parseCommand
        = (xs.map fun x => (x.op, x.reply)).map fun y => some y.1 := by
      simp only [List.map_map]
      exact List.map_congr_left fun x hx => hxs x hx
    rw [List.map_append, heq]
    exact List.prefix_append _ _
  have hpairs : ∀ (xs : List Exchange) (rest : List Text) (rest' : List (Operation × Text)),
      (xs.map fun x => (x.line, x.reply)) <+: (xs.map Exchange.line ++ rest).zip
        (((xs.map fun x => (x.op, x.reply)) ++ rest').map Prod.snd) := by
    intro xs rest rest'
    rw [List.map_append, List.zip_append (by simp), List.map_map, List.zip_map']
    exact List.prefix_append _ _
  cases h with
  | greeting leader =>
    refine ⟨by simp [Session.start], ?_, fun _ => rfl, ?_, fun _ => rfl⟩ <;> simp [Session.start]
  | settled xs hxs handler cli hends =>
    refine ⟨?_, by simpa using hops xs [] hxs, by simp, by simpa using hpairs xs [] [], by simp⟩
    rcases hends with ⟨_, rfl⟩ | ⟨_, halive⟩
    · simp
    · exact halive
  | sent xs hxs line op hline hparse =>
    refine ⟨by simp, hops xs [line] hxs, by simp [hline], ?_, by simp⟩
    simpa using hpairs xs [line] []
  | executed xs hxs x hx hreply =>
    refine ⟨by simp, ?_, by simp, hpairs xs [x.line] [(x.op, x.reply)], by simp⟩
    have hall := hops (xs ++ [x]) [] (by simpa [or_imp, forall_and] using ⟨hxs, hx⟩)
    simpa using hall

/-! ## Runs -/

/-- A session at the prompt with nothing in flight. -/
def Session.atPrompt (lines : List Text) (executed : List (Operation × Text))
    (shown : List (Text × Text)) : Session :=
  ⟨[], [], .serving, .prompt, lines, executed, shown⟩

/-- A text that fits into one read can be read, whatever follows it. -/
theorem readable_encode {text : Text} (hne : text ≠ []) (hfits : (encode text).length ≤ spare)
    (rest : Bytes) : readable spare (encode text).length (encode text ++ rest) = true := by
  have hpos : 0 < (encode text).length := List.length_pos_of_ne_nil (by simpa using hne)
  simp [readable, hpos, hfits]

/-- A read of the task that ends where a command ends. -/
theorem Session.serve_eq (cmd : Text) (op : Operation) {rest : Bytes} (leader : Bool)
    (sl : StorageLayer) (hserver : c.toServer = encode cmd ++ rest)
    (hhandler : c.handler = .serving) (hne : cmd ≠ []) (hfits : (encode cmd).length ≤ spare)
    (hparse : Operation.parseCommand cmd = some op) :
    c.step spare (.serve (encode cmd).length leader sl) = some { c with
      toServer := rest
      toClient := c.toClient ++ encode (reply leader sl op)
      executed := c.executed ++ [(op, reply leader sl op)] } := by
  simp [Session.step, Session.handleClient, hserver, hhandler, readable_encode hne hfits, hparse]

/-- The CLI reads the whole greeting. -/
theorem Session.start_steps (leader : Bool) (hfits : (encode (greeting leader)).length ≤ spare) :
    (sessionSystem spare).Steps WholeOk (.start leader) (.atPrompt [] [] []) := by
  have hne : greeting leader ≠ [] := by cases leader <;> decide
  have hread : readable spare (encode (greeting leader)).length (encode (greeting leader)) = true :=
    by simpa using readable_encode hne hfits []
  refine Relation.ReflTransGen.single ⟨.read (encode (greeting leader)).length, ?_, ?_⟩
  · simp [WholeOk, cutsShort, entersIncomplete, Session.start]
  · simp [Session.step, Session.start, hread, Session.atPrompt]

/-- **One exchange.**  A line that fits into one read, and whose reply does, is sent,
executed and answered by whole reads. -/
theorem exchange_steps {line : Text} {op : Operation} (hvalid : (validate line).isSome = true)
    (hparse : Operation.parseCommand line = some op) (leader : Bool) (sl : StorageLayer)
    (hline : (encode line).length ≤ spare) (hreply : (encode (reply leader sl op)).length ≤ spare)
    (lines : List Text) (executed : List (Operation × Text)) (shown : List (Text × Text)) :
    (sessionSystem spare).Steps WholeOk (.atPrompt lines executed shown)
      (.atPrompt (lines ++ [line]) (executed ++ [(op, reply leader sl op)])
        (shown ++ [(line, reply leader sl op)])) := by
  have hvalue : lacksValue line = false := by
    rw [← Bool.not_eq_true, ← Operation.parseCommand_eq_none_iff, hparse]
    simp
  have henter : (sessionSystem spare).step (.atPrompt lines executed shown) (.enter line)
      = some ⟨encode line, [], .serving, .waiting line, lines ++ [line], executed, shown⟩ := by
    simp [Session.step, Session.atPrompt, hvalid]
  have hserve : (sessionSystem spare).step
      ⟨encode line, [], .serving, .waiting line, lines ++ [line], executed, shown⟩
      (.serve (encode line).length leader sl)
      = some ⟨[], encode (reply leader sl op), .serving, .waiting line, lines ++ [line],
        executed ++ [(op, reply leader sl op)], shown⟩ :=
    Session.serve_eq line op leader sl (List.append_nil _).symm rfl (ne_nil_of_validate hvalid)
      hline hparse
  have hread : (sessionSystem spare).step
      ⟨[], encode (reply leader sl op), .serving, .waiting line, lines ++ [line],
        executed ++ [(op, reply leader sl op)], shown⟩
      (.read (encode (reply leader sl op)).length)
      = some (.atPrompt (lines ++ [line]) (executed ++ [(op, reply leader sl op)])
        (shown ++ [(line, reply leader sl op)])) := by
    have hfits : readable spare (encode (reply leader sl op)).length (encode (reply leader sl op))
        = true := by simpa using readable_encode (reply_ne_nil leader sl op) hreply []
    simp [Session.step, hfits, trim_reply, Session.atPrompt]
  exact .head ⟨.enter line, ⟨rfl, hvalue⟩, henter⟩ (.head ⟨_, ⟨by simp [cutsShort], rfl⟩, hserve⟩
    (.single ⟨_, ⟨by simp [cutsShort], rfl⟩, hread⟩))

/-- "set a b". -/
def shortLine : Text := ['s', 'e', 't', ' ', 'a', ' ', 'b']

/-- "set a bc". -/
def longLine : Text := shortLine ++ ['c']

/-- **Framing.**  In a session whose steps all meet `WholeOk` the task does not abort, it
executes each line once and as a whole, and the CLI shows each line with its reply. -/
theorem framed (h : (sessionSystem spare).Reachable WholeOk c) : c.Framed := by
  have key : c.Orderly := by
    refine h.invariant (I := Session.Orderly) ?_ ?_
    · rintro c ⟨leader, rfl⟩
      exact .greeting leader
    · rintro c e c' _ horderly hok hstep
      exact horderly.step hok hstep
  exact key.keepsFraming

/-- Two lines on a leader, read whole. -/
theorem framed_two : ∃ c : Session, c.Framed ∧
    c.shown = [(shortLine, okReply), (longLine, okReply)] := by
  have hfirst : (sessionSystem 64).Steps WholeOk (.atPrompt [] [] [])
      (.atPrompt [shortLine] [(.set ['a'] ['b'], okReply)] [(shortLine, okReply)]) :=
    exchange_steps (by decide) rfl true .initDefault (by decide) (by decide) [] [] []
  have hsecond : (sessionSystem 64).Steps WholeOk
      (.atPrompt [shortLine] [(.set ['a'] ['b'], okReply)] [(shortLine, okReply)])
      (.atPrompt [shortLine, longLine]
        [(.set ['a'] ['b'], okReply), (.set ['a'] ['b', 'c'], okReply)]
        [(shortLine, okReply), (longLine, okReply)]) :=
    exchange_steps (by decide) rfl true .initDefault (by decide) (by decide) [shortLine] _ _
  exact ⟨_, framed ⟨_, ⟨true, rfl⟩, ((Session.start_steps true (by decide)).trans hfirst).trans
    hsecond⟩, rfl⟩

/-- The first read returns "set a b" of the line "set a bc": the task stores the shorter
value. -/
theorem not_framed : ¬ ∀ (spare : Nat) (c : Session),
    (sessionSystem spare).Reachable System.Always c → c.Framed := by
  intro hall
  have henter : (sessionSystem 64).step (.atPrompt [] [] []) (.enter longLine)
      = some ⟨encode longLine, [], .serving, .waiting longLine, [longLine], [], []⟩ := rfl
  have hserve : (sessionSystem 64).step
      ⟨encode longLine, [], .serving, .waiting longLine, [longLine], [], []⟩
      (.serve (encode shortLine).length true .initDefault)
      = some ⟨encode ['c'], encode okReply, .serving, .waiting longLine, [longLine],
        [(.set ['a'] ['b'], okReply)], []⟩ := by
    rw [sessionSystem_step]
    exact Session.serve_eq shortLine (.set ['a'] ['b']) true .initDefault
      (encode_append shortLine ['c']) rfl (by decide) (by decide) rfl
  have hstart : (sessionSystem 64).Reachable System.Always (.atPrompt [] [] []) :=
    ⟨_, ⟨true, rfl⟩, (Session.start_steps true (by decide)).mono fun _ _ _ => trivial⟩
  have hreach := (hstart.step trivial henter).step trivial hserve
  exact absurd (hall 64 _ hreach).executed (by decide)

end Quaso
