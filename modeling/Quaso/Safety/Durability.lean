import Quaso.Safety.Promises

/-!
# What a node has kept when it restarts

A node answers at once and saves on a timer, and it saves only the committed part
of its log, after it has removed the file.  This file says which crashes the
promises of `Quaso.Safety.Promises` survive.

* `UpToDate` — the record last written is up to date with what was answered.
* `DurableOk` — the condition on the events of a machine.
* `MachineSound` — the invariant: the running node keeps its promises, the file keeps
  those made before it was last written, and after a crash it keeps all of them.
* `durable` — what a restarted node has kept.
-/

namespace Quaso

variable {T : Type} {conf : Config} {codec : DiskCodec T} {m m' : Machine T}

/-! ## The condition -/

/-- The last image is up to date: every request since it was written has been answered
under its term and vote, and its log reaches to the end of the entries acknowledged to the
last leader. -/
def UpToDate (m : Machine T) (log : List (LogEntry T)) (image : PersistentState T) : Prop :=
  (∀ a ∈ m.served.drop m.saved, a.term = image.nodeTerm ∧ a.votedFor = image.votedFor) ∧
    ∀ a ∈ m.served, Current m.served a → a.acknowledged ≠ [] → log.take a.logLength <+: image.log

/-- A half written file does no harm: the node cannot start from it, or has nothing to keep. -/
def tornHarmless (codec : DiskCodec T) (served : List (Served T)) (bytes : Bytes) : Bool :=
  served.isEmpty || (codec.decode bytes).isNone

/-- The events of a machine that keep what its node has promised. -/
def DurableOk (codec : DiskCodec T) (m : Machine T) : Event T → Prop
  | .act _ action => ∀ n ∈ m.node, PromiseOk m.served n action
  | .crash =>
    (∀ n ∈ m.node, ∀ image ∈ m.image, UpToDate m n.state.log image) ∧
      (m.image.isSome || m.file.any (tornHarmless codec m.served)) = true
  | .tornBoot count =>
    ((codec.encode .fresh).length ≤ count) ∨
      tornHarmless codec m.served ((codec.encode .fresh).take count) = true
  | _ => True

instance instDecidableUpToDate [DecidableEq T] (m : Machine T) (log : List (LogEntry T))
    (image : PersistentState T) : Decidable (UpToDate m log image) :=
  inferInstanceAs (Decidable (_ ∧ ∀ a ∈ m.served, Current m.served a → a.acknowledged ≠ [] →
    log.take a.logLength <+: image.log))

instance instDecidableDurableOk [DecidableEq T] (codec : DiskCodec T) (m : Machine T) :
    ∀ e, Decidable (DurableOk codec m e)
  | .act _ action => inferInstanceAs (Decidable (∀ n ∈ m.node, PromiseOk m.served n action))
  | .crash => inferInstanceAs (Decidable ((∀ n ∈ m.node, ∀ image ∈ m.image,
      UpToDate m n.state.log image) ∧
        (m.image.isSome || m.file.any (tornHarmless codec m.served)) = true))
  | .tornBoot count => inferInstanceAs (Decidable (((codec.encode .fresh).length ≤ count) ∨
      tornHarmless codec m.served ((codec.encode .fresh).take count) = true))
  | .beginSave _ | .fileOp _ | .endSave _ | .boot .. => .isTrue trivial

/-! ## The invariant -/

/-- A persistent state keeps what one request was answered about term and vote. -/
def Served.CoveredBy (a : Served T) (p : PersistentState T) : Prop :=
  a.term ≤ p.nodeTerm ∧ ∀ c, a.granted = some (p.nodeTerm, c) → p.votedFor = some c

/-- `persist` writes a record with the term and the vote that the node has. -/
def SavesState (codec : DiskCodec T) (file : File) (state : State T) (image : PersistentState T)
    (saving : Saving) : Prop :=
  image.nodeTerm = state.nodeTerm ∧ image.votedFor = state.votedFor ∧
    match saving with
    | .remove bytes | .create bytes => bytes = codec.encode image
    | .write rest => ∃ written, file = some written ∧ written ++ rest = codec.encode image
    | .done => True

/-- The invariant of a machine. -/
structure MachineSound (codec : DiskCodec T) (m : Machine T) : Prop where
  sound : ∀ a ∈ m.served, a.Sound
  ordered : Ordered m.served
  running : ∀ n, m.node = some n →
    Keeps m.served n.state.toPersistentState ∧ Unpledged m.served n
  /-- A machine that is down can restart with all promises kept. -/
  down : m.node = none → ∀ p, PersistentState.initState codec m.file = some p → Keeps m.served p
  /-- The image is what the file loads to, and covers what was answered before it was
  written. -/
  image : ∀ p, m.image = some p → PersistentState.initState codec m.file = some p ∧
    ∀ a ∈ m.served.take m.saved, a.CoveredBy p
  saved_le : m.saved ≤ m.served.length
  saving : ∀ image saving, m.saving = some (image, saving) →
    ∃ n, m.node = some n ∧ SavesState codec m.file n.state image saving

/-- A missing file and the fresh one that is written for it are the same to a start. -/
theorem PersistentState.initState_initFile (codec : DiskCodec T) (created : Bool) (file : File) :
    initState codec (initFile codec created file) = initState codec file := by
  cases file with
  | some bytes => rfl
  | none => cases created <;> simp [initFile, initState, codec.decode_encode]

/-- The image that `persist` writes has the term and the vote of the state. -/
theorem PersistentState.persist_eq_some {self image : PersistentState T} {commitIndex : Nat}
    (h : self.persist commitIndex = some image) :
    image.nodeTerm = self.nodeTerm ∧ image.votedFor = self.votedFor := by
  unfold persist at h
  split at h
  · split at h
    · obtain rfl := Option.some.inj h
      exact ⟨rfl, rfl⟩
    · cases h
  · obtain rfl := Option.some.inj h
    exact ⟨rfl, rfl⟩

/-- A file operation goes on with the image. -/
theorem SavesState.step {file file' : File} {state : State T} {image : PersistentState T}
    {saving saving' : Saving} {op : FileOp} (hsaves : SavesState codec file state image saving)
    (h : saving.step file op = some (file', saving')) :
    SavesState codec file' state image saving' := by
  obtain ⟨hterm, hvoted, hstage⟩ := hsaves
  refine ⟨hterm, hvoted, ?_⟩
  unfold Saving.step at h
  split at h
  · obtain ⟨rfl, rfl⟩ := Prod.mk.inj (Option.some.inj h)
    exact hstage
  · split at h
    · obtain ⟨rfl, rfl⟩ := Prod.mk.inj (Option.some.inj h)
      exact ⟨[], rfl, hstage⟩
    · obtain ⟨rfl, rfl⟩ := Prod.mk.inj (Option.some.inj h)
      trivial
  · obtain ⟨rfl, rfl⟩ := Prod.mk.inj (Option.some.inj h)
    obtain ⟨written, rfl, hbytes⟩ := hstage
    exact ⟨_, rfl, by rw [List.append_assoc, List.take_append_drop, hbytes]⟩
  · obtain ⟨rfl, rfl⟩ := Prod.mk.inj (Option.some.inj h)
    trivial
  · cases h

/-- A file that is written to its end loads to the image. -/
theorem SavesState.initState {file : File} {state : State T} {image : PersistentState T}
    (hsaves : SavesState codec file state image (.write [])) :
    PersistentState.initState codec file = some image := by
  obtain ⟨_, _, written, rfl, hbytes⟩ := hsaves
  rw [List.append_nil] at hbytes
  rw [PersistentState.initState, hbytes, codec.decode_encode]

/-- What a prefix holds below some length, the whole list holds there. -/
theorem take_of_isPrefix {α : Type} {l l' : List α} {k : Nat} (h : l <+: l')
    (hle : k ≤ l.length) : k ≤ l'.length ∧ l'.take k = l.take k := by
  obtain ⟨tail, rfl⟩ := h
  refine ⟨?_, List.take_append_of_le_length hle⟩
  rw [List.length_append]
  omega

namespace MachineSound

/-- A machine that is down is not in `persist`. -/
theorem saving_eq_none (hm : MachineSound codec m) (hnode : m.node = none) : m.saving = none := by
  refine Option.eq_none_iff_forall_not_mem.2 fun ⟨image, saving⟩ hsaving => ?_
  obtain ⟨n, hn, _⟩ := hm.saving image saving hsaving
  rw [hnode] at hn
  cases hn

/-- From a half written file that does no harm nothing starts that breaks a promise. -/
theorem keeps_of_tornHarmless {served : List (Served T)} {bytes : Bytes} {p : PersistentState T}
    (htorn : tornHarmless codec served bytes = true)
    (hp : PersistentState.initState codec (some bytes) = some p) : Keeps served p := by
  rcases Bool.or_eq_true_iff.1 htorn with hempty | hnone
  · rw [List.isEmpty_iff.1 hempty]
    exact ⟨by simp, by simp, by simp⟩
  · rw [show codec.decode bytes = some p from hp] at hnone
    cases hnone

theorem init (file : File) : MachineSound codec (⟨none, none, file, none, [], 0⟩ : Machine T) where
  sound := by simp
  ordered := by simp [Ordered]
  running := by simp
  down := fun _ p _ => ⟨by simp, by simp, by simp⟩
  image := by simp
  saved_le := le_rfl
  saving := by simp

/-- What a step of the running node serves, it promises. -/
theorem node_step {env : Env} {action : Action T} {n n' : Node T} {effect : Effect T}
    {saving : Option (PersistentState T × Saving)} (hm : MachineSound codec m)
    (hnode : m.node = some n)
    (hstep : Node.Step conf env n action n' effect) (hok : PromiseOk m.served n action)
    (hsaving : ∀ s, saving = some s → m.saving = some s ∧ n'.state = n.state) :
    MachineSound codec { m with
      node := some n'
      saving := saving
      served := m.served ++ n.serves n' action effect } := by
  obtain ⟨hkeeps, hun⟩ := hm.running n hnode
  refine ⟨?_, ?_, ?_, by simp, ?_, ?_, ?_⟩
  · intro a ha
    rcases List.mem_append.1 ha with hold | hnew
    · exact hm.sound a hold
    · exact (Node.serves_spec hstep hnew).1
  · refine hm.ordered.append (fun a ha => ?_) fun a ha => (Node.serves_spec hstep ha).2.1
    exact (hkeeps.term a ha).trans ((Node.nodeTerm_le_iff hstep).2 hok.1)
  · rintro _ ⟨⟩
    exact ⟨hkeeps.step hstep hok hm.sound hun, hun.step hstep hok hm.sound hkeeps⟩
  · intro p hp
    simp only [List.take_append_of_le_length hm.saved_le]
    exact hm.image p hp
  · exact hm.saved_le.trans (by simp)
  · intro image s hs
    obtain ⟨hold, hstate⟩ := hsaving (image, s) hs
    obtain ⟨n₀, hn₀, hsaves⟩ := hm.saving image s hold
    obtain rfl : n₀ = n := Option.some.inj (hn₀.symm.trans hnode)
    exact ⟨n', rfl, hstate ▸ hsaves⟩

/-- A step of the running node. -/
theorem act {env : Env} {action : Action T} (hm : MachineSound codec m)
    (hok : DurableOk codec m (.act env action))
    (h : m.step codec conf (.act env action) = some m') : MachineSound codec m' := by
  cases Machine.step_sound h with
  | act _ _ hnode hmay hstep =>
    have hstep := Node.step_sound hstep
    refine hm.node_step hnode hstep (hok _ hnode) fun s hs => ⟨hs, hstep.onlyReads_state ?_⟩
    simpa [Machine.mayAct, hs] using hmay

/-- A file operation.  When the last byte is written the file holds the state of the node,
which the lock has kept since the image was taken. -/
theorem afterFileOp {image : PersistentState T} {file : File} {saving : Saving} {n : Node T}
    (hm : MachineSound codec m) (hnode : m.node = some n)
    (hsaves : SavesState codec file n.state image saving) :
    MachineSound codec (m.afterFileOp image file saving) := by
  have hsaving : ∀ i s, some (image, saving) = some (i, s) →
      ∃ n, m.node = some n ∧ SavesState codec file n.state i s := by
    rintro _ _ ⟨⟩
    exact ⟨n, hnode, hsaves⟩
  have hdown : m.node = none → ∀ p, PersistentState.initState codec file = some p →
      Keeps m.served p := by
    intro hnone
    rw [hnone] at hnode
    cases hnode
  unfold Machine.afterFileOp
  simp only
  split
  · rename_i hwhole
    subst hwhole
    refine ⟨hm.sound, hm.ordered, hm.running, hdown, ?_, le_rfl, hsaving⟩
    rintro _ ⟨⟩
    obtain ⟨hkeeps, _⟩ := hm.running n hnode
    refine ⟨hsaves.initState, fun a ha => ⟨?_, fun c hc => ?_⟩⟩
    · rw [hsaves.1]
      exact hkeeps.term a (List.mem_of_mem_take ha)
    · rw [hsaves.2.1]
      exact hkeeps.vote a (List.mem_of_mem_take ha) c (hsaves.1 ▸ hc)
  · split
    · rename_i hsame
      subst hsame
      exact ⟨hm.sound, hm.ordered, hm.running, hdown, hm.image, hm.saved_le, hsaving⟩
    · refine ⟨hm.sound, hm.ordered, hm.running, hdown, ?_, Nat.zero_le _, hsaving⟩
      intro p hp
      cases file with
      | none => exact ⟨hp, by simp⟩
      | some bytes => cases hp

theorem fileOp {op : FileOp} (hm : MachineSound codec m)
    (h : m.step codec conf (.fileOp op) = some m') : MachineSound codec m' := by
  cases Machine.step_sound h with
  | fileOp _ hsaving hop =>
    obtain ⟨n, hnode, hsaves⟩ := hm.saving _ _ hsaving
    exact hm.afterFileOp hnode (hsaves.step hop)

theorem beginSave {env : Env} (hm : MachineSound codec m)
    (h : m.step codec conf (.beginSave env) = some m') : MachineSound codec m' := by
  cases Machine.step_sound h with
  | @beginSave n image _ hnode hsaving himage =>
    have hsaves : n.state.toPersistentState.persist n.state.commitedIndex = some image := by
      unfold Node.savesImage at himage
      split at himage
      · exact himage
      · cases himage
    obtain ⟨hterm, hvoted⟩ := PersistentState.persist_eq_some hsaves
    refine ⟨hm.sound, hm.ordered, ?_, by simp, hm.image, hm.saved_le, ?_⟩
    · rintro _ ⟨⟩
      exact hm.running n hnode
    · rintro _ _ ⟨⟩
      exact ⟨_, rfl, hterm, hvoted, rfl⟩

theorem endSave {env : Env} (hm : MachineSound codec m)
    (h : m.step codec conf (.endSave env) = some m') : MachineSound codec m' := by
  cases Machine.step_sound h with
  | @endSave n n' effect _ _ hnode hsaving hstep =>
    have hstep := Node.step_sound hstep
    have hnext := hm.node_step hnode hstep (.tryPersist hstep)
      (fun s (hs : none = some s) => nomatch hs)
    rwa [show n.serves n' .tryPersist effect = [] from rfl, List.append_nil] at hnext

/-- A crash that finds the image up to date. -/
theorem crash (hm : MachineSound codec m) (hok : DurableOk codec m .crash)
    (h : m.step codec conf .crash = some m') : MachineSound codec m' := by
  cases Machine.step_sound h with
  | @crash n hnode =>
    obtain ⟨hcurrent, htorn⟩ := hok
    refine ⟨hm.sound, hm.ordered, by simp, ?_, hm.image, hm.saved_le, by simp⟩
    intro _ p hp
    cases himage : m.image with
    | none =>
      -- nothing can be started from a half written file
      rw [himage] at htorn
      obtain ⟨bytes, hbytes, htorn⟩ := (Option.any_eq_true _ _).1 htorn
      rw [show m.file = some bytes from hbytes] at hp
      exact keeps_of_tornHarmless htorn hp
    | some image =>
      obtain ⟨hfile, hcovers⟩ := hm.image image himage
      obtain rfl : image = p := Option.some.inj (hfile.symm.trans hp)
      obtain ⟨hlate, hlog⟩ := hcurrent n hnode image himage
      obtain ⟨hkeeps, _⟩ := hm.running n hnode
      have hcovered : ∀ a ∈ m.served, a.CoveredBy image := by
        intro a ha
        rw [← List.take_append_drop m.saved m.served] at ha
        rcases List.mem_append.1 ha with hold | hnew
        · exact hcovers a hold
        · obtain ⟨hterm, hvoted⟩ := hlate a hnew
          refine ⟨hterm.le, fun c hgranted => hvoted ▸ ?_⟩
          exact ((hm.sound a (List.mem_of_mem_drop hnew)).granted _ _ hgranted).2
      refine ⟨fun a ha => (hcovered a ha).1, fun a ha => (hcovered a ha).2, ?_⟩
      intro a ha hcurrent' hack
      obtain ⟨hle, hheld⟩ := hkeeps.log a ha hcurrent' hack
      have hlength : (n.state.log.take a.logLength).length = a.logLength := by
        rw [List.length_take]
        omega
      obtain ⟨hle', htake⟩ := take_of_isPrefix (hlog a ha hcurrent' hack) hlength.ge
      rw [htake, List.take_take, Nat.min_self]
      exact ⟨hle', hheld⟩

/-- A start from the file. -/
theorem boot {env : Env} {created : Bool} (hm : MachineSound codec m)
    (h : m.step codec conf (.boot env created) = some m') : MachineSound codec m' := by
  cases Machine.step_sound h with
  | @boot p _ _ hnode hp =>
    have hkeeps := hm.down hnode p hp
    refine ⟨hm.sound, hm.ordered, ?_, by simp, ?_, hm.saved_le, ?_⟩
    · rintro _ ⟨⟩
      refine ⟨hkeeps, fun htick => ?_⟩
      simp [Node.boot, Node.start, Tick.soliciting] at htick
    · rintro _ ⟨⟩
      refine ⟨(PersistentState.initState_initFile codec created m.file).trans hp, fun a ha => ?_⟩
      exact ⟨hkeeps.term a (List.mem_of_mem_take ha), hkeeps.vote a (List.mem_of_mem_take ha)⟩
    · simp [hm.saving_eq_none hnode]

/-- A start that dies while it writes the missing file. -/
theorem tornBoot {count : Nat} (hm : MachineSound codec m)
    (hok : DurableOk codec m (.tornBoot count))
    (h : m.step codec conf (.tornBoot count) = some m') : MachineSound codec m' := by
  cases Machine.step_sound h with
  | tornBoot _ hnode hfile =>
    refine ⟨hm.sound, hm.ordered, ?_, fun _ p hp => ?_, by simp, Nat.zero_le _, ?_⟩
    · simp [hnode]
    · rcases hok with hwhole | htorn
      · -- the fresh state is written to its end
        rw [List.take_of_length_le hwhole, PersistentState.initState, codec.decode_encode] at hp
        exact hm.down hnode p (by rw [hfile, PersistentState.initState, hp])
      · exact keeps_of_tornHarmless htorn hp
    · simp [hm.saving_eq_none hnode]

theorem step {e : Event T} (hm : MachineSound codec m) (hok : DurableOk codec m e)
    (h : m.step codec conf e = some m') : MachineSound codec m' := by
  cases e with
  | act env action => exact hm.act hok h
  | beginSave env => exact hm.beginSave h
  | fileOp op => exact hm.fileOp h
  | endSave env => exact hm.endSave h
  | crash => exact hm.crash hok h
  | boot env created => exact hm.boot h
  | tornBoot count => exact hm.tornBoot hok h

/-- The invariant holds along every run whose events all meet `DurableOk`. -/
theorem of_reachable (h : (machineSystem codec conf).Reachable (DurableOk codec) m) :
    MachineSound codec m := by
  refine h.invariant ?_ fun m e m' _ hm hok hstep => hm.step hok hstep
  rintro m ⟨file, rfl⟩
  exact init file

end MachineSound

/-- **Durability across restarts.**  In a run whose events all meet `DurableOk`, a node that
starts has a term that is not below any it has answered with, the vote it granted in that
term, and every entry it acknowledged to the leader whose entries it accepted last. -/
theorem durable {env : Env} {created : Bool}
    (h : (machineSystem codec conf).Reachable (DurableOk codec) m)
    (hboot : (machineSystem codec conf).step m (.boot env created) = some m') :
    ∃ n, m'.node = some n ∧ Recovered m.served n.state.toPersistentState := by
  have hm := MachineSound.of_reachable h
  change m.step codec conf (.boot env created) = some m' at hboot
  cases Machine.step_sound hboot with
  | boot _ _ hnode hp =>
    exact ⟨_, rfl, (hm.down hnode _ hp).recovered hm.sound hm.ordered⟩

/-- A node that starts and grants node 2 its vote of term 1. -/
def grantOnce : List (Event Nat) :=
  [.boot (.atTime 0) true, .act (.atTime 100) (.accept 0 (.requestVote ⟨1, 2, 0, 0⟩)),
    .act (.atTime 100) (.handle true)]

/-- A crash after the vote is saved. -/
theorem durable_savedVote : ∃ (m' : Machine Nat) (n : Node Nat), m'.node = some n ∧
    1 ≤ n.state.nodeTerm ∧ (n.state.nodeTerm = 1 → n.state.votedFor = some 2) := by
  obtain ⟨m, hm, hserved, hboot⟩ := System.exec_any (machineSystem numberCodec pairConf)
    (DurableOk numberCodec) (⟨none, none, none, none, [], 0⟩ : Machine Nat)
    (grantOnce ++ [.beginSave (.atTime 6000), .fileOp (.remove true), .fileOp (.create true),
      .fileOp (.write 9), .fileOp .finish, .endSave (.atTime 6000), .crash])
    (P := fun m => (m.served.any fun a =>
        decide (a.replyTerm = some 1) && decide (a.granted = some (1, 2))) = true ∧
      ((machineSystem numberCodec pairConf).step m (.boot (.atTime 0) true)).isSome = true)
    (by decide +kernel)
  obtain ⟨m', hm'⟩ := Option.isSome_iff_exists.1 hboot
  obtain ⟨n, hn, hrecovered⟩ := durable ⟨_, ⟨_, rfl⟩, hm⟩ hm'
  obtain ⟨a, ha, hanswer⟩ := List.any_eq_true.1 hserved
  simp only [Bool.and_eq_true, decide_eq_true_eq] at hanswer
  exact ⟨m', n, hn, hrecovered.term a ha 1 hanswer.1,
    fun hterm => hrecovered.vote a ha 2 (hterm ▸ hanswer.2)⟩

/-- A crash before the vote is saved: the node restarts in term 0. -/
theorem not_durable : ¬ ∀ (codec : DiskCodec Nat) (conf : Config) (m m' : Machine Nat)
    (env : Env) (created : Bool), (machineSystem codec conf).Reachable System.Always m →
      (machineSystem codec conf).step m (.boot env created) = some m' →
      ∃ n, m'.node = some n ∧ Recovered m.served n.state.toPersistentState := by
  intro hall
  obtain ⟨m, hm, hserved, hboot⟩ := System.exec_any (machineSystem numberCodec pairConf)
    System.Always (⟨none, none, none, none, [], 0⟩ : Machine Nat) (grantOnce ++ [.crash])
    (P := fun m => (m.served.any fun a => decide (a.replyTerm = some 1)) = true ∧
      ((machineSystem numberCodec pairConf).step m (.boot (.atTime 0) true)).any
        (fun m' => m'.node.all fun n => decide (n.state.nodeTerm = 0)) = true) (by decide +kernel)
  obtain ⟨m', hm', hterm⟩ := (Option.any_eq_true _ _).1 hboot
  obtain ⟨n, hn, hrecovered⟩ := hall numberCodec pairConf m m' _ _ ⟨_, ⟨_, rfl⟩, hm⟩ hm'
  obtain ⟨a, ha, hanswer⟩ := List.any_eq_true.1 hserved
  have hle := hrecovered.term a ha 1 (of_decide_eq_true hanswer)
  rw [hn, Option.all_some, decide_eq_true_eq] at hterm
  rw [hterm] at hle
  exact absurd hle (by decide)

end Quaso
