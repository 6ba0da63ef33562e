import Quaso.Raft.Disk

/-!
# Crashes while the state is saved

`persist` removes the file, creates it again and writes the new record into it.
This file says after which of its file operations the process may die, so that the
next start finds the old record or the new one.

* `Saving.run` — the file operations of a call, up to the crash.
* `Saving.run_file` — what they leave of the file.
* `Machine.steps_fileOps` — a machine that makes them has this file.
* `persist_crash_iff` — the crash points from which a start finds one of the two
  records: nothing has happened to the file yet, or all bytes are written, or
  the file is missing and one of the records is the fresh one.
-/

namespace Quaso

variable {T : Type}

/-! ## The operations up to a crash -/

namespace Saving

/-- The file operations that `persist` makes, one after the other. -/
def run (file : File) (saving : Saving) : List FileOp → Option (File × Saving)
  | [] => some (file, saving)
  | op :: ops =>
    match saving.step file op with
    | none => none
    | some (file', saving') => saving'.run file' ops

end Saving

/-- The bytes that an operation brings into the file. -/
def FileOp.count : FileOp → Nat
  | .write count => count
  | _ => 0

/-- The bytes that a list of operations brings into the file. -/
def bytesWritten (ops : List FileOp) : Nat := (ops.map FileOp.count).sum

namespace Saving

variable {file file' : File} {saving saving' : Saving} {op : FileOp} {ops : List FileOp}
  {image rest bytes : Bytes}

theorem run_cons (h : saving.run file (op :: ops) = some (file', saving')) :
    ∃ file₁ saving₁, saving.step file op = some (file₁, saving₁) ∧
      saving₁.run file₁ ops = some (file', saving') := by
  unfold run at h
  split at h
  · cases h
  · rename_i file₁ saving₁ hstep
    exact ⟨file₁, saving₁, hstep, h⟩

/-- At the end of the call nothing more happens. -/
theorem run_done (h : Saving.done.run file ops = some (file', saving')) :
    ops = [] ∧ file' = file := by
  cases ops with
  | nil =>
    obtain ⟨rfl, rfl⟩ := Prod.mk.inj (Option.some.inj h)
    exact ⟨rfl, rfl⟩
  | cons op ops =>
    obtain ⟨_, _, hstep, _⟩ := run_cons h
    cases op <;> cases hstep

/-- While the file is written it has a beginning of the bytes. -/
theorem run_write (h : (Saving.write rest).run (some bytes) ops = some (file', saving')) :
    FileOp.remove true ∉ ops ∧ file' = some (bytes ++ rest.take (bytesWritten ops)) := by
  induction ops generalizing bytes rest with
  | nil =>
    obtain ⟨rfl, rfl⟩ := Prod.mk.inj (Option.some.inj h)
    simp [bytesWritten]
  | cons op ops ih =>
    obtain ⟨file₁, saving₁, hstep, hrun⟩ := run_cons h
    cases op with
    | write count =>
      obtain ⟨rfl, rfl⟩ := Prod.mk.inj (Option.some.inj hstep)
      obtain ⟨hmem, rfl⟩ := ih hrun
      refine ⟨by simpa using hmem, ?_⟩
      have hsum : bytesWritten (.write count :: ops) = count + bytesWritten ops := rfl
      rw [hsum, List.take_add, List.append_assoc]
    | finish =>
      obtain ⟨rfl, rfl⟩ := Prod.mk.inj (Option.some.inj hstep)
      obtain ⟨rfl, rfl⟩ := run_done hrun
      simp [bytesWritten, FileOp.count]
    | remove | create => cases hstep

/-- From the removal on, the file is what it was until it is created. -/
theorem run_create (h : (Saving.create image).run file ops = some (file', saving')) :
    FileOp.remove true ∉ ops ∧
      file' = if FileOp.create true ∈ ops then some (image.take (bytesWritten ops)) else file := by
  cases ops with
  | nil =>
    obtain ⟨rfl, rfl⟩ := Prod.mk.inj (Option.some.inj h)
    simp
  | cons op ops =>
    obtain ⟨file₁, saving₁, hstep, hrun⟩ := run_cons h
    cases op with
    | create success =>
      cases success with
      | true =>
        obtain ⟨rfl, rfl⟩ := Prod.mk.inj (Option.some.inj hstep)
        obtain ⟨hmem, rfl⟩ := run_write hrun
        have hsum : bytesWritten (.create true :: ops) = bytesWritten ops := Nat.zero_add _
        rw [hsum, if_pos List.mem_cons_self, List.nil_append]
        exact ⟨by simpa using hmem, rfl⟩
      | false =>
        obtain ⟨rfl, rfl⟩ := Prod.mk.inj (Option.some.inj hstep)
        obtain ⟨rfl, rfl⟩ := run_done hrun
        simp
    | remove | write | finish => cases hstep

/-- **What the operations leave of the file.** -/
theorem run_file (h : (Saving.remove image).run file ops = some (file', saving')) :
    file' = if FileOp.create true ∈ ops then some (image.take (bytesWritten ops))
      else if FileOp.remove true ∈ ops then none else file := by
  cases ops with
  | nil =>
    obtain ⟨rfl, rfl⟩ := Prod.mk.inj (Option.some.inj h)
    simp
  | cons op ops =>
    obtain ⟨file₁, saving₁, hstep, hrun⟩ := run_cons h
    cases op with
    | remove success =>
      obtain ⟨rfl, rfl⟩ := Prod.mk.inj (Option.some.inj hstep)
      obtain ⟨hmem, rfl⟩ := run_create hrun
      have hsum : bytesWritten (.remove success :: ops) = bytesWritten ops := Nat.zero_add _
      cases success <;> simp [hsum, hmem]
    | create | write | finish => cases hstep

/-- A call that has created the file and written all bytes leaves these. -/
theorem run_complete (h : (Saving.remove image).run file ops = some (file', saving'))
    (hcreate : FileOp.create true ∈ ops) (hwritten : image.length ≤ bytesWritten ops) :
    file' = some image := by
  rw [run_file h, if_pos hcreate, List.take_of_length_le hwritten]

/-- The operations of a call in which nothing fails. -/
theorem run_undisturbed (file : File) (image : Bytes) : (Saving.remove image).run file
    [.remove true, .create true, .write image.length] = some (some image, .write []) := by
  simp [run, step]

theorem bytesWritten_undisturbed (image : Bytes) :
    bytesWritten [.remove true, .create true, .write image.length] = image.length := by
  simp [bytesWritten, FileOp.count]

end Saving

/-- The operations of a call, as events of the machine on which it runs. -/
theorem Machine.steps_fileOps {codec : DiskCodec T} {conf : Config} {m : Machine T}
    {image : PersistentState T} {saving saving' : Saving} {file : File} {ops : List FileOp}
    (hm : m.saving = some (image, saving)) (h : saving.run m.file ops = some (file, saving')) :
    ∃ m', (machineSystem codec conf).Steps System.Always m m' ∧ m'.node = m.node ∧
      m'.file = file ∧ m'.saving = some (image, saving') := by
  induction ops generalizing m saving with
  | nil =>
    obtain ⟨rfl, rfl⟩ := Prod.mk.inj (Option.some.inj h)
    exact ⟨m, .refl _ _ m, rfl, rfl, hm⟩
  | cons op ops ih =>
    obtain ⟨file₁, saving₁, hstep, hrun⟩ := Saving.run_cons h
    have hevent : (machineSystem codec conf).step m (.fileOp op)
        = some (m.afterFileOp image file₁ saving₁) := by
      simp [machineSystem, Machine.step, hm, hstep]
    obtain ⟨hnode, hfile, hsaving⟩ := m.afterFileOp_fields image file₁ saving₁
    obtain ⟨m', hsteps, hnode', hrest⟩ := ih hsaving (by rw [hfile]; exact hrun)
    exact ⟨m', Relation.ReflTransGen.head ⟨_, trivial, hevent⟩ hsteps, hnode'.trans hnode, hrest⟩

/-! ## Which crash points are harmless -/

/-- bincode rejects a proper beginning of an encoded record. -/
def DiskCodec.RejectsPrefixes (codec : DiskCodec T) : Prop :=
  ∀ p k, k < (codec.encode p).length → codec.decode ((codec.encode p).take k) = none

/-- The crash points from which a start finds the old record or the new one. -/
def SurvivesCrash (codec : DiskCodec T) (old new : PersistentState T) (ops : List FileOp) : Prop :=
  if FileOp.create true ∈ ops then (codec.encode new).length ≤ bytesWritten ops
  else FileOp.remove true ∈ ops → old = .fresh ∨ new = .fresh

/-- The record that `persist` writes for a commit index within the log. -/
theorem PersistentState.persist_of_le {self : PersistentState T} {commitIndex : Nat}
    (h : commitIndex ≤ self.log.length) :
    self.persist commitIndex = some { self with log := self.log.take commitIndex } := by
  unfold persist
  split
  · rfl
  · rename_i hzero
    rw [Nat.eq_zero_of_not_pos hzero, List.take_zero]

/-- **Which crashes `persist` survives.**  When the process dies after any of the file
operations of `persist`, the next start finds the old record or the new one exactly if the
file has not been touched, or all bytes of the new record are written, or the file is
missing and one of the two records is the fresh one. -/
theorem persist_crash_iff {codec : DiskCodec T} (hcodec : codec.RejectsPrefixes)
    {self old new : PersistentState T} {commitIndex : Nat}
    (hcommit : commitIndex ≤ self.log.length)
    (hnew : new = { self with log := self.log.take commitIndex })
    {ops : List FileOp} {file : File} {saving : Saving}
    (hrun : (Saving.remove (codec.encode new)).run (some (codec.encode old)) ops
      = some (file, saving)) :
    self.persist commitIndex = some new ∧
      ((∃ p, PersistentState.initState codec file = some p ∧ (p = old ∨ p = new)) ↔
        SurvivesCrash codec old new ops) := by
  refine ⟨hnew ▸ PersistentState.persist_of_le hcommit, ?_⟩
  rw [Saving.run_file hrun]
  unfold SurvivesCrash
  split
  · simp only [PersistentState.initState]
    by_cases hall : (codec.encode new).length ≤ bytesWritten ops
    · rw [List.take_of_length_le hall, codec.decode_encode]
      exact iff_of_true ⟨new, rfl, Or.inr rfl⟩ hall
    · rw [hcodec new _ (not_le.1 hall)]
      exact iff_of_false (by simp) hall
  · split
    · rename_i hremoved
      simp [PersistentState.initState, hremoved, eq_comm]
    · rename_i huntouched
      simp [PersistentState.initState, codec.decode_encode, huntouched]

/-! ## A codec with an end mark -/

theorem ne_two_of_mem_writeNumbers {numbers : List Nat} {byte : UInt8}
    (h : byte ∈ writeNumbers numbers) : byte ≠ 2 := by
  obtain ⟨n, _, hbyte⟩ := List.mem_flatMap.1 h
  rcases List.mem_append.1 hbyte with hone | hzero
  · rw [List.eq_of_mem_replicate hone]
    decide
  · rw [List.mem_singleton.1 hzero]
    decide

/-- The codec for logs of numbers, with a byte at the end that occurs nowhere else. -/
def markedCodec : DiskCodec Nat where
  encode p := numberCodec.encode p ++ [2]
  decode bytes := if bytes.getLast? = some 2 then numberCodec.decode bytes.dropLast else none
  decode_encode p := by
    rw [List.getLast?_concat, if_pos rfl, List.dropLast_concat, numberCodec.decode_encode]

theorem markedCodec_rejectsPrefixes : markedCodec.RejectsPrefixes := by
  intro p k hk
  have hle : k ≤ (numberCodec.encode p).length := by
    simp only [markedCodec, List.length_append, List.length_singleton] at hk
    omega
  have hlast : (markedCodec.encode p |>.take k).getLast? ≠ some 2 := by
    intro hlast
    rw [markedCodec, List.take_append_of_le_length hle] at hlast
    have hmem := List.mem_of_mem_take (List.mem_of_getLast? hlast)
    exact ne_two_of_mem_writeNumbers hmem rfl
  exact if_neg hlast

/-- A record of term 1, and a state of term 2 with one entry committed. -/
abbrev oldRecord : PersistentState Nat := ⟨1, some 1, []⟩
abbrev newState : PersistentState Nat := ⟨2, some 2, [⟨3, 1⟩, ⟨4, 2⟩]⟩
abbrev newRecord : PersistentState Nat := ⟨2, some 2, [⟨3, 1⟩]⟩

/-- With all bytes written the new record is found. -/
theorem persist_crash_written : newState.persist 1 = some newRecord ∧ ∃ p,
    PersistentState.initState markedCodec (some (markedCodec.encode newRecord)) = some p ∧
      (p = oldRecord ∨ p = newRecord) := by
  have hcommit : 1 ≤ newState.log.length := by decide
  have hrun : (Saving.remove (markedCodec.encode newRecord)).run
      (some (markedCodec.encode oldRecord)) [.remove true, .create true, .write 14]
        = some (some (markedCodec.encode newRecord), .write []) := rfl
  have hcrash := persist_crash_iff markedCodec_rejectsPrefixes hcommit rfl hrun
  refine ⟨hcrash.1, hcrash.2.2 ?_⟩
  rw [SurvivesCrash, if_pos (by decide)]
  decide

/-- A crash right after the removal: the next start makes a fresh record. -/
theorem persist_not_atomic :
    (Saving.remove (markedCodec.encode newRecord)).run (some (markedCodec.encode oldRecord))
      [.remove true] = some (none, .create (markedCodec.encode newRecord)) ∧
    ¬ ∃ p, PersistentState.initState markedCodec none = some p ∧
      (p = oldRecord ∨ p = newRecord) := by
  refine ⟨rfl, ?_⟩
  rintro ⟨p, hp, rfl | rfl⟩
  · exact absurd (congrArg (fun p => p.map PersistentState.nodeTerm) hp) (by decide)
  · exact absurd (congrArg (fun p => p.map PersistentState.nodeTerm) hp) (by decide)

end Quaso
