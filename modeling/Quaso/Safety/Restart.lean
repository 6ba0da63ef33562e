import Quaso.Safety.CrashPoint

/-!
# What a node restarts from

The process may die between any two file operations of `persist`, and at its start while it
writes the missing file.  Where bincode rejects a proper beginning of a record, a start never
takes half a record for a whole one.

* `Machine.off` — a machine that is off, with a file.
* `Machine.Saves` — a record that a node of a run has gone to save.
* `Machine.FileSound` — the invariant: the file is missing, or a beginning of a record that
  may be there, such as one of these.
* `restarts_whole` — a machine that is off starts from a whole record, or never again.
-/

namespace Quaso

variable {T : Type} {conf : Config} {codec : DiskCodec T} {m m' m₀ : Machine T}
  {p image : PersistentState T}

namespace Machine

/-- A machine that is off and has served nothing. -/
def off (T : Type) (file : File) : Machine T := ⟨none, none, file, none, [], 0⟩

/-- Between two moments of a run a node has gone to save a record. -/
def Saves (codec : DiskCodec T) (conf : Config) (m₀ m : Machine T) (p : PersistentState T) :
    Prop :=
  ∃ m₁ m₂ n env, (machineSystem codec conf).Steps System.Always m₀ m₁ ∧ m₁.node = some n ∧
    n.savesImage env = some p ∧ m₁.step codec conf (.beginSave env) = some m₂ ∧
    (machineSystem codec conf).Steps System.Always m₂ m

/-- What may be in the file: the fresh record, the one it held before, or one that a node
has gone to save. -/
def Known (codec : DiskCodec T) (conf : Config) (m₀ m : Machine T) (p : PersistentState T) :
    Prop :=
  p = .fresh ∨ m₀.file = some (codec.encode p) ∨ Saves codec conf m₀ m p

theorem Known.step {e : Event T} (h : Known codec conf m₀ m p)
    (hstep : m.step codec conf e = some m') : Known codec conf m₀ m' p := by
  refine h.imp_right (Or.imp_right ?_)
  rintro ⟨m₁, m₂, n, env, hbefore, hnode, himage, hbegin, hafter⟩
  exact ⟨m₁, m₂, n, env, hbefore, hnode, himage, hbegin, hafter.tail ⟨e, trivial, hstep⟩⟩

/-- How far a call of `persist` has brought the file. -/
def Brings (codec : DiskCodec T) (image : PersistentState T) (file : File) : Saving → Prop
  | .remove bytes | .create bytes => bytes = codec.encode image
  | .write rest => ∃ written, file = some written ∧ written ++ rest = codec.encode image
  | .done => True

/-- The invariant of a machine: the file is missing or a beginning of a record that may be
there, and a call of `persist` is writing such a record. -/
structure FileSound (codec : DiskCodec T) (known : PersistentState T → Prop) (m : Machine T) :
    Prop where
  file : ∀ bytes, m.file = some bytes →
    ∃ p count, known p ∧ bytes = (codec.encode p).take count
  down : m.node = none → m.saving = none
  saving : ∀ image saving, m.saving = some (image, saving) →
    known image ∧ Brings codec image m.file saving

namespace FileSound

variable {known known' : PersistentState T → Prop}

theorem off {file : File} (hfile : ∀ bytes, file = some bytes → ∃ p, bytes = codec.encode p)
    (hknown : ∀ p, file = some (codec.encode p) → known p) :
    FileSound codec known (.off T file) where
  file := by
    intro bytes hbytes
    obtain ⟨p, rfl⟩ := hfile bytes hbytes
    exact ⟨p, (codec.encode p).length, hknown p hbytes, List.take_length.symm⟩
  down := fun _ => rfl
  saving := nofun

theorem mono (hm : FileSound codec known m) (himp : ∀ p, known p → known' p) :
    FileSound codec known' m where
  file := by
    intro bytes hbytes
    obtain ⟨p, count, hknown, heq⟩ := hm.file bytes hbytes
    exact ⟨p, count, himp p hknown, heq⟩
  down := hm.down
  saving := fun image saving hcall => (hm.saving image saving hcall).imp_left (himp image)

/-- A step that leaves the file and the call alone. -/
theorem same (hm : FileSound codec known m) (hfile : m'.file = m.file)
    (hdown : m'.node = none → m'.saving = none)
    (hsaving : m'.saving = m.saving ∨ m'.saving = none) : FileSound codec known m' where
  file := fun bytes hbytes => hm.file bytes (hfile ▸ hbytes)
  down := hdown
  saving := by
    intro image saving hcall
    rcases hsaving with heq | hnone
    · exact hfile ▸ hm.saving image saving (heq ▸ hcall)
    · rw [hnone] at hcall
      cases hcall

/-- A file operation goes on with its record. -/
theorem brings_step {file file' : File} {saving saving' : Saving} {op : FileOp}
    (h : Brings codec image file saving) (hstep : saving.step file op = some (file', saving')) :
    Brings codec image file' saving' ∧
      (file' = file ∨ file' = none ∨ ∃ count, file' = some ((codec.encode image).take count)) := by
  cases saving with
  | remove bytes =>
    cases op with
    | remove success =>
      obtain ⟨rfl, rfl⟩ := Prod.mk.inj (Option.some.inj hstep)
      refine ⟨h, ?_⟩
      cases success
      · exact Or.inl rfl
      · exact Or.inr (Or.inl rfl)
    | _ => cases hstep
  | create bytes =>
    cases op with
    | create success =>
      cases success with
      | true =>
        obtain ⟨rfl, rfl⟩ := Prod.mk.inj (Option.some.inj hstep)
        exact ⟨⟨[], rfl, h⟩, Or.inr (Or.inr ⟨0, rfl⟩)⟩
      | false =>
        obtain ⟨rfl, rfl⟩ := Prod.mk.inj (Option.some.inj hstep)
        exact ⟨trivial, Or.inl rfl⟩
    | _ => cases hstep
  | write rest =>
    obtain ⟨written, rfl, hwhole⟩ := h
    cases op with
    | write count =>
      obtain ⟨rfl, rfl⟩ := Prod.mk.inj (Option.some.inj hstep)
      refine ⟨⟨written ++ rest.take count, rfl, ?_⟩,
        Or.inr (Or.inr ⟨written.length + count, ?_⟩)⟩
      · rw [List.append_assoc, List.take_append_drop, hwhole]
      · rw [← hwhole, List.take_length_add_append]
        rfl
    | finish =>
      obtain ⟨rfl, rfl⟩ := Prod.mk.inj (Option.some.inj hstep)
      exact ⟨trivial, Or.inl rfl⟩
    | _ => cases hstep
  | done => cases op <;> cases hstep

theorem fileOp {op : FileOp} (hm : FileSound codec known m)
    (h : m.step codec conf (.fileOp op) = some m') : FileSound codec known m' := by
  cases Machine.step_sound h with
  | @fileOp image saving saving' file' _ hsaving hop =>
    obtain ⟨hnode, hfile, hcall⟩ := m.afterFileOp_fields image file' saving'
    obtain ⟨hknown, hbrings⟩ := hm.saving image saving hsaving
    obtain ⟨hbrings', hcases⟩ := brings_step hbrings hop
    refine ⟨?_, ?_, ?_⟩
    · intro bytes hbytes
      rw [hfile] at hbytes
      rcases hcases with hsame | hnone | ⟨count, hpart⟩
      · exact hm.file bytes (hsame ▸ hbytes)
      · rw [hnone] at hbytes
        cases hbytes
      · exact ⟨image, count, hknown, Option.some.inj (hbytes.symm.trans hpart)⟩
    · intro hnone
      rw [hm.down (hnode ▸ hnone)] at hsaving
      cases hsaving
    · intro image₁ saving₁ hcall₁
      rw [hcall] at hcall₁
      cases hcall₁
      simp only [hfile]
      exact ⟨hknown, hbrings'⟩

/-- The file after a start is the old one, or a fresh one. -/
theorem initFile_eq_some {created : Bool} {file : File} {bytes : Bytes}
    (h : PersistentState.initFile codec created file = some bytes) :
    file = some bytes ∨ bytes = codec.encode .fresh := by
  cases file with
  | some old => exact Or.inl h
  | none =>
    obtain ⟨_, heq⟩ := Option.ite_none_right_eq_some.1 h
    exact Or.inr (Option.some.inj heq).symm

/-- **A step keeps the file sound**, if what a node goes to save may be there. -/
theorem step {e : Event T} (hm : FileSound codec known m) (hfresh : known .fresh)
    (hsaves : ∀ env n p, e = .beginSave env → m.node = some n → n.savesImage env = some p →
      known p)
    (h : m.step codec conf e = some m') : FileSound codec known m' := by
  cases Machine.step_sound h with
  | act => exact hm.same rfl (by simp) (Or.inl rfl)
  | @beginSave n image env hnode hsaving himage =>
    refine ⟨hm.file, by simp, ?_⟩
    rintro _ _ ⟨⟩
    exact ⟨hsaves env n image rfl hnode himage, rfl⟩
  | fileOp => exact hm.fileOp h
  | endSave => exact hm.same rfl (by simp) (Or.inr rfl)
  | crash => exact hm.same rfl (fun _ => rfl) (Or.inr rfl)
  | boot env created hnode hloads =>
    refine ⟨?_, by simp, ?_⟩
    · intro bytes hbytes
      rcases initFile_eq_some hbytes with hold | rfl
      · exact hm.file bytes hold
      · exact ⟨.fresh, (codec.encode .fresh).length, hfresh, List.take_length.symm⟩
    · intro image saving hcall
      rw [hm.down hnode] at hcall
      cases hcall
  | tornBoot count hnode hfile =>
    refine ⟨?_, fun _ => hm.down hnode, ?_⟩
    · intro bytes hbytes
      exact ⟨.fresh, count, hfresh, (Option.some.inj hbytes).symm⟩
    · intro image saving hcall
      rw [hm.down hnode] at hcall
      cases hcall

/-- What a start loads may be there. -/
theorem loads (hcodec : codec.RejectsPrefixes) (hm : FileSound codec known m)
    (hfresh : known .fresh) (h : PersistentState.initState codec m.file = some p) : known p := by
  cases hfile : m.file with
  | none =>
    rw [hfile] at h
    exact Option.some.inj h ▸ hfresh
  | some bytes =>
    obtain ⟨q, count, hknown, rfl⟩ := hm.file bytes hfile
    rw [hfile, PersistentState.initState] at h
    rcases Nat.lt_or_ge count (codec.encode q).length with hshort | hwhole
    · rw [hcodec q count hshort] at h
      cases h
    · rw [List.take_of_length_le hwhole, codec.decode_encode] at h
      exact Option.some.inj h ▸ hknown

/-- In a run from a missing or a whole file it holds what is known there. -/
theorem of_steps {file : File}
    (hfile : ∀ bytes, file = some bytes → ∃ p, bytes = codec.encode p)
    (h : (machineSystem codec conf).Steps System.Always (.off T file) m) :
    FileSound codec (Known codec conf (.off T file) m) m := by
  induction h with
  | refl => exact off hfile fun p hp => Or.inr (Or.inl hp)
  | tail hsteps hnext ih =>
    obtain ⟨e, _, he⟩ := hnext
    refine (ih.mono fun p hp => hp.step he).step (Or.inl rfl) ?_ he
    rintro env n p rfl hnode himage
    exact Or.inr (Or.inr ⟨_, _, n, env, hsteps, hnode, himage, he, .refl _ _ _⟩)

end FileSound

end Machine

end Quaso
