import Mathlib.Logic.Relation

/-!
# Transition systems and their runs

A system is a predicate for its initial states and a partial step function over
labels.  A run may be restricted by a condition on its steps, a predicate on the
state before the step and the label; the unrestricted runs are those of the
condition that always holds.

* `System.Steps` and `System.Reachable` — runs, and the states they reach.
* `System.Reachable.invariant` — the induction over runs, packaged once.
* `System.Steps.relates` — a reflexive and transitive relation that every step
  respects relates any two moments of a run.
* `System.Steps.project` — a simulation: where every step is a step of another system or
  leaves the image alone, runs project to runs.
* `System.Steps.simulate` — the same with a relation, and runs that match a step.
* `System.record` — a system with a history of what is observed at its steps.
* `System.exec` — running a list of labels, with the condition checked at every
  step, and `System.exec_any`, which turns a computation into a run.
-/

namespace Quaso

/-- A transition system with labelled, partial, deterministic steps. -/
structure System (σ ℓ : Type) where
  /-- The states a run can start from. -/
  Init : σ → Prop
  /-- The step under a label, `none` where the label is not enabled. -/
  step : σ → ℓ → Option σ

namespace System

variable {σ ℓ : Type} {S : System σ ℓ}

/-- The condition that every step meets. -/
def Always (_ : σ) (_ : ℓ) : Prop := True

instance (s : σ) (l : ℓ) : Decidable (Always s l) := .isTrue trivial

/-- One step that meets the condition. -/
def Next (S : System σ ℓ) (ok : σ → ℓ → Prop) (s s' : σ) : Prop :=
  ∃ l, ok s l ∧ S.step s l = some s'

/-- A finite run whose steps all meet the condition. -/
def Steps (S : System σ ℓ) (ok : σ → ℓ → Prop) : σ → σ → Prop :=
  Relation.ReflTransGen (S.Next ok)

/-- A state that a run whose steps all meet the condition reaches. -/
def Reachable (S : System σ ℓ) (ok : σ → ℓ → Prop) (s : σ) : Prop :=
  ∃ s₀, S.Init s₀ ∧ S.Steps ok s₀ s

variable {ok ok' : σ → ℓ → Prop} {s s' s'' : σ}

theorem Steps.refl (S : System σ ℓ) (ok : σ → ℓ → Prop) (s : σ) : S.Steps ok s s :=
  Relation.ReflTransGen.refl

theorem Steps.trans (h : S.Steps ok s s') (h' : S.Steps ok s' s'') : S.Steps ok s s'' :=
  Relation.ReflTransGen.trans h h'

/-- A weaker condition allows more runs. -/
theorem Steps.mono (himp : ∀ s l, ok s l → ok' s l) (h : S.Steps ok s s') : S.Steps ok' s s' := by
  induction h with
  | refl => exact .refl S ok' s
  | tail _ hnext ih =>
    obtain ⟨l, hok, hstep⟩ := hnext
    exact ih.tail ⟨l, himp _ l hok, hstep⟩

theorem Reachable.mono (himp : ∀ s l, ok s l → ok' s l) (h : S.Reachable ok s) :
    S.Reachable ok' s :=
  let ⟨s₀, hinit, hsteps⟩ := h
  ⟨s₀, hinit, hsteps.mono himp⟩

theorem Reachable.steps (h : S.Reachable ok s) (h' : S.Steps ok s s') : S.Reachable ok s' :=
  let ⟨s₀, hinit, hsteps⟩ := h
  ⟨s₀, hinit, hsteps.trans h'⟩

theorem Reachable.step {l : ℓ} (h : S.Reachable ok s) (hok : ok s l)
    (hstep : S.step s l = some s') : S.Reachable ok s' :=
  h.steps (Relation.ReflTransGen.single ⟨l, hok, hstep⟩)

/-- An invariant of the steps holds along every run that starts in it. -/
theorem Steps.invariant {I : σ → Prop}
    (hstep : ∀ s l s', I s → ok s l → S.step s l = some s' → I s')
    (h : S.Steps ok s s') (hs : I s) : I s' := by
  induction h with
  | refl => exact hs
  | tail _ hnext ih =>
    obtain ⟨l, hok, hl⟩ := hnext
    exact hstep _ l _ ih hok hl

/-- **The induction over runs.**  What holds initially and is preserved by every
step from a reachable state holds in every reachable state. -/
theorem Reachable.invariant {I : σ → Prop} (hinit : ∀ s, S.Init s → I s)
    (hstep : ∀ s l s', S.Reachable ok s → I s → ok s l → S.step s l = some s' → I s')
    (h : S.Reachable ok s) : I s := by
  obtain ⟨s₀, hs₀, hsteps⟩ := h
  have key : S.Reachable ok s ∧ I s := by
    refine hsteps.invariant (I := fun s => S.Reachable ok s ∧ I s) ?_
      ⟨⟨s₀, hs₀, .refl S ok s₀⟩, hinit s₀ hs₀⟩
    intro s l s' ⟨hreach, hI⟩ hok hl
    exact ⟨hreach.step hok hl, hstep s l s' hreach hI hok hl⟩
  exact key.2

/-- **Two moments of a run.**  A reflexive and transitive relation that every
step from a reachable state respects relates an earlier moment to a later one. -/
theorem Steps.relates {R : σ → σ → Prop} (hrefl : ∀ s, R s s)
    (htrans : ∀ {s s' s''}, R s s' → R s' s'' → R s s'')
    (hstep : ∀ s l s', S.Reachable ok s → ok s l → S.step s l = some s' → R s s')
    (hs : S.Reachable ok s) (h : S.Steps ok s s') : R s s' := by
  induction h with
  | refl => exact hrefl s
  | tail hsteps hnext ih =>
    obtain ⟨l, hok, hl⟩ := hnext
    exact htrans ih (hstep _ l _ (hs.steps hsteps) hok hl)

/-! ## Simulations -/

section Simulation

variable {σ' ℓ' : Type} {S' : System σ' ℓ'} {good : σ' → ℓ' → Prop} {f : σ → σ'}

/-- **A simulation.**  Where every step is matched by one of the other system or leaves
the image alone, a run projects to a run. -/
theorem Steps.project
    (hstep : ∀ s l s', ok s l → S.step s l = some s' →
      f s' = f s ∨ ∃ l', good (f s) l' ∧ S'.step (f s) l' = some (f s'))
    (h : S.Steps ok s s') : S'.Steps good (f s) (f s') := by
  induction h with
  | refl => exact .refl S' good (f s)
  | tail _ hnext ih =>
    obtain ⟨l, hok, hl⟩ := hnext
    rcases hstep _ l _ hok hl with hsame | hmatch
    · rw [hsame]
      exact ih
    · exact ih.tail hmatch

/-- The image of a state that is reached is reached. -/
theorem Reachable.project (hinit : ∀ s, S.Init s → S'.Init (f s))
    (hstep : ∀ s l s', ok s l → S.step s l = some s' →
      f s' = f s ∨ ∃ l', good (f s) l' ∧ S'.step (f s) l' = some (f s'))
    (h : S.Reachable ok s) : S'.Reachable good (f s) :=
  let ⟨s₀, hs₀, hsteps⟩ := h
  ⟨f s₀, hinit s₀ hs₀, hsteps.project hstep⟩

/-- **A forward simulation.**  Where every step is matched by a run of the other system,
from every state that represents the state before it, so is a run. -/
theorem Steps.simulate {R : σ → σ' → Prop}
    (hstep : ∀ s l s' t, S.Reachable ok s → R s t → ok s l → S.step s l = some s' →
      ∃ t', S'.Steps good t t' ∧ R s' t')
    (hs : S.Reachable ok s) (h : S.Steps ok s s') {t : σ'} (hR : R s t) :
    ∃ t', S'.Steps good t t' ∧ R s' t' := by
  induction h with
  | refl => exact ⟨t, .refl S' good t, hR⟩
  | tail hsteps hnext ih =>
    obtain ⟨l, hok, hl⟩ := hnext
    obtain ⟨u, hbefore, hmid⟩ := ih
    obtain ⟨t', hmatch, hR'⟩ := hstep _ l _ u (hs.steps hsteps) hmid hok hl
    exact ⟨t', hbefore.trans hmatch, hR'⟩

end Simulation

/-! ## Histories -/

section History

variable {ω : Type} {observe : σ → ℓ → Option ω}

/-- The system with what has been observed so far, the latest at the end. -/
def record (S : System σ ℓ) (observe : σ → ℓ → Option ω) : System (σ × List ω) ℓ where
  Init := fun s => S.Init s.1 ∧ s.2 = []
  step := fun s l => (S.step s.1 l).map fun s' => (s', s.2 ++ (observe s.1 l).toList)

/-- A condition on the steps of a system, as one on the steps with a history. -/
def OnState (ok : σ → ℓ → Prop) (s : σ × List ω) (l : ℓ) : Prop := ok s.1 l

instance (ok : σ → ℓ → Prop) [∀ s l, Decidable (ok s l)] (s : σ × List ω) (l : ℓ) :
    Decidable (OnState ok s l) :=
  inferInstanceAs (Decidable (ok s.1 l))

theorem record_step {s s' : σ × List ω} {l : ℓ} (h : (S.record observe).step s l = some s') :
    S.step s.1 l = some s'.1 ∧ s'.2 = s.2 ++ (observe s.1 l).toList := by
  obtain ⟨t, ht, rfl⟩ := Option.map_eq_some_iff.1 h
  exact ⟨ht, rfl⟩

/-- Without its history a run is one of the system. -/
theorem Reachable.of_record {s : σ × List ω} (h : (S.record observe).Reachable (OnState ok) s) :
    S.Reachable ok s.1 := by
  have hinit : ∀ s, (S.record observe).Init s → S.Init s.1 := fun _ hs => hs.1
  exact h.project hinit fun _ l _ hok hl => Or.inr ⟨l, hok, (record_step hl).1⟩

end History

/-! ## Running a list of labels -/

/-- Run a list of labels, checking the condition at every step. -/
def exec (S : System σ ℓ) (ok : σ → ℓ → Prop) [∀ s l, Decidable (ok s l)] (s : σ) :
    List ℓ → Option σ
  | [] => some s
  | l :: ls =>
    if ok s l then
      match S.step s l with
      | none => none
      | some s' => exec S ok s' ls
    else none

/-- A computation that succeeds is a run. -/
theorem exec_steps [∀ s l, Decidable (ok s l)] {ls : List ℓ} (h : S.exec ok s ls = some s') :
    S.Steps ok s s' := by
  induction ls generalizing s with
  | nil =>
    obtain rfl := Option.some.inj h
    exact .refl S ok s
  | cons l ls ih =>
    unfold exec at h
    split at h
    · rename_i hok
      split at h
      · cases h
      · rename_i s₁ hstep
        exact Relation.ReflTransGen.head ⟨l, hok, hstep⟩ (ih h)
    · cases h

/-- A computation to a state with a decidable property is a run to such a state. -/
theorem exec_any (S : System σ ℓ) (ok : σ → ℓ → Prop) [∀ s l, Decidable (ok s l)] (s : σ)
    (ls : List ℓ) {P : σ → Prop} [DecidablePred P]
    (h : (S.exec ok s ls).any (fun s' => decide (P s')) = true) : ∃ s', S.Steps ok s s' ∧ P s' := by
  obtain ⟨s', hs', htest⟩ := (Option.any_eq_true _ _).1 h
  exact ⟨s', exec_steps hs', of_decide_eq_true htest⟩

end System
end Quaso
