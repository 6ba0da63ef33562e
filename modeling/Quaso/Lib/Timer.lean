import Quaso.Lib.TransitionSystem

/-!
# Timers

A timer is a deadline that some steps of a system arm, at least a span ahead of the
clock, and that other steps fire, once the clock has reached it.  A deadline that is
armed again may come earlier than the one it replaces, when the durations are drawn
at random; still nothing fires within the span of any arming before it.

* `Timer` — the laws of a timer, for a system whose steps read a clock.
* `Timer.gap` — between arming and firing lies the span.
* `Timer.gap_of_enters` — and so it does between arming and any moment at which the
  system is where only firing has led it.
-/

namespace Quaso

/-- A timer of a system. -/
structure Timer {σ ℓ : Type} (S : System σ ℓ) where
  /-- The latest reading of the clock. -/
  clock : σ → Nat
  deadline : σ → Nat
  /-- The least time between arming and firing. -/
  span : Nat
  /-- The step from the first state to the second arms the timer. -/
  arms : σ → ℓ → σ → Prop
  /-- The step from the first state to the second fires it. -/
  fires : σ → ℓ → σ → Prop
  clock_le : ∀ {s l s'}, S.step s l = some s' → clock s ≤ clock s'
  armed : ∀ {s l s'}, S.step s l = some s' → arms s l s' → clock s' + span ≤ deadline s'
  /-- A deadline that comes earlier is still a span ahead. -/
  moved : ∀ {s l s'}, S.step s l = some s' →
    deadline s ≤ deadline s' ∨ clock s' + span ≤ deadline s'
  due : ∀ {s l s'}, S.step s l = some s' → fires s l s' → deadline s ≤ clock s'

namespace Timer

variable {σ ℓ : Type} {S : System σ ℓ} {ok : σ → ℓ → Prop} {s s₁ s₂ s₃ : σ} {l l' : ℓ}

/-- The timer was armed at time `t` or later. -/
def ArmedSince (timer : Timer S) (t : Nat) (s : σ) : Prop :=
  t ≤ timer.clock s ∧ t + timer.span ≤ timer.deadline s

theorem ArmedSince.step {timer : Timer S} {t : Nat} (h : timer.ArmedSince t s)
    (hstep : S.step s l = some s₁) : timer.ArmedSince t s₁ := by
  have hclock := Nat.le_trans h.1 (timer.clock_le hstep)
  refine ⟨hclock, ?_⟩
  rcases timer.moved hstep with hlater | hahead
  · exact Nat.le_trans h.2 hlater
  · exact Nat.le_trans (Nat.add_le_add_right hclock _) hahead

/-- **Between arming and firing lies the span**, however often the timer is armed again in
between. -/
theorem gap (timer : Timer S) (harm : S.step s l = some s₁) (harms : timer.arms s l s₁)
    (hsteps : S.Steps ok s₁ s₂) (hfire : S.step s₂ l' = some s₃)
    (hfires : timer.fires s₂ l' s₃) : timer.clock s₁ + timer.span ≤ timer.clock s₃ := by
  have hsince : timer.ArmedSince (timer.clock s₁) s₂ :=
    hsteps.invariant (fun _ _ _ h _ hstep => h.step hstep) ⟨Nat.le_refl _, timer.armed harm harms⟩
  exact Nat.le_trans hsince.2 (timer.due hfire hfires)

/-- **Where only firing leads**, the system is a span after each arming that found it
elsewhere. -/
theorem gap_of_enters (timer : Timer S) {P : σ → Prop}
    (henters : ∀ {s l s'}, S.step s l = some s' → ¬ P s → P s' → timer.fires s l s')
    (harm : S.step s l = some s₁) (harms : timer.arms s l s₁) (hout : ¬ P s₁)
    (hsteps : S.Steps ok s₁ s₂) (hin : P s₂) : timer.clock s₁ + timer.span ≤ timer.clock s₂ := by
  have key : timer.ArmedSince (timer.clock s₁) s₂ ∧
      (P s₂ → timer.clock s₁ + timer.span ≤ timer.clock s₂) := by
    refine hsteps.invariant (I := fun s => timer.ArmedSince (timer.clock s₁) s ∧
      (P s → timer.clock s₁ + timer.span ≤ timer.clock s)) ?_
      ⟨⟨Nat.le_refl _, timer.armed harm harms⟩, fun hP => absurd hP hout⟩
    intro s l s' ⟨hsince, hspan⟩ _ hstep
    refine ⟨hsince.step hstep, fun hP' => ?_⟩
    by_cases hP : P s
    · exact Nat.le_trans (hspan hP) (timer.clock_le hstep)
    · exact Nat.le_trans hsince.2 (timer.due hstep (henters hstep hP hP'))
  exact key.2 hin

end Timer
end Quaso
