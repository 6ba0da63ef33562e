import Mathlib.Logic.Relation

/-!
# Graphs of waiting

A relation says who waits for whom.  Two that wait for each other, each through any
number of others, are deadlocked.  Whoever waits for nobody can be waited for without
harm: an edge to it closes no circle.

* `Deadlocked` — two of them wait for each other.
* `Deadlocked.of_add_edge` — one more edge, to one that waits for nobody, deadlocks
  nobody.
-/

namespace Quaso

open Relation

variable {α : Type} {R R' : α → α → Prop}

/-- Two different nodes that wait for each other, directly or through others. -/
def Deadlocked (R : α → α → Prop) : Prop := ∃ x y, x ≠ y ∧ TransGen R x y ∧ TransGen R y x

theorem Deadlocked.mono (h : Deadlocked R') (hsub : ∀ x y, R' x y → R x y) : Deadlocked R :=
  let ⟨x, y, hne, hxy, hyx⟩ := h
  ⟨x, y, hne, TransGen.mono hsub x y hxy, TransGen.mono hsub y x hyx⟩

/-- A path through a graph with one edge more uses it or not. -/
theorem transGen_add_edge {a b x y : α} (hsub : ∀ x y, R' x y → R x y ∨ (x = a ∧ y = b))
    (h : TransGen R' x y) :
    TransGen R x y ∨ (ReflTransGen R x a ∧ ReflTransGen R b y) := by
  induction h with
  | single hedge =>
    rcases hsub _ _ hedge with hold | ⟨rfl, rfl⟩
    · exact Or.inl (.single hold)
    · exact Or.inr ⟨.refl, .refl⟩
  | tail _ hedge ih =>
    rcases hsub _ _ hedge with hold | ⟨rfl, rfl⟩
    · rcases ih with hpath | ⟨hstart, hend⟩
      · exact Or.inl (hpath.tail hold)
      · exact Or.inr ⟨hstart, hend.tail hold⟩
    · rcases ih with hpath | ⟨hstart, _⟩
      · exact Or.inr ⟨hpath.to_reflTransGen, .refl⟩
      · exact Or.inr ⟨hstart, .refl⟩

/-- Who waits for nobody is at the end of every path through it. -/
theorem eq_of_reflTransGen {b y : α} (hfree : ∀ c, ¬ R b c) (h : ReflTransGen R b y) : b = y := by
  rcases h.cases_head with rfl | ⟨c, hedge, _⟩
  · rfl
  · exact absurd hedge (hfree c)

theorem not_transGen {b y : α} (hfree : ∀ c, ¬ R b c) : ¬ TransGen R b y := by
  intro hpath
  obtain ⟨c, hedge, _⟩ := TransGen.head'_iff.1 hpath
  exact hfree c hedge

/-- **One more edge** deadlocks nobody if its end waits for nobody. -/
theorem Deadlocked.of_add_edge {a b : α} (hsub : ∀ x y, R' x y → R x y ∨ (x = a ∧ y = b))
    (hfree : ∀ c, ¬ R b c) (h : Deadlocked R') : Deadlocked R := by
  obtain ⟨x, y, hne, hxy, hyx⟩ := h
  rcases transGen_add_edge hsub hxy with hold | ⟨_, hend⟩
  · rcases transGen_add_edge hsub hyx with hold' | ⟨_, hend'⟩
    · exact ⟨x, y, hne, hold, hold'⟩
    · -- the way back ends behind the new edge, from where no way leads on
      obtain rfl := eq_of_reflTransGen hfree hend'
      exact absurd hold (not_transGen hfree)
  · obtain rfl := eq_of_reflTransGen hfree hend
    rcases transGen_add_edge hsub hyx with hold' | ⟨_, hend'⟩
    · exact absurd hold' (not_transGen hfree)
    · exact absurd (eq_of_reflTransGen hfree hend').symm hne

end Quaso
