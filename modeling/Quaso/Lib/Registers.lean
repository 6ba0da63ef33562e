import Mathlib.Data.List.Basic
import Mathlib.Data.List.Induction

/-!
# Registers under a sequence of updates

A store has one register for each key, and an update fills some registers, empties
some, and leaves the others alone.  Nothing else is assumed of it (`Updates`).

* `LastAbout` — the last update of a sequence that is about a key, and what it leaves
  there.
* `Updates.read_foldl` — after a sequence of updates a register has what the last
  update about its key left, or what it had before.
-/

namespace Quaso
namespace Registers

variable {σ ε κ ν : Type}

/-- What updates do to registers: `effect e k` is what `e` leaves in the register `k`, if
it is about `k` at all. -/
def Updates (read : σ → κ → Option ν) (apply : σ → ε → σ)
    (effect : ε → κ → Option (Option ν)) : Prop :=
  ∀ s e k, read (apply s e) k = (effect e k).getD (read s k)

/-- The last update about the key leaves `r` there. -/
def LastAbout (effect : ε → κ → Option (Option ν)) (es : List ε) (k : κ) (r : Option ν) : Prop :=
  ∃ before e after, es = before ++ e :: after ∧ effect e k = some r ∧
    ∀ later ∈ after, effect later k = none

variable {effect : ε → κ → Option (Option ν)} {es : List ε} {e : ε} {k : κ} {r r' : Option ν}

theorem not_lastAbout_nil : ¬ LastAbout effect [] k r := by
  rintro ⟨before, e, after, hsplit, -⟩
  simp at hsplit

/-- Where a sequence is cut that has one more update at its end. -/
theorem concat_eq_append_cons {before after : List ε} {e' : ε}
    (h : es ++ [e] = before ++ e' :: after) :
    (after = [] ∧ e = e') ∨ ∃ init, after = init ++ [e] ∧ es = before ++ e' :: init := by
  rcases List.eq_nil_or_concat' after with rfl | ⟨init, last, rfl⟩
  · exact Or.inl ⟨rfl, (List.append_singleton_inj.1 h).2⟩
  · rw [← List.cons_append, ← List.append_assoc] at h
    obtain ⟨hes, rfl⟩ := List.append_singleton_inj.1 h
    exact Or.inr ⟨init, rfl, hes⟩

/-- An update about the key is the last one at the end of a sequence. -/
theorem lastAbout_concat_of_some (he : effect e k = some r') :
    LastAbout effect (es ++ [e]) k r ↔ r' = r := by
  constructor
  · rintro ⟨before, e', after, hsplit, he', hafter⟩
    rcases concat_eq_append_cons hsplit with ⟨-, rfl⟩ | ⟨init, rfl, -⟩
    · exact Option.some.inj (he.symm.trans he')
    · rw [hafter e (by simp)] at he
      cases he
  · rintro rfl
    exact ⟨es, e, [], rfl, he, by simp⟩

/-- An update about other keys leaves the last one what it was. -/
theorem lastAbout_concat_of_none (he : effect e k = none) :
    LastAbout effect (es ++ [e]) k r ↔ LastAbout effect es k r := by
  constructor
  · rintro ⟨before, e', after, hsplit, he', hafter⟩
    rcases concat_eq_append_cons hsplit with ⟨-, rfl⟩ | ⟨init, rfl, hes⟩
    · rw [he] at he'
      cases he'
    · exact ⟨before, e', init, hes, he', fun later hlater => hafter later (by simp [hlater])⟩
  · rintro ⟨before, e', after, rfl, he', hafter⟩
    refine ⟨before, e', after ++ [e], by simp, he', fun later hlater => ?_⟩
    rcases List.mem_append.1 hlater with hlater | hlater
    · exact hafter later hlater
    · rw [List.mem_singleton.1 hlater, he]

/-- **The last update counts.** -/
theorem Updates.read_foldl {read : σ → κ → Option ν} {apply : σ → ε → σ}
    (h : Updates read apply effect) (s : σ) (es : List ε) (k : κ) (v : ν) :
    read (es.foldl apply s) k = some v ↔
      LastAbout effect es k (some v) ∨ (∀ e ∈ es, effect e k = none) ∧ read s k = some v := by
  induction es using List.reverseRecOn with
  | nil => simp [not_lastAbout_nil]
  | append_singleton es e ih =>
    rw [List.foldl_append, List.foldl_cons, List.foldl_nil, h]
    cases he : effect e k with
    | none =>
      rw [Option.getD_none, ih, lastAbout_concat_of_none he]
      simp only [List.forall_mem_append, List.forall_mem_singleton, he, and_true]
    | some r =>
      rw [Option.getD_some, lastAbout_concat_of_some he]
      simp only [List.forall_mem_append, List.forall_mem_singleton, he, reduceCtorEq, and_false,
        false_and, or_false]

end Registers
end Quaso
