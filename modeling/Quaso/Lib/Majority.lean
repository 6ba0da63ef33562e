import Mathlib.Data.Fintype.Card

/-!
# Majorities

* `Majority` — a property that more than half of the replicas have, with the rules
  `Majority.mono` and `Majority.meet`; `eq_of_majority_count` for the values of a list.
* `Chosen` — an entry that a majority of replicated logs has at a position:
  `Chosen.unique`, and `Chosen.mono` for logs that only grow.
-/

namespace Quaso

variable {ι α : Type} [Fintype ι]

/-- More than half of the replicas have the property. -/
def Majority (P : ι → Prop) : Prop :=
  ∃ A : Finset ι, Fintype.card ι < 2 * A.card ∧ ∀ i ∈ A, P i

theorem Majority.mono {P Q : ι → Prop} (h : Majority P) (himp : ∀ i, P i → Q i) : Majority Q :=
  let ⟨A, hcard, hA⟩ := h
  ⟨A, hcard, fun i hi => himp i (hA i hi)⟩

/-- **Two majorities meet.** -/
theorem Majority.meet [DecidableEq ι] {P Q : ι → Prop} (hP : Majority P) (hQ : Majority Q) :
    ∃ i, P i ∧ Q i := by
  obtain ⟨A, hA, hPA⟩ := hP
  obtain ⟨B, hB, hQB⟩ := hQ
  have hunion : (A ∪ B).card ≤ Fintype.card ι := Finset.card_le_univ _
  have hsum := Finset.card_union_add_card_inter A B
  obtain ⟨i, hi⟩ := Finset.card_pos.1 (show 0 < (A ∩ B).card by omega)
  obtain ⟨hiA, hiB⟩ := Finset.mem_inter.1 hi
  exact ⟨i, hPA i hiA, hQB i hiB⟩

/-- **More than half of a list is equal to at most one value.** -/
theorem eq_of_majority_count [DecidableEq α] {l : List α} {a b : α} {q : Nat}
    (hq : l.length < 2 * q) (ha : q ≤ l.count a) (hb : q ≤ l.count b) : a = b := by
  by_contra hne
  have hsplit : l.length = l.count a + l.countP (fun x => decide (x ≠ a)) := by
    simpa [List.count] using l.length_eq_countP_add_countP (· == a)
  have hle : l.count b ≤ l.countP (fun x => decide (x ≠ a)) := by
    refine List.countP_mono_left fun x _ hx => ?_
    obtain rfl : x = b := by simpa using hx
    exact decide_eq_true (Ne.symm hne)
  omega

/-! ## Replicated logs -/

/-- A longer log has the same entries where the shorter one has any. -/
theorem getElem?_of_isPrefix {l l' : List α} (hpre : l <+: l') {k : Nat} {e : α}
    (h : l[k]? = some e) : l'[k]? = some e := by
  obtain ⟨rest, rfl⟩ := hpre
  rw [List.getElem?_append_left (List.getElem?_eq_some_iff.1 h).1, h]

/-- A majority of the logs has the entry at the position. -/
def Chosen (logs : ι → List α) (k : Nat) (e : α) : Prop := Majority fun i => (logs i)[k]? = some e

/-- At most one entry is chosen at a position. -/
theorem Chosen.unique [DecidableEq ι] {logs : ι → List α} {k : Nat} {e e' : α}
    (h : Chosen logs k e) (h' : Chosen logs k e') : e = e' := by
  obtain ⟨i, hi, hi'⟩ := Majority.meet h h'
  rw [hi] at hi'
  exact Option.some.inj hi'

/-- An entry stays chosen while the logs only grow. -/
theorem Chosen.mono {logs logs' : ι → List α} {k : Nat} {e : α} (h : Chosen logs k e)
    (hpre : ∀ i, logs i <+: logs' i) : Chosen logs' k e :=
  Majority.mono h fun i hi => getElem?_of_isPrefix (hpre i) hi

end Quaso
