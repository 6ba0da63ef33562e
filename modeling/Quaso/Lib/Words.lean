import Mathlib.Data.List.DropRight

/-!
# Cutting a text

A text is a list, its blanks the elements with a property `p`, and a separator
cuts it into pieces.

* `strip` — the text without the blanks at its two ends: `strip_append` takes them
  off, and `exists_strip_append` says that nothing else is taken.
* `forall_of_isPrefix_append` — a list that repeats itself after some elements has
  only what is in these.
* `of_mem_splitOn`, `mem_of_mem_tail_splitOn` — what is in a piece.
-/

namespace Quaso

variable {α : Type} {p : α → Bool}

/-! ## Blanks at the ends -/

/-- The text without the blanks at its ends. -/
def strip (p : α → Bool) (text : List α) : List α := (text.dropWhile p).rdropWhile p

/-- Blanks around a text that neither begins nor ends with one are taken off. -/
theorem strip_append {before text after : List α} (hbefore : ∀ x ∈ before, p x = true)
    (hafter : ∀ x ∈ after, p x = true) (hhead : ∀ x ∈ text.head?, p x = false)
    (hlast : ∀ x ∈ text.getLast?, p x = false) : strip p (before ++ text ++ after) = text := by
  rw [strip, List.append_assoc, List.dropWhile_append_of_pos hbefore]
  cases text with
  | nil => rw [List.nil_append, List.dropWhile_eq_nil_iff.2 hafter, List.rdropWhile_nil]
  | cons x text =>
    rw [List.cons_append, List.dropWhile_cons_of_neg (by simp [hhead x rfl]), ← List.cons_append,
      List.rdropWhile, List.reverse_append,
      List.dropWhile_append_of_pos fun y hy => hafter y (List.mem_reverse.1 hy)]
    -- From here on it is the text itself, read from its end.
    change (x :: text).rdropWhile p = x :: text
    rw [List.rdropWhile_eq_self_iff]
    intro hne
    simp [hlast _ (List.getLast?_eq_some_getLast hne)]

/-- What is stripped does not begin with a blank. -/
theorem head?_strip {text : List α} {x : α} (h : x ∈ (strip p text).head?) : p x = false := by
  obtain ⟨rest, hstrip⟩ := List.head?_eq_some_iff.1 h
  obtain ⟨after, happ⟩ : strip p text <+: text.dropWhile p := List.rdropWhile_prefix p _
  have hhead := List.head?_dropWhile_not p text
  rw [← happ, hstrip] at hhead
  exact hhead

/-- What is stripped does not end with a blank. -/
theorem getLast?_strip {text : List α} {x : α} (h : x ∈ (strip p text).getLast?) :
    p x = false := by
  obtain ⟨start, hstrip⟩ := List.getLast?_eq_some_iff.1 h
  have hidem : (start ++ [x]).rdropWhile p = start ++ [x] := by
    rw [← hstrip, strip, List.rdropWhile_idempotent]
  simpa using List.rdropWhile_eq_self_iff.1 hidem (by simp)

/-- **Nothing but blanks is taken off**, and only at the end if the text does not begin
with one. -/
theorem exists_strip_append {text : List α} (hhead : ∀ x ∈ text.head?, p x = false) :
    ∃ after, text = strip p text ++ after ∧ ∀ x ∈ after, p x = true := by
  have hfront : text.dropWhile p = text := by
    cases text with
    | nil => rfl
    | cons x text => exact List.dropWhile_cons_of_neg (by simp [hhead x rfl])
  refine ⟨text.rtakeWhile p, ?_, fun x hx => List.mem_rtakeWhile_imp hx⟩
  rw [strip, hfront, List.rdropWhile_append_rtakeWhile]

/-! ## Repetition -/

/-- A list that begins again after some elements has only what these have. -/
theorem forall_of_isPrefix_append {P : α → Prop} {period l : List α} (hne : period ≠ [])
    (hperiod : ∀ x ∈ period, P x) (h : l <+: period ++ l) : ∀ x ∈ l, P x := by
  -- By induction on the length: what follows the period in the list repeats as well.
  induction hlen : l.length using Nat.strong_induction_on generalizing l with
  | _ n ih =>
    rcases List.prefix_or_prefix_of_prefix h (List.prefix_append period l) with hshort | hlong
    · exact fun x hx => hperiod x (hshort.subset hx)
    · obtain ⟨rest, rfl⟩ := hlong
      have hpos := List.length_pos_of_ne_nil hne
      rw [List.length_append] at hlen
      have hall := ih rest.length (by omega) ((List.prefix_append_right_inj period).1 h) rfl
      intro x hx
      rcases List.mem_append.1 hx with hx | hx
      · exact hperiod x hx
      · exact hall x hx

/-! ## Pieces -/

variable [DecidableEq α] {sep : α}

/-- What is in a piece is in the text, and is not the separator. -/
theorem of_mem_splitOn {text piece : List α} {x : α} (h : piece ∈ text.splitOn sep)
    (hx : x ∈ piece) : x ∈ text ∧ x ≠ sep := by
  induction text generalizing piece with
  | nil =>
    obtain rfl : piece = [] := by simpa using h
    cases hx
  | cons y text ih =>
    have hrest : ∀ piece' ∈ text.splitOn sep, x ∈ piece' → x ∈ y :: text ∧ x ≠ sep :=
      fun piece' h' hx' => ⟨List.mem_cons_of_mem y (ih h' hx').1, (ih h' hx').2⟩
    rw [List.splitOn_cons_eq_if_modifyHead] at h
    split at h
    · rcases List.mem_cons.1 h with rfl | h
      · cases hx
      · exact hrest piece h hx
    · rename_i hy
      obtain ⟨first, rest, hsplit⟩ := List.exists_cons_of_ne_nil (List.splitOn_ne_nil sep text)
      rw [hsplit] at h hrest
      rcases List.mem_cons.1 h with rfl | h
      · rcases List.mem_cons.1 hx with rfl | hx
        · exact ⟨List.mem_cons_self, by simpa using hy⟩
        · exact hrest first List.mem_cons_self hx
      · exact hrest piece (List.mem_cons_of_mem _ h) hx

/-- What is in a piece after the first comes after the beginning without a separator. -/
theorem mem_of_mem_tail_splitOn {head text piece : List α} {x : α} (hhead : sep ∉ head)
    (h : piece ∈ ((head ++ text).splitOn sep).tail) (hx : x ∈ piece) : x ∈ text := by
  induction head with
  | nil => exact (of_mem_splitOn (List.mem_of_mem_tail h) hx).1
  | cons y head ih =>
    obtain ⟨hy, hhead⟩ := not_or.1 (mt List.mem_cons.2 hhead)
    refine ih hhead ?_
    rwa [List.cons_append, List.splitOn_cons_eq_if_modifyHead, if_neg (by simpa using Ne.symm hy),
      List.tail_modifyHead] at h

end Quaso
