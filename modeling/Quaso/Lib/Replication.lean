import Mathlib.Data.List.MinMax
import Mathlib.Logic.Function.Basic
import Quaso.Lib.TransitionSystem

/-!
# Replicated state machines

What replication is for: there is one order of events, which only grows, and every
replica applies its events from the first on, at its own pace.  So the state of a
replica is the state that some beginning of the order leads to, and whoever looks at
replicas sees one history, although not always its end.

* `Replication` — an order of events, and how far each replica has got in it.
* `replicationSystem` — more events are decided, or a replica applies its next one.
* `Replication.view` — the state of a replica.
* `longest` — the longest of several lists; where any two of them agree it extends
  them all.
-/

namespace Quaso

/-- An order of events, and how far each replica has got in it. -/
structure Replication (ι ε : Type) where
  order : List ε
  position : ι → Nat
  /-- No replica is ahead of the order. -/
  position_le : ∀ i, position i ≤ order.length

namespace Replication

variable {ι ε σ : Type}

/-- What happens to a replicated state machine. -/
inductive Event (ι ε : Type) where
  /-- More events are decided. -/
  | extend (events : List ε)
  /-- A replica applies its next event. -/
  | advance (i : ι)

/-- Nothing is decided yet. -/
def start (ι ε : Type) : Replication ι ε := ⟨[], fun _ => 0, fun _ => le_rfl⟩

/-- The order with more events at its end. -/
def extend (r : Replication ι ε) (events : List ε) : Replication ι ε where
  order := r.order ++ events
  position := r.position
  position_le := fun i => (r.position_le i).trans (by simp)

@[simp] theorem extend_order (r : Replication ι ε) (events : List ε) :
    (r.extend events).order = r.order ++ events := rfl

@[simp] theorem extend_position (r : Replication ι ε) (events : List ε) :
    (r.extend events).position = r.position := rfl

variable [DecidableEq ι]

/-- Replica `i` has applied its next event. -/
def advance (r : Replication ι ε) (i : ι) (h : r.position i < r.order.length) :
    Replication ι ε where
  order := r.order
  position := Function.update r.position i (r.position i + 1)
  position_le := fun j => by
    by_cases hj : j = i
    · subst hj
      rw [Function.update_self]
      exact h
    · simpa [hj] using r.position_le j

section Advance

variable (r : Replication ι ε) {i j : ι} (h : r.position i < r.order.length)

@[simp] theorem advance_order : (r.advance i h).order = r.order := rfl

@[simp] theorem advance_position_self : (r.advance i h).position i = r.position i + 1 :=
  Function.update_self _ _ _

theorem advance_position_of_ne (hj : j ≠ i) : (r.advance i h).position j = r.position j :=
  Function.update_of_ne hj _ _

end Advance

/-- One step. -/
def step (r : Replication ι ε) : Event ι ε → Option (Replication ι ε)
  | .extend events => some (r.extend events)
  | .advance i => if h : r.position i < r.order.length then some (r.advance i h) else none

end Replication

/-- A replicated state machine as a transition system. -/
def replicationSystem (ι ε : Type) [DecidableEq ι] :
    System (Replication ι ε) (Replication.Event ι ε) where
  Init := fun r => r = .start ι ε
  step := Replication.step

namespace Replication

variable {ι ε σ : Type}

/-- The state of replica `i`: the events up to its position, applied to `init`. -/
def view (apply : σ → ε → σ) (init : σ) (r : Replication ι ε) (i : ι) : σ :=
  (r.order.take (r.position i)).foldl apply init

end Replication

/-! ## The longest of several lists -/

section Longest

variable {ε : Type} {ls : List (List ε)} {l l' : List ε}

/-- The longest of several lists. -/
def longest (ls : List (List ε)) : List ε := (ls.argmax List.length).getD []

/-- It is one of them, if there are any. -/
theorem longest_cases (ls : List (List ε)) : longest ls = [] ∨ longest ls ∈ ls := by
  unfold longest
  cases hmax : ls.argmax List.length with
  | none => exact Or.inl rfl
  | some l => exact Or.inr (List.argmax_mem hmax)

theorem length_le_longest (h : l ∈ ls) : l.length ≤ (longest ls).length := by
  unfold longest
  cases hmax : ls.argmax List.length with
  | none =>
    rw [List.argmax_eq_none.1 hmax] at h
    cases h
  | some l' => exact List.le_of_mem_argmax h hmax

/-- What extends every list extends the longest. -/
theorem longest_isPrefix (h : ∀ l ∈ ls, l <+: l') : longest ls <+: l' := by
  rcases longest_cases ls with hnil | hmem
  · rw [hnil]
    exact List.nil_prefix
  · exact h _ hmem

/-- Where any two lists agree, the longest extends them all. -/
theorem isPrefix_longest (hagree : ∀ a ∈ ls, ∀ b ∈ ls, a <+: b ∨ b <+: a) (h : l ∈ ls) :
    l <+: longest ls := by
  have hle := length_le_longest h
  rcases longest_cases ls with hnil | hmem
  · rw [hnil, List.length_nil, Nat.le_zero] at hle
    rw [List.eq_nil_of_length_eq_zero hle]
    exact List.nil_prefix
  · rcases hagree l h _ hmem with hpre | hpre
    · exact hpre
    · have heq : longest ls = l := hpre.eq_of_length_le hle
      exact heq.symm ▸ List.prefix_rfl

end Longest

end Quaso
