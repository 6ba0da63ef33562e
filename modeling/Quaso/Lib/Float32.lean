import Mathlib.Data.Nat.Log
import Mathlib.Tactic.Ring

/-!
# Natural numbers through a single-precision float

An unsigned integer cast to a 32-bit float keeps 24 significant bits and is
rounded to nearest, ties to even.  Halving, taking the floor and adding one are
again operations on natural numbers, so a computation that only uses these can
be followed exactly without floats.

* `roundF32` — the value of `n as f32`.
* `roundF32_of_lt` — below `2 ^ 24` the cast is exact.
* `satI32` — the saturating cast of a non-negative float to a signed 32-bit
  integer; `wrapI32` — a signed 32-bit counter that has been incremented `n`
  times from zero.
-/

namespace Quaso
namespace Float32

/-- Divide by `d` and round to nearest, ties to even. -/
def roundDiv (n d : Nat) : Nat :=
  let q := n / d
  let r := n % d
  if d < 2 * r ∨ (d = 2 * r ∧ q % 2 = 1) then q + 1 else q

/-- The value of `n as f32` for an unsigned `n`: exact below `2 ^ 24`, otherwise
the nearest multiple of the spacing of floats of that size. -/
def roundF32 (n : Nat) : Nat :=
  if n < 2 ^ 24 then n
  else
    let ulp := 2 ^ (Nat.log2 n - 23)
    roundDiv n ulp * ulp

/-- The cast of a non-negative float to `i32` saturates at `i32::MAX`. -/
def satI32 (n : Nat) : Nat := min n (2 ^ 31 - 1)

/-- The value of an `i32` that starts at zero after `n` wrapping increments. -/
def wrapI32 (n : Nat) : Int := Int.bmod n (2 ^ 32)

theorem roundF32_of_lt {n : Nat} (h : n < 2 ^ 24) : roundF32 n = n := if_pos h

/-- Rounding never loses more than the bits below the spacing. -/
theorem le_roundF32 {n : Nat} (h : 2 ^ 23 ≤ n) : 2 ^ 23 ≤ roundF32 n := by
  by_cases hlt : n < 2 ^ 24
  · rwa [roundF32_of_lt hlt]
  · have hne : n ≠ 0 := by omega
    have hlog : 23 ≤ Nat.log2 n := (Nat.le_log2 hne).2 h
    have hpos : 0 < 2 ^ (Nat.log2 n - 23) := Nat.two_pow_pos _
    have hsplit : 2 ^ 23 * 2 ^ (Nat.log2 n - 23) ≤ n := by
      rw [← Nat.pow_add, Nat.add_sub_cancel' hlog]
      exact Nat.log2_self_le hne
    have hquot : 2 ^ 23 ≤ roundDiv n (2 ^ (Nat.log2 n - 23)) := by
      have hdiv := (Nat.le_div_iff_mul_le hpos).2 hsplit
      unfold roundDiv
      simp only
      split <;> omega
    rw [roundF32, if_neg hlt]
    exact hquot.trans (Nat.le_mul_of_pos_right _ hpos)

/-- What is at least two stays at least two. -/
theorem two_le_roundF32 {n : Nat} (h : 2 ≤ n) : 2 ≤ roundF32 n := by
  by_cases hlt : n < 2 ^ 24
  · rwa [roundF32_of_lt hlt]
  · exact le_trans (by decide) (le_roundF32 (show 2 ^ 23 ≤ n by omega))

theorem satI32_of_lt {n : Nat} (h : n < 2 ^ 31) : satI32 n = n := by
  unfold satI32
  omega

/-- A counter that has not wrapped shows what it has counted. -/
theorem wrapI32_of_lt {n : Nat} (h : n < 2 ^ 31) : wrapI32 n = n := by
  unfold wrapI32
  rw [Int.bmod_def]
  split <;> omega

/-- A wrapped counter never shows more than it has counted. -/
theorem wrapI32_le (n : Nat) : wrapI32 n ≤ n := by
  unfold wrapI32
  rw [Int.bmod_def]
  split <;> omega

end Float32
end Quaso
