import Mathlib.Data.Int.Basic
import Mathlib.Tactic.Ring

/-!
# Sizes kept in an `int`

* `toInt`: the conversion to a signed integer of 32 bits.
* **`toInt_eq_iff`**: which sizes are kept.
-/

namespace Lib

/-- The conversion of an integer to an `int` of 32 bits. -/
@[irreducible]
def toInt (n : ℤ) : ℤ := n.bmod (2 ^ 32)

theorem toInt_range (n : ℤ) : -2 ^ 31 ≤ toInt n ∧ toInt n < 2 ^ 31 := by
  rw [toInt, Int.bmod_def]
  split_ifs <;> omega

/-- What is kept modulo `2 ^ 32`. -/
theorem exists_toInt (n : ℤ) : ∃ k : ℤ, n = toInt n + 2 ^ 32 * k := by
  refine ⟨(n - toInt n) / 2 ^ 32, ?_⟩
  rw [toInt, Int.bmod_def]
  split_ifs <;> omega

theorem toInt_of_range {n : ℤ} (hlo : -2 ^ 31 ≤ n) (hhi : n < 2 ^ 31) : toInt n = n := by
  obtain ⟨k, hk⟩ := exists_toInt n
  have hrange := toInt_range n
  omega

theorem toInt_of_lt {n : ℕ} (h : n < 2 ^ 31) : toInt n = n :=
  toInt_of_range (by omega) (by omega)

/-- **A size is kept exactly below `2 ^ 31`.** -/
theorem toInt_eq_iff (n : ℕ) : toInt n = n ↔ n < 2 ^ 31 := by
  constructor
  · intro h
    have hrange := toInt_range n
    omega
  · exact toInt_of_lt

/-- A size never grows. -/
theorem toInt_le (n : ℕ) : toInt n ≤ n := by
  obtain ⟨k, hk⟩ := exists_toInt n
  have hrange := toInt_range n
  omega

end Lib
