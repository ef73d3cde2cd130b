import Mathlib.Dynamics.PeriodicPts.Defs
import Mathlib.Data.Fin.Rev
import Mathlib.Data.Matrix.Basic

/-!
# Images

* `Image`: a matrix of pixels with its size; `transpose`, `flip`, `pixels`.
* `turn`, `turnBy k`: one quarter of a turn, clockwise, and `k` quarters.
* `turn_turn`, `turn_turn_turn`, **`turn_four`**: the quarters as transpositions and flips.
* **`turnBy_add`**: the quarters are an action of the integers.
-/

namespace Lib

/-- A matrix of pixels with its size. -/
structure Image (α : Type) where
  rows : ℕ
  cols : ℕ
  px : Matrix (Fin rows) (Fin cols) α

namespace Image

variable {α : Type}

def empty (m : Image α) : Bool := m.rows == 0 || m.cols == 0

def transpose (m : Image α) : Image α := ⟨m.cols, m.rows, m.px.transpose⟩

/-- The rows are reversed for `code ≤ 0`, the columns for `code ≠ 0`. -/
def flip (m : Image α) (code : ℤ) : Image α :=
  ⟨m.rows, m.cols, fun i j =>
    m.px (if code ≤ 0 then i.rev else i) (if code = 0 then j else j.rev)⟩

/-- The pixels, row by row. -/
def pixels (m : Image α) : List α :=
  (List.finRange m.rows).flatMap fun i => (List.finRange m.cols).map (m.px i)

/-- A quarter of a turn, clockwise. -/
def turn (m : Image α) : Image α := m.transpose.flip 1

/-- Quarters of a turn. -/
def turnBy (k : ℤ) (m : Image α) : Image α := turn^[(k % 4).toNat] m

variable {m : Image α}

theorem mk_congr {r c : ℕ} {p q : Matrix (Fin r) (Fin c) α} (h : ∀ i j, p i j = q i j) :
    (⟨r, c, p⟩ : Image α) = ⟨r, c, q⟩ := by
  congr 1
  ext i j
  exact h i j

/-! ## Quarters of a turn -/

theorem turn_eq (m : Image α) : m.turn = ⟨m.cols, m.rows, fun i j => m.px j.rev i⟩ := rfl

theorem turn_turn (m : Image α) : m.turn.turn = m.flip (-1) := rfl

theorem turn_turn_turn (m : Image α) : m.turn.turn.turn = m.transpose.flip 0 := by
  rw [turn_eq m.turn.turn, turn_turn, transpose, flip, flip]
  apply mk_congr
  intro i j
  simp

/-- **A whole turn** changes nothing. -/
theorem turn_four (m : Image α) : m.turn.turn.turn.turn = m := by
  rw [turn_turn m.turn.turn, turn_turn, flip, flip]
  apply mk_congr
  intro i j
  simp

theorem iterate_turn_mod (n : ℕ) (m : Image α) : turn^[n % 4] m = turn^[n] m :=
  Function.IsPeriodicPt.iterate_mod_apply (show Function.IsPeriodicPt turn 4 m from turn_four m) n

/-- **The quarters add up.** -/
theorem turnBy_add (j k : ℤ) (m : Image α) : turnBy (j + k) m = turnBy k (turnBy j m) := by
  have hsum : ((j + k) % 4).toNat = ((k % 4).toNat + (j % 4).toNat) % 4 := by omega
  rw [turnBy, hsum, iterate_turn_mod, Function.iterate_add_apply]
  rfl

theorem turnBy_of_dvd {k : ℤ} (h : 4 ∣ k) (m : Image α) : turnBy k m = m := by
  have hzero : (k % 4).toNat = 0 := by omega
  rw [turnBy, hzero, Function.iterate_zero_apply]

theorem empty_turn (m : Image α) : m.turn.empty = m.empty := by
  simp [empty, turn, transpose, flip, Bool.or_comm]

theorem empty_turnBy (k : ℤ) (m : Image α) : (turnBy k m).empty = m.empty := by
  rw [turnBy]
  induction (k % 4).toNat generalizing m with
  | zero => rfl
  | succ n ih => rw [Function.iterate_succ_apply, ih, empty_turn]

end Image

end Lib
