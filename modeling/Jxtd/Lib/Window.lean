import Jxtd.Lib.Image
import Mathlib.Tactic.Common

/-!
# Windows of images

* `Window`: a part of an image of some size, with an area; `Window.within`, `Window.unturn`.
* `crop`: what a window shows; `map`: an image with other pixels.
* `crop_crop`, **`crop_turn`**: a window of a window, and of an image that was turned.
* `exists_crop_iterate`: the turns can be left for the end.
-/

namespace Lib

/-- A part of an image of some size, with an area. -/
structure Window (rows cols : ℕ) where
  x : ℕ
  y : ℕ
  width : ℕ
  height : ℕ
  width_pos : 0 < width
  height_pos : 0 < height
  right : x + width ≤ cols
  bottom : y + height ≤ rows

namespace Window

variable {rows cols : ℕ}

/-- All of the image. -/
def full (hrows : 0 < rows) (hcols : 0 < cols) : Window rows cols :=
  ⟨0, 0, cols, rows, hcols, hrows, by omega, by omega⟩

/-- The row of the image behind a row of the window. -/
def row (w : Window rows cols) (i : Fin w.height) : Fin rows :=
  ⟨w.y + i, by have := w.bottom; omega⟩

/-- The column of the image behind a column of the window. -/
def col (w : Window rows cols) (j : Fin w.width) : Fin cols :=
  ⟨w.x + j, by have := w.right; omega⟩

/-- A part of what the window shows. -/
def within (w : Window rows cols) (v : Window w.height w.width) : Window rows cols where
  x := w.x + v.x
  y := w.y + v.y
  width := v.width
  height := v.height
  width_pos := v.width_pos
  height_pos := v.height_pos
  right := by have := w.right; have := v.right; omega
  bottom := by have := w.bottom; have := v.bottom; omega

/-- The part of an image that becomes the window when the image is turned. -/
def unturn (w : Window cols rows) : Window rows cols where
  x := w.y
  y := rows - w.x - w.width
  width := w.height
  height := w.width
  width_pos := w.height_pos
  height_pos := w.width_pos
  right := w.bottom
  bottom := by have := w.right; omega

end Window

namespace Image

variable {α β : Type}

/-- What a window shows. -/
def crop (m : Image α) (w : Window m.rows m.cols) : Image α :=
  ⟨w.height, w.width, m.px.submatrix w.row w.col⟩

/-- Every pixel is replaced. -/
def map (f : α → β) (m : Image α) : Image β := ⟨m.rows, m.cols, m.px.map f⟩

/-- The image of the places. -/
def places (rows cols : ℕ) : Image (Fin rows × Fin cols) := ⟨rows, cols, fun i j => (i, j)⟩

variable {m : Image α}

theorem map_places {rows cols : ℕ} (px : Matrix (Fin rows) (Fin cols) α) :
    (places rows cols).map (fun p => px p.1 p.2) = ⟨rows, cols, px⟩ := rfl

theorem crop_full (hrows : 0 < m.rows) (hcols : 0 < m.cols) :
    m.crop (Window.full hrows hcols) = m := by
  apply mk_congr
  intro i j
  have hrow : (Window.full hrows hcols).row i = i := Fin.ext (Nat.zero_add _)
  have hcol : (Window.full hrows hcols).col j = j := Fin.ext (Nat.zero_add _)
  rw [Matrix.submatrix_apply, hrow, hcol]

/-- A window of a window. -/
theorem crop_crop (w : Window m.rows m.cols) (v : Window w.height w.width) :
    (m.crop w).crop v = m.crop (w.within v) := by
  apply mk_congr
  intro i j
  simp [crop, Window.within, Window.row, Window.col, Nat.add_assoc]

/-- **A window of an image that was turned** is a part of the image, turned. -/
theorem crop_turn (w : Window m.cols m.rows) : m.turn.crop w = (m.crop w.unturn).turn := by
  apply mk_congr
  intro i j
  have hright := w.right
  have hrow : (w.col j).rev = w.unturn.row j.rev := by
    ext
    simp only [Window.col, Window.row, Window.unturn, Fin.val_rev]
    omega
  change m.px (w.col j).rev (w.row i) = m.px (w.unturn.row j.rev) (w.unturn.col i)
  rw [hrow]
  rfl

/-- **The turns can be left for the end.** -/
theorem exists_crop_iterate (n : ℕ) (w : Window (turn^[n] m).rows (turn^[n] m).cols) :
    ∃ v, (turn^[n] m).crop w = turn^[n] (m.crop v) := by
  induction n generalizing m with
  | zero => exact ⟨w, rfl⟩
  | succ n ih =>
    obtain ⟨v, hv⟩ := @ih m.turn w
    exact ⟨Window.unturn v, hv.trans (congrArg turn^[n] (crop_turn v))⟩

theorem empty_crop (w : Window m.rows m.cols) : (m.crop w).empty = false := by
  simp [empty, crop, w.width_pos.ne', w.height_pos.ne']

end Image

end Lib
