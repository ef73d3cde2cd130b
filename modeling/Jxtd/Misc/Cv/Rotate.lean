import Jxtd.Lib.Image

/-!
# Rotation

`rotate` of `misc/cv/internal/ImagePrc.cc`.

* `rotate`: the function, with the remainder of C; nothing stands for the null pointer.
* `normalise_angle`: what is left of an angle.
* **`rotate_eq`**: it turns the image by the quarters of the angle.
* **`rotate_action`**: rotations add up.
-/

namespace Jxtd.Misc.Cv

open Lib

variable {α : Type}

/-- `rotate`; that the result is cloned into storage of its own does not change the image. -/
def rotate (src : Image α) (angle : ℤ) : Option (Image α) :=
  if src.empty then none
  else if angle.tmod 90 ≠ 0 then none
  else
    let angle := angle.tmod 360
    let angle := if angle < 0 then 360 + angle else angle
    if angle = 90 then
      let tmp := src.transpose
      some (tmp.flip 1)
    else if angle = 180 then some (src.flip (-1))
    else if angle = 270 then
      let tmp := src.transpose
      some (tmp.flip 0)
    else some src

/-- The remainder of C, brought into the range of a turn. -/
theorem normalise_angle (angle : ℤ) :
    (if angle.tmod 360 < 0 then 360 + angle.tmod 360 else angle.tmod 360) = angle % 360 := by
  rw [Int.tmod_eq_emod]
  split_ifs <;> omega

/-- **A rotation turns** by the quarters of its angle. -/
theorem rotate_eq {src : Image α} {angle : ℤ} (hne : ¬ src.empty) (h : 90 ∣ angle) :
    rotate src angle = some (Image.turnBy (angle / 90) src) := by
  obtain ⟨k, rfl⟩ := h
  have hquarters : 90 * k / 90 = k := by omega
  have hrest : 90 * k % 360 = 90 * (k % 4) := by omega
  have hrange : k % 4 = 0 ∨ k % 4 = 1 ∨ k % 4 = 2 ∨ k % 4 = 3 := by omega
  rw [rotate, if_neg hne, if_neg (by simp)]
  simp only [normalise_angle, hrest, hquarters, Image.turnBy]
  rcases hrange with hk | hk | hk | hk <;> rw [hk]
  · rfl
  · rfl
  · exact congrArg some (Image.turn_turn src).symm
  · exact congrArg some (Image.turn_turn_turn src).symm

/-- **Rotations add up**: each turns by the quarters of its angle, and whole turns change nothing. -/
theorem rotate_action {src : Image α} (hne : ¬ src.empty) {a b : ℤ} (ha : 90 ∣ a) (hb : 90 ∣ b) :
    rotate src a = some (Image.turnBy (a / 90) src) ∧
      (∃ m, rotate src a = some m ∧ rotate m b = rotate src (a + b)) ∧
      (rotate src (a + b)).isSome ∧ ∀ k : ℤ, rotate src (360 * k) = some src := by
  refine ⟨rotate_eq hne ha, ⟨Image.turnBy (a / 90) src, rotate_eq hne ha, ?_⟩, ?_, fun k => ?_⟩
  · have hsum : (a + b) / 90 = a / 90 + b / 90 := Int.add_ediv_of_dvd_left ha
    rw [rotate_eq (by rwa [Image.empty_turnBy]) hb, rotate_eq hne (dvd_add ha hb), hsum,
      Image.turnBy_add]
  · rw [rotate_eq hne (dvd_add ha hb)]
    rfl
  · rw [rotate_eq hne (by omega), Image.turnBy_of_dvd (by omega)]

/-- An image of one row, turned by 90 and by -450 degrees. -/
theorem rotate_action_row :
    let src : Image ℕ := ⟨1, 2, fun _ j => j⟩
    rotate src 90 = some (Image.turnBy (90 / 90) src) ∧ (∃ m, rotate src 90 = some m ∧ rotate m (-450) = rotate src (90 + -450)) ∧
      (rotate src (90 + -450)).isSome ∧ ∀ k : ℤ, rotate src (360 * k) = some src :=
  rotate_action (by decide) (by decide) (by decide)

end Jxtd.Misc.Cv
