import Jxtd.Lib.Run
import Jxtd.Lib.Window
import Jxtd.Misc.Cv.Rotate

/-!
# Windows and rotations

`rectangle` of `misc/cv/internal/ImagePrc.cc`, and sequences of calls of it and of `rotate`.

* `rectangle`: the function; `Stop`: how it does not return the image.
* `Call`, `step`: the calls of both functions on one image.
* `step_map`, `run_map_px`: a call moves the pixels, whatever they are.
* `run_shows`: what is left after a run is a part of the image, turned.
* **`pipeline_eq`**: every run is one window and one rotation, the same for all images of a size.
-/

namespace Jxtd.Misc.Cv.Internal

open Lib

/-- A null pointer, with the image that is left, or an `int` that overflows. -/
inductive Stop (α : Type)
  | null (left : Image α)
  | overflow

section Functions

variable {α : Type}

/-- A matrix that was released. -/
def released : Image α := ⟨0, 0, fun i => i.elim0⟩

/-- `rectangle` -/
def rectangle (src : Image α) (x y width height : ℤ) : Except (Stop α) (Image α) :=
  if src.empty then .error (.null src)
  else if hneg : x < 0 ∨ y < 0 ∨ height < 0 ∨ width < 0 then .error (.null src)
  else if 2 ^ 31 ≤ x + width then .error .overflow
  else if hright : src.cols < x + width then .error (.null src)
  else if 2 ^ 31 ≤ y + height then .error .overflow
  else if hbottom : src.rows < y + height then .error (.null src)
  -- `copyTo` releases its target when there is nothing to copy
  else if harea : width = 0 ∨ height = 0 then .error (.null released)
  else .ok (src.crop
    { x := x.toNat, y := y.toNat, width := width.toNat, height := height.toNat
      width_pos := by omega, height_pos := by omega
      right := by omega, bottom := by omega })

/-- A call on an image. -/
inductive Call
  | rectangle (x y width height : ℤ)
  | rotate (angle : ℤ)

/-- The image after a call that returns it. -/
def step (src : Image α) : Call → Except (Stop α) (Image α)
  | .rectangle x y width height => rectangle src x y width height
  | .rotate angle =>
    match rotate src angle with
    | none => .error (.null src)
    | some m => .ok m

end Functions

/-! ## Pixels -/

section Pixels

variable {α β : Type} (f : α → β)

/-- A stop with other pixels. -/
def Stop.map : Stop α → Stop β
  | null left => null (left.map f)
  | overflow => overflow

/-- A result with other pixels. -/
def mapResult : Except (Stop α) (Image α) → Except (Stop β) (Image β)
  | .ok m => .ok (m.map f)
  | .error e => .error (e.map f)

theorem map_released : (released : Image α).map f = released :=
  Image.mk_congr fun i => i.elim0

theorem rectangle_map (src : Image α) (x y width height : ℤ) :
    rectangle (src.map f) x y width height = mapResult f (rectangle src x y width height) := by
  have hempty : (src.map f).empty = src.empty := rfl
  have hcols : (src.map f).cols = src.cols := rfl
  have hrows : (src.map f).rows = src.rows := rfl
  simp only [rectangle, hempty, hcols, hrows]
  split_ifs
  · rfl
  · rfl
  · rfl
  · rfl
  · rfl
  · rfl
  · rw [mapResult, Stop.map, map_released]
  · rfl

theorem rotate_map (src : Image α) (angle : ℤ) :
    rotate (src.map f) angle = (rotate src angle).map (Image.map f) := by
  have hempty : (src.map f).empty = src.empty := rfl
  simp only [rotate, hempty]
  split_ifs <;> rfl

/-- **A call moves the pixels**, whatever they are. -/
theorem step_map (src : Image α) (call : Call) :
    step (src.map f) call = mapResult f (step src call) := by
  cases call with
  | rectangle x y width height => exact rectangle_map f src x y width height
  | rotate angle =>
    rw [step, step, rotate_map]
    cases rotate src angle with
    | none => rfl
    | some m => rfl

theorem run_map_px (src : Image α) (calls : List Call) :
    run step (src.map f) calls = mapResult f (run step src calls) := by
  induction calls generalizing src with
  | nil => rfl
  | cons call calls ih =>
    have hstep := step_map f src call
    cases h : step src call with
    | error e =>
      rw [h] at hstep
      rw [run_cons_error hstep, run_cons_error h]
      rfl
    | ok m =>
      rw [h] at hstep
      rw [run_cons_ok hstep, run_cons_ok h, ih]

end Pixels

/-! ## Runs -/

section Runs

variable {α : Type} {src m : Image α}

theorem exists_window {x y width height : ℤ} (h : rectangle src x y width height = .ok m) :
    ∃ w, m = src.crop w := by
  rw [rectangle] at h
  split_ifs at h
  cases h
  exact ⟨_, rfl⟩

theorem rectangle_window (hcols : src.cols < 2 ^ 31) (hrows : src.rows < 2 ^ 31)
    (w : Window src.rows src.cols) : rectangle src w.x w.y w.width w.height = .ok (src.crop w) := by
  have hw := w.width_pos
  have hh := w.height_pos
  have hright := w.right
  have hbottom := w.bottom
  have hne : ¬ src.empty = true := by
    rw [Image.empty, Bool.or_eq_true, beq_iff_eq, beq_iff_eq]
    omega
  rw [rectangle, if_neg hne, dif_neg (by omega), if_neg (by omega), dif_neg (by omega),
    if_neg (by omega), dif_neg (by omega), dif_neg (by omega)]
  rfl

theorem of_rotate {angle : ℤ} (h : rotate src angle = some m) :
    ∃ n, m = Image.turn^[n] src := by
  have hangle : ¬ src.empty = true ∧ 90 ∣ angle := by
    rw [rotate] at h
    split_ifs at h with hne hmod
    all_goals exact ⟨hne, Int.dvd_of_tmod_eq_zero (not_not.mp hmod)⟩
  rw [rotate_eq hangle.1 hangle.2] at h
  exact ⟨_, (Option.some.inj h).symm⟩

/-- What is shown is a part of the image, turned. -/
def Shows (src m : Image α) : Prop := ∃ w n, m = Image.turn^[n] (src.crop w)

theorem Shows.step {m' : Image α} {call : Call} (h : Shows src m) (hstep : step m call = .ok m') :
    Shows src m' := by
  obtain ⟨w, n, rfl⟩ := h
  cases call with
  | rectangle x y width height =>
    obtain ⟨v, rfl⟩ := exists_window hstep
    obtain ⟨v, hv⟩ := Image.exists_crop_iterate n v
    exact ⟨w.within v, n, hv.trans (congrArg _ (Image.crop_crop w v))⟩
  | rotate angle =>
    rw [Internal.step] at hstep
    split at hstep
    · cases hstep
    · rename_i hrotate
      cases hstep
      obtain ⟨k, rfl⟩ := of_rotate hrotate
      exact ⟨w, k + n, (Function.iterate_add_apply ..).symm⟩

/-- **What is left after a run** is a part of the image, turned. -/
theorem run_shows {calls : List Call} (hne : ¬ src.empty = true) (h : run step src calls = .ok m) :
    Shows src m := by
  rw [Image.empty, Bool.or_eq_true, beq_iff_eq, beq_iff_eq, not_or] at hne
  refine run_invariant (fun _ _ _ hs hstep => hs.step hstep) ?_ h
  exact ⟨Window.full (Nat.pos_of_ne_zero hne.1) (Nat.pos_of_ne_zero hne.2), 0,
    (Image.crop_full _ _).symm⟩

/-- One window and one rotation. -/
theorem run_window (hcols : src.cols < 2 ^ 31) (hrows : src.rows < 2 ^ 31)
    (w : Window src.rows src.cols) (k : ℕ) :
    run step src [.rectangle w.x w.y w.width w.height, .rotate (90 * k)] =
      .ok (Image.turn^[k] (src.crop w)) := by
  have hrotate : step (src.crop w) (.rotate (90 * k)) = .ok (Image.turn^[k] (src.crop w)) := by
    have hempty : ¬ (src.crop w).empty = true := by rw [Image.empty_crop]; exact Bool.false_ne_true
    have hquarters : ((90 * k : ℤ) / 90 % 4).toNat = k % 4 := by omega
    rw [step, rotate_eq hempty (dvd_mul_right ..), Image.turnBy, hquarters, Image.iterate_turn_mod]
  rw [run_cons_ok (rectangle_window hcols hrows w), run_cons_ok hrotate, run_nil]

/-- **Every run is one window and one rotation.** Calls that return an image do for every image of
its size, whatever its pixels are, what one window and one rotation do. -/
theorem pipeline_eq {calls : List Call} (hne : ¬ src.empty = true) (hcols : src.cols < 2 ^ 31)
    (hrows : src.rows < 2 ^ 31) (h : run step src calls = .ok m) :
    ∃ w : Window src.rows src.cols, ∃ k : ℕ, k < 4 ∧
      ∀ (β : Type) (px : Matrix (Fin src.rows) (Fin src.cols) β), ∃ m',
        run step ⟨src.rows, src.cols, px⟩ calls = .ok m' ∧
        run step ⟨src.rows, src.cols, px⟩
          [.rectangle w.x w.y w.width w.height, .rotate (90 * k)] = .ok m' := by
  -- the run on the image of the places is that on all images
  have hplaces : ∃ m₀, run step (Image.places src.rows src.cols) calls = .ok m₀ := by
    have hmap := run_map_px (fun p => src.px p.1 p.2) (Image.places src.rows src.cols) calls
    rw [Image.map_places] at hmap
    cases hrun : run step (Image.places src.rows src.cols) calls with
    | ok m₀ => exact ⟨m₀, rfl⟩
    | error e =>
      rw [hrun] at hmap
      cases hmap.symm.trans h
  obtain ⟨m₀, hrun⟩ := hplaces
  obtain ⟨w, n, rfl⟩ := @run_shows _ (Image.places src.rows src.cols) m₀ calls hne hrun
  refine ⟨w, n % 4, Nat.mod_lt n (Nat.succ_pos 3), fun β px => ?_⟩
  have hcalls := run_map_px (fun p => px p.1 p.2) (Image.places src.rows src.cols) calls
  have hwindow := run_map_px (fun p => px p.1 p.2) (Image.places src.rows src.cols)
    [.rectangle w.x w.y w.width w.height, .rotate (90 * (n % 4 : ℕ))]
  have hnormal := @run_window _ (Image.places src.rows src.cols) hcols hrows w (n % 4)
  rw [Image.map_places, hrun] at hcalls
  rw [Image.map_places, hnormal, Image.iterate_turn_mod] at hwindow
  exact ⟨_, hcalls, hwindow⟩

/-- The middle of a turned row, turned once more. -/
theorem pipeline_eq_row :
    ∃ w : Window 1 3, ∃ k : ℕ, k < 4 ∧ ∀ (β : Type) (px : Matrix (Fin 1) (Fin 3) β), ∃ m',
      run step ⟨1, 3, px⟩ [.rotate 90, .rectangle 0 1 1 1, .rotate (-450)] = .ok m' ∧
      run step ⟨1, 3, px⟩ [.rectangle w.x w.y w.width w.height, .rotate (90 * k)] = .ok m' := by
  have hrun : ∃ m, run step (Image.places 1 3) [.rotate 90, .rectangle 0 1 1 1, .rotate (-450)] =
      .ok m := ⟨_, rfl⟩
  obtain ⟨m, hrun⟩ := hrun
  exact @pipeline_eq _ (Image.places 1 3) m _ (by decide) (by decide) (by decide) hrun

end Runs

end Jxtd.Misc.Cv.Internal
