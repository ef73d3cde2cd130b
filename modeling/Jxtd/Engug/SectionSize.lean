import Mathlib.Algebra.BigOperators.Group.List.Basic
import Jxtd.Engug.Layout

/-!
# The size of a section in the table

`write_section_header` adds up what the records of a section take. The type of the sum is not
declared; the width of a number, which is added to it, is a `u8`, and so is the sum.

* `additions`: what is added for a value, one after the other; `sum_additions`.
* `EdtSection.SizeExact`: the sum is that of all values, and nothing on the way is too large.
* **`size_exact_iff`**: exactly the sections whose size is computed.
* `longSection`, **`size_overflows`**: eight strings.
-/

namespace Jxtd.Engug

open Lib

/-- What is added to `entry_len` for a value, one after the other. -/
def additions : EdtValue → List ℕ
  | .integer len _ _ => [17, 1, 1, len]
  | .floating len _ _ => [17, 1, 1, len]
  | .seq _ _ => [17, 1, 17]

theorem sum_additions (v : EdtValue) : (additions v).sum = predictedSize v := by
  cases v <;> simp only [additions, predictedSize, List.sum_cons, List.sum_nil] <;> omega

theorem sum_flatMap_additions (vs : List EdtValue) :
    (vs.flatMap additions).sum = (vs.map predictedSize).sum := by
  induction vs with
  | nil => rfl
  | cons v vs ih =>
    rw [List.flatMap_cons, List.sum_append, sum_additions, ih, List.map_cons, List.sum_cons]

/-- **The size of a section is computed**: the loop over the values ends with the sum of what every
value takes, and no sum on the way exceeds a `u8`. -/
structure EdtSection.SizeExact (p : Profile) (s : EdtSection) : Prop where
  computed : ∃ acc, s.values.foldlM (scanValue p) (0, 0) = .ok acc ∧ acc.2 = s.predicted
  fits : ∀ k, ((s.values.flatMap additions).take k).sum < 2 ^ 8

theorem length_le_predicted (vs : List EdtValue) : vs.length ≤ (vs.map predictedSize).sum := by
  induction vs with
  | nil => exact Nat.le_refl 0
  | cons v vs ih =>
    have hv : 1 ≤ predictedSize v := by cases v <;> simp only [predictedSize] <;> omega
    rw [List.length_cons, List.map_cons, List.sum_cons]
    omega

/-- **Exactly which sizes are computed**: those below 256, in either profile. -/
theorem size_exact_iff (p : Profile) (s : EdtSection) : s.SizeExact p ↔ s.predicted < 2 ^ 8 := by
  constructor
  · intro h
    have hall := h.fits (s.values.flatMap additions).length
    rw [List.take_length, sum_flatMap_additions] at hall
    exact hall
  · intro h
    have hcount : s.values.length ≤ s.predicted := length_le_predicted s.values
    have hfold : s.values.foldlM (scanValue p) (0, 0) =
        .ok (0 + s.values.length, 0 + (s.values.map predictedSize).sum) :=
      foldlM_scanValue_of_lt p (by omega) (by rw [Nat.zero_add]; exact h)
    rw [Nat.zero_add, Nat.zero_add] at hfold
    refine ⟨⟨_, hfold, rfl⟩, fun k => lt_of_le_of_lt ?_ h⟩
    have hsplit := List.sum_take_add_sum_drop (s.values.flatMap additions) k
    rw [sum_flatMap_additions] at hsplit
    rw [EdtSection.predicted]
    omega

/-- A section with eight strings under one key. -/
def longSection : EdtSection :=
  { name := .seq 4 0
    entries := AList.singleton (.seq 4 4) ((List.range 8).map fun i => .seq 1 (8 + i))
    data := ⟨"meta" :: "name" :: List.replicate 8 "a"⟩ }

/-- **The size of a section overflows**: of 280 bytes, a release build counts 24, and a debug build
panics. -/
theorem size_overflows :
    longSection.predicted = 280 ∧
    longSection.values.foldlM (scanValue .debug) (0, 0) = .error "attempt to add with overflow" ∧
    longSection.values.foldlM (scanValue .release) (0, 0) = .ok (8, 24) ∧
    ∀ p, ¬longSection.SizeExact p := by
  have hsize : longSection.predicted = 280 := by decide
  refine ⟨hsize, by decide, by decide, fun p h => ?_⟩
  have hlt := h.fits (longSection.values.flatMap additions).length
  rw [List.take_length, sum_flatMap_additions, ← EdtSection.predicted, hsize] at hlt
  omega

end Jxtd.Engug
