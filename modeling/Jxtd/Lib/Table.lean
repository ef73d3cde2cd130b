import Mathlib.Data.List.InsertIdx
import Mathlib.Data.List.Nodup
import Mathlib.Data.List.Perm.Basic
import Mathlib.Tactic.Common

/-!
# Square tables indexed by a list

`table f xs` is the matrix of `f` with its rows and columns in the order of `xs`. A new last index,
a deleted index and a changed cell of the matrix are the same change of `xs` or of `f`.

* `table_eraseIdx`: deleting row `p` and column `p` deletes the index at `p`.
* `table_concat`: a new last row and column.
* `table_set`: one changed cell.
* `map_idxOf_self`: the positions in a list without repetition are `0, …, n - 1`.
-/

namespace Lib

variable {α β : Type}

/-- The matrix of `f` over the indices `xs`. -/
def table (f : α → α → β) (xs : List α) : List (List β) := xs.map fun x => xs.map (f x)

@[simp] theorem length_table (f : α → α → β) (xs : List α) : (table f xs).length = xs.length :=
  List.length_map ..

theorem length_of_mem_table {f : α → α → β} {xs : List α} {row : List β}
    (h : row ∈ table f xs) : row.length = xs.length := by
  obtain ⟨x, -, rfl⟩ := List.mem_map.mp h
  exact List.length_map ..

theorem table_congr {f g : α → α → β} {xs : List α} (h : ∀ x ∈ xs, ∀ y ∈ xs, f x y = g x y) :
    table f xs = table g xs :=
  List.map_congr_left fun x hx => List.map_congr_left fun y hy => h x hx y hy

/-- **Deleting a row and the column of the same index.** -/
theorem table_eraseIdx (f : α → α → β) (xs : List α) (p : ℕ) :
    ((table f xs).eraseIdx p).map (fun row => row.eraseIdx p) = table f (xs.eraseIdx p) := by
  rw [table, List.eraseIdx_map, List.map_map, table]
  refine List.map_congr_left fun x _ => ?_
  rw [Function.comp_apply, List.eraseIdx_map]

/-- **A new last index.** -/
theorem table_concat (f : α → α → β) (xs : List α) (z : α) :
    table f (xs ++ [z]) =
      (xs.map fun x => xs.map (f x) ++ [f x z]) ++ [xs.map (f z) ++ [f z z]] := by
  simp only [table, List.map_append, List.map_cons, List.map_nil]

variable [DecidableEq α]

theorem getElem?_map_idxOf {xs : List α} {x : α} (hx : x ∈ xs) (f : α → β) :
    (xs.map f)[xs.idxOf x]? = some (f x) := by
  rw [List.getElem?_map, List.getElem?_idxOf hx, Option.map_some]

theorem map_set_idxOf {xs : List α} (hxs : xs.Nodup) (x : α) (f : α → β) (v : β) :
    (xs.map f).set (xs.idxOf x) v = xs.map fun y => if y = x then v else f y := by
  refine List.ext_getElem (by simp) fun i h₁ h₂ => ?_
  have hi : i < xs.length := by simpa using h₂
  rw [List.getElem_set, List.getElem_map, List.getElem_map]
  refine if_congr ⟨fun h => ?_, fun h => ?_⟩ rfl rfl
  · subst h
    exact List.getElem_idxOf _
  · rw [← h, hxs.idxOf_getElem]

/-- **One changed cell.** -/
theorem table_set {xs : List α} (hxs : xs.Nodup) (x y : α) (f : α → α → β) (v : β) :
    (table f xs).set (xs.idxOf x) ((xs.map (f x)).set (xs.idxOf y) v) =
      table (fun a b => if a = x ∧ b = y then v else f a b) xs := by
  rw [table, map_set_idxOf hxs, table]
  refine List.map_congr_left fun a _ => ?_
  by_cases ha : a = x
  · subst ha
    rw [if_pos rfl, map_set_idxOf hxs]
    simp only [true_and]
  · rw [if_neg ha]
    simp only [ha, false_and, if_false]

/-- **The positions in a list without repetition.** -/
theorem map_idxOf_self {xs : List α} (hxs : xs.Nodup) :
    xs.map (fun x => xs.idxOf x) = List.range xs.length := by
  refine List.ext_getElem (by simp) fun i h₁ h₂ => ?_
  rw [List.getElem_map, List.getElem_range, hxs.idxOf_getElem]

end Lib
