import Mathlib.Data.List.Basic
import Mathlib.Logic.Relation
import Mathlib.Order.Nat
import Mathlib.Tactic.Common

/-!
# Adjacency matrices that grow and shrink

A square matrix of Booleans as a list of rows. It grows by a last row and a column of `false`, and
it shrinks by the row and the column of one index.

* `Square n m`, `entry`, `grow`, `shrink`; **`shrink_grow`**: shrinking undoes growing.
* `Lower m`: every entry is to the left of the diagonal; `Lower.grow`, **`Lower.shrink`**.
* **`not_transGen_of_lt`**: a relation that lowers a rank has no cycle.
-/

namespace Lib

/-- A matrix with `n` rows of `n` entries. -/
structure Square (n : ℕ) (m : List (List Bool)) : Prop where
  rows : m.length = n
  cols : ∀ row ∈ m, row.length = n

/-- The entry at `(i, j)`; there is `false` outside the matrix. -/
def entry (m : List (List Bool)) (i j : ℕ) : Bool := (m[i]?.bind fun row => row[j]?).getD false

/-- One more column of `false`, and one more row. -/
def grow (m : List (List Bool)) (row : List Bool) : List (List Bool) :=
  m.map (fun r => r ++ [false]) ++ [row]

/-- Without the row and the column `p`. -/
def shrink (m : List (List Bool)) (p : ℕ) : List (List Bool) :=
  (m.eraseIdx p).map fun row => row.eraseIdx p

variable {n p i j : ℕ} {m : List (List Bool)} {row : List Bool}

theorem square_nil : Square 0 [] := ⟨rfl, fun _ h => (List.not_mem_nil h).elim⟩

theorem Square.grow (h : Square n m) (hrow : row.length = n + 1) : Square (n + 1) (grow m row) := by
  refine ⟨by simp [Lib.grow, h.rows], fun r hr => ?_⟩
  rcases List.mem_append.mp hr with hr | hr
  · obtain ⟨r', hr', rfl⟩ := List.mem_map.mp hr
    simp [h.cols r' hr']
  · rwa [List.mem_singleton.mp hr]

theorem Square.shrink (h : Square (n + 1) m) (hp : p < n + 1) : Square n (shrink m p) := by
  refine ⟨?_, fun r hr => ?_⟩
  · rw [Lib.shrink, List.length_map, List.length_eraseIdx, h.rows, if_pos hp, Nat.add_sub_cancel]
  · obtain ⟨r', hr', rfl⟩ := List.mem_map.mp hr
    rw [List.length_eraseIdx, h.cols r' (List.mem_of_mem_eraseIdx hr'), if_pos hp,
      Nat.add_sub_cancel]

/-- **Shrinking undoes growing.** -/
theorem shrink_grow (h : Square n m) (row : List Bool) : shrink (grow m row) n = m := by
  have hlast : (grow m row).eraseIdx n = m.map fun r => r ++ [false] := by
    rw [grow, List.eraseIdx_append_of_length_le (by simp [h.rows])]
    simp [h.rows]
  rw [shrink, hlast, List.map_map]
  refine (List.map_congr_left fun r hr => ?_).trans (List.map_id m)
  show (r ++ [false]).eraseIdx n = r
  rw [List.eraseIdx_append_of_length_le (h.cols r hr).le, h.cols r hr]
  simp

/-! ## Entries -/

/-- The index in the matrix before the row `p` went. -/
def skip (p i : ℕ) : ℕ := if i < p then i else i + 1

theorem skip_lt_skip (h : j < i) : skip p j < skip p i := by
  unfold skip
  split_ifs <;> omega

theorem entry_shrink (m : List (List Bool)) (p i j : ℕ) :
    entry (shrink m p) i j = entry m (skip p i) (skip p j) := by
  have hrow (row : List Bool) : (row.eraseIdx p)[j]? = row[skip p j]? := by
    rw [List.getElem?_eraseIdx, skip]
    split_ifs <;> rfl
  have hm : (m.eraseIdx p)[i]? = m[skip p i]? := by
    rw [List.getElem?_eraseIdx, skip]
    split_ifs <;> rfl
  rw [entry, entry, shrink, List.getElem?_map, hm]
  cases m[skip p i]? with
  | none => rfl
  | some row => simp [hrow]

/-- The entries of the last row. -/
theorem entry_grow_last (h : Square n m) (row : List Bool) (j : ℕ) :
    entry (grow m row) n j = row[j]?.getD false := by
  rw [entry, grow, List.getElem?_append_right (by simp [h.rows])]
  simp [h.rows]

theorem entry_grow_of_ne (h : Square n m) (row : List Bool) (hi : i ≠ n) (j : ℕ) :
    entry (grow m row) i j = entry m i j := by
  rcases Nat.lt_or_ge i n with hlt | hge
  · have hget : (grow m row)[i]? = (m[i]?).map fun r => r ++ [false] := by
      rw [grow, List.getElem?_append_left (by simpa [h.rows] using hlt), List.getElem?_map]
    rw [entry, entry, hget]
    cases hm : m[i]? with
    | none => rfl
    | some r =>
      show ((r ++ [false])[j]?).getD false = (r[j]?).getD false
      rcases Nat.lt_trichotomy j r.length with hj | rfl | hj
      · rw [List.getElem?_append_left hj]
      · simp
      · rw [List.getElem?_eq_none (by simp; omega), List.getElem?_eq_none hj.le]
  · have hout : (grow m row)[i]? = none := by
      rw [List.getElem?_eq_none]
      simp only [grow, List.length_append, List.length_map, List.length_singleton, h.rows]
      omega
    have hout' : m[i]? = none := List.getElem?_eq_none (h.rows ▸ hge)
    rw [entry, entry, hout, hout']

/-! ## Entries to the left of the diagonal -/

/-- Every entry is to the left of the diagonal. -/
def Lower (m : List (List Bool)) : Prop := ∀ i j, entry m i j = true → j < i

theorem lower_nil : Lower [] := fun _ _ h => by cases h

theorem Lower.grow (hl : Lower m) (h : Square n m)
    (hrow : ∀ j, row[j]?.getD false = true → j < n) : Lower (Lib.grow m row) := by
  intro i j hij
  rcases eq_or_ne i n with rfl | hne
  · exact hrow j ((entry_grow_last h row j).symm.trans hij)
  · exact hl i j ((entry_grow_of_ne h row hne j).symm.trans hij)

/-- **Shrinking keeps the order of the rows and columns.** -/
theorem Lower.shrink (hl : Lower m) (p : ℕ) : Lower (Lib.shrink m p) := by
  intro i j hij
  rw [entry_shrink] at hij
  by_contra hle
  rcases Nat.eq_or_lt_of_le (not_lt.mp hle) with rfl | hlt
  · exact lt_irrefl _ (hl _ _ hij)
  · exact lt_asymm (hl _ _ hij) (skip_lt_skip hlt)

/-- **A relation that lowers a rank has no cycle.** -/
theorem not_transGen_of_lt {α : Type} {r : α → α → Prop} (rank : α → ℕ)
    (h : ∀ a b, r a b → rank b < rank a) (a : α) : ¬ Relation.TransGen r a a := by
  have hlt {a b : α} (hab : Relation.TransGen r a b) : rank b < rank a := by
    induction hab with
    | single hab => exact h _ _ hab
    | tail _ hbc ih => exact (h _ _ hbc).trans ih
  exact fun ha => lt_irrefl _ (hlt ha)

end Lib
