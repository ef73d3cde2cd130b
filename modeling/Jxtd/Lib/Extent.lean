import Mathlib.Algebra.GroupWithZero.Nat
import Mathlib.Data.List.Basic
import Mathlib.Tactic.Common

/-!
# Extents in a concatenation

A list of items stands for their concatenation, and an item is referred to by its offset and its
length there.

* `total`: the length of the concatenation.
* `findExtent`: the first item with a given offset and length.
* **`findExtent_concat`**: an appended item is found under its extent, `findExtent_append`: and is
  found there ever after.
* **`take_of_findExtent`**: what is found is cut out of the concatenation, and it lies in it
  (`end_of_findExtent`).
* `Tiles`: extents that follow each other without a gap; **`tiles_append`**.
-/

namespace Lib

variable {α : Type} (size : α → ℕ)

/-- The total size of a list of items. -/
def total (xs : List α) : ℕ := (xs.map size).sum

@[simp] theorem total_nil : total size [] = 0 := rfl

@[simp] theorem total_cons (x : α) (xs : List α) : total size (x :: xs) = size x + total size xs :=
  rfl

@[simp] theorem total_append (xs ys : List α) :
    total size (xs ++ ys) = total size xs + total size ys := by
  rw [total, total, total, List.map_append, List.sum_append]

/-- The first item that starts at `offset` and has the length `len`. -/
def findExtent (offset len : ℕ) : List α → ℕ → Option α
  | [], _ => none
  | x :: xs, cursor =>
    if cursor = offset ∧ size x = len then some x
    else findExtent offset len xs (cursor + size x)

variable {size}

theorem findExtent_append {offset len cursor : ℕ} {xs : List α} {x : α}
    (h : findExtent size offset len xs cursor = some x) (ys : List α) :
    findExtent size offset len (xs ++ ys) cursor = some x := by
  induction xs generalizing cursor with
  | nil => cases h
  | cons y xs ih =>
    simp only [List.cons_append, findExtent] at h ⊢
    split_ifs with hy
    · rwa [if_pos hy] at h
    · rw [if_neg hy] at h
      exact ih h

/-- **An appended item is found under its extent**, provided that all items of length zero are
equal. -/
theorem findExtent_concat (hzero : ∀ x y : α, size x = 0 → size y = 0 → x = y) (xs : List α)
    (x : α) (cursor : ℕ) :
    findExtent size (cursor + total size xs) (size x) (xs ++ [x]) cursor = some x := by
  induction xs generalizing cursor with
  | nil => simp [findExtent]
  | cons y xs ih =>
    rw [List.cons_append, findExtent, total_cons]
    split_ifs with hy
    · -- an item with the same extent, found before `x`, is empty, and so is `x`
      have hy0 : size y = 0 := by omega
      rw [hzero y x hy0 (hy.2 ▸ hy0)]
    · rw [← Nat.add_assoc]
      exact ih (cursor + size y)

theorem le_of_findExtent {offset len cursor : ℕ} {xs : List α} {x : α}
    (h : findExtent size offset len xs cursor = some x) : cursor ≤ offset := by
  induction xs generalizing cursor with
  | nil => cases h
  | cons y xs ih =>
    rw [findExtent] at h
    split_ifs at h with hy
    · exact Nat.le_of_eq hy.1
    · have := ih h
      omega

theorem end_of_findExtent {offset len cursor : ℕ} {xs : List α} {x : α}
    (h : findExtent size offset len xs cursor = some x) :
    offset + len ≤ cursor + total size xs := by
  induction xs generalizing cursor with
  | nil => cases h
  | cons y xs ih =>
    rw [findExtent] at h
    rw [total_cons]
    split_ifs at h with hy
    · omega
    · have := ih h
      omega

/-- **An extent cuts the item out of the concatenation.** -/
theorem take_of_findExtent {β : Type} {content : α → List β}
    (hsize : ∀ x, (content x).length = size x) {offset len cursor : ℕ} {xs : List α} {x : α}
    (h : findExtent size offset len xs cursor = some x) :
    ((xs.flatMap content).drop (offset - cursor)).take len = content x := by
  induction xs generalizing cursor with
  | nil => cases h
  | cons y xs ih =>
    rw [findExtent] at h
    rw [List.flatMap_cons]
    split_ifs at h with hy
    · obtain ⟨rfl, rfl⟩ := hy
      cases h
      rw [Nat.sub_self, List.drop_zero, List.take_left' (hsize x)]
    · have hle := le_of_findExtent h
      have hd : offset - cursor = (content y).length + (offset - (cursor + size y)) := by
        rw [hsize]
        omega
      rw [hd, List.drop_length_add_append]
      exact ih h

/-! ## Extents that follow each other -/

/-- The extents, each a length and an offset, follow each other from `start` to `stop`. -/
def Tiles : ℕ → List (ℕ × ℕ) → ℕ → Prop
  | start, [], stop => start = stop
  | start, e :: es, stop => e.2 = start ∧ Tiles (start + e.1) es stop

theorem tiles_singleton (len offset : ℕ) : Tiles offset [(len, offset)] (offset + len) :=
  ⟨rfl, rfl⟩

/-- **Extents are continued** by those that begin where they end. -/
theorem tiles_append {start stop : ℕ} {es es' : List (ℕ × ℕ)} :
    Tiles start (es ++ es') stop ↔ ∃ mid, Tiles start es mid ∧ Tiles mid es' stop := by
  induction es generalizing start with
  | nil => simp [Tiles]
  | cons e es ih => simp only [List.cons_append, Tiles, ih, and_assoc, exists_and_left]

end Lib
