import Mathlib.Data.List.Nodup
import Mathlib.Logic.Function.Basic
import Mathlib.Tactic.Common

/-!
# Objects behind pointers

Objects that are allocated and deleted. A pointer is the number of its allocation, so that a pointer
to an object that was deleted never points to another one.

* `Objects`: what is alive; `Objects.alloc`, `Objects.set`, `Objects.delete`.
* `Objects.deleteAll`: the objects behind a list of pointers are deleted, one after the other.
* **`deleteAll_eq_some_iff`**: this succeeds exactly for live pointers that are all different.
-/

namespace Lib

/-- The objects that are alive, by the number of their allocation. -/
structure Objects (T : Type) where
  live : ℕ → Option T
  fresh : ℕ
  unborn : ∀ p, fresh ≤ p → live p = none

namespace Objects

variable {T : Type}

/-- No object. -/
def empty : Objects T := ⟨fun _ => none, 0, fun _ _ => rfl⟩

/-- A new object. -/
def alloc (o : Objects T) (t : T) : Objects T where
  live := Function.update o.live o.fresh (some t)
  fresh := o.fresh + 1
  unborn p hp := by
    rw [Function.update_of_ne (by omega)]
    exact o.unborn p (by omega)

/-- A live object is changed. -/
def set (o : Objects T) (p : ℕ) (t : T) (h : (o.live p).isSome) : Objects T where
  live := Function.update o.live p (some t)
  fresh := o.fresh
  unborn q hq := by
    have hne : q ≠ p := by
      rintro rfl
      rw [o.unborn q hq] at h
      cases h
    rw [Function.update_of_ne hne, o.unborn q hq]

/-- An object is deleted. -/
def delete (o : Objects T) (p : ℕ) : Objects T where
  live := Function.update o.live p none
  fresh := o.fresh
  unborn q hq := by
    by_cases h : q = p
    · rw [h, Function.update_self]
    · rw [Function.update_of_ne h, o.unborn q hq]

/-- The objects behind some pointers are deleted; none when one of them is not alive. -/
def deleteAll (o : Objects T) : List ℕ → Option (Objects T)
  | [] => some o
  | p :: ps => if (o.live p).isSome then (o.delete p).deleteAll ps else none

variable {o o' : Objects T} {p q : ℕ} {t : T}

@[simp] theorem alloc_self : (o.alloc t).live o.fresh = some t := Function.update_self ..

theorem alloc_of_lt (h : p < o.fresh) : (o.alloc t).live p = o.live p :=
  Function.update_of_ne (Nat.ne_of_lt h) ..

theorem lt_of_live (h : (o.live p).isSome) : p < o.fresh := by
  by_contra hp
  rw [o.unborn p (Nat.le_of_not_lt hp)] at h
  cases h

@[simp] theorem set_self (h : (o.live p).isSome) : (o.set p t h).live p = some t :=
  Function.update_self ..

theorem set_ne (h : (o.live p).isSome) (hne : q ≠ p) : (o.set p t h).live q = o.live q :=
  Function.update_of_ne hne ..

@[simp] theorem isSome_set (h : (o.live p).isSome) :
    ((o.set p t h).live q).isSome = (o.live q).isSome := by
  by_cases hq : q = p
  · rw [hq, set_self, h]
    rfl
  · rw [set_ne h hq]

@[simp] theorem delete_self : (o.delete p).live p = none := Function.update_self ..

theorem delete_ne (hne : q ≠ p) : (o.delete p).live q = o.live q := Function.update_of_ne hne ..

/-- **When all of a list can be deleted.** -/
theorem deleteAll_eq_some_iff {ps : List ℕ} :
    (o.deleteAll ps).isSome ↔ ps.Nodup ∧ ∀ p ∈ ps, (o.live p).isSome := by
  induction ps generalizing o with
  | nil => simp [deleteAll]
  | cons p ps ih =>
    rw [deleteAll, List.nodup_cons, List.forall_mem_cons]
    by_cases hp : (o.live p).isSome
    · rw [if_pos hp, ih]
      constructor
      · rintro ⟨hnodup, hlive⟩
        have hnot : p ∉ ps := by
          intro hmem
          have h := hlive p hmem
          rw [delete_self] at h
          cases h
        refine ⟨⟨hnot, hnodup⟩, hp, fun q hq => ?_⟩
        have h := hlive q hq
        rwa [delete_ne (ne_of_mem_of_not_mem hq hnot)] at h
      · rintro ⟨⟨hnot, hnodup⟩, -, hlive⟩
        refine ⟨hnodup, fun q hq => ?_⟩
        rw [delete_ne (ne_of_mem_of_not_mem hq hnot)]
        exact hlive q hq
    · rw [if_neg hp]
      exact iff_of_false (by simp) fun h => hp h.2.1

/-- What is alive after a list was deleted. -/
theorem live_deleteAll {ps : List ℕ} (h : o.deleteAll ps = some o') (q : ℕ) :
    o'.live q = if q ∈ ps then none else o.live q := by
  induction ps generalizing o with
  | nil =>
    cases h
    simp
  | cons p ps ih =>
    rw [deleteAll] at h
    split_ifs at h
    rw [ih h]
    by_cases hq : q = p
    · simp [hq]
    · simp [hq, delete_ne hq]

end Objects

end Lib
