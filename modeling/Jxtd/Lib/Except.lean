import Mathlib.Data.List.Forall2
import Mathlib.Tactic.Common

/-!
# Computations that may fail

* `bind_eq_ok`, `map_eq_ok`, `map_eq_error`: a sequence that succeeds, or fails, step by step.
* `mapM_eq_ok`, `exists_mapM_eq_ok`: the same for a list of them; `exists_forall₂_iff`,
  `forall₂_iff_forall_mem`.
-/

namespace Lib

variable {E A B : Type}

theorem bind_eq_ok {x : Except E A} {f : A → Except E B} {b : B} :
    x >>= f = .ok b ↔ ∃ a, x = .ok a ∧ f a = .ok b := by
  cases x with
  | error e =>
    refine iff_of_false (fun h => ?_) fun ⟨_, h, _⟩ => ?_
    · cases h
    · cases h
  | ok a =>
    constructor
    · exact fun h => ⟨a, rfl, h⟩
    · rintro ⟨a', ha, h⟩
      cases ha
      exact h

theorem map_eq_ok {x : Except E A} {f : A → B} {b : B} :
    x.map f = .ok b ↔ ∃ a, x = .ok a ∧ f a = b := by
  cases x with
  | error e =>
    refine iff_of_false (fun h => ?_) fun ⟨_, h, _⟩ => ?_
    · cases h
    · cases h
  | ok a =>
    constructor
    · intro h
      cases h
      exact ⟨a, rfl, rfl⟩
    · rintro ⟨a', ha, rfl⟩
      cases ha
      rfl

theorem map_eq_error {x : Except E A} {f : A → B} {e : E} :
    x.map f = .error e ↔ x = .error e := by
  cases x with
  | error e' =>
    constructor
    · intro h
      cases h
      rfl
    · rintro ⟨⟩
      rfl
  | ok a =>
    refine iff_of_false (fun h => ?_) fun h => ?_
    · cases h
    · cases h

theorem map_injective {f : A → B} (hf : Function.Injective f) :
    Function.Injective (Except.map (ε := E) f) := by
  intro x y h
  cases x with
  | error e =>
    cases y with
    | error e' =>
      cases h
      rfl
    | ok b => cases h
  | ok a =>
    cases y with
    | error e' => cases h
    | ok b => rw [hf (Except.ok.inj h)]

@[simp] theorem ok_bind (a : A) (f : A → Except E B) : (Except.ok a >>= f) = f a := rfl

@[simp] theorem error_bind (e : E) (f : A → Except E B) : (Except.error e >>= f) = .error e := rfl

@[simp] theorem pure_eq_ok (a : A) : (pure a : Except E A) = .ok a := rfl

theorem bind_ok (x : Except E A) (f : A → B) : (x >>= fun a => .ok (f a)) = x.map f := by
  cases x with
  | error e => rfl
  | ok a => rfl

theorem mapM_eq_ok {f : A → Except E B} {xs : List A} {ys : List B} :
    xs.mapM f = .ok ys ↔ List.Forall₂ (fun x y => f x = .ok y) xs ys := by
  induction xs generalizing ys with
  | nil =>
    rw [List.mapM_nil, List.forall₂_nil_left_iff]
    constructor
    · intro h
      cases h
      rfl
    · rintro rfl
      rfl
  | cons x xs ih =>
    rw [List.mapM_cons, bind_eq_ok, List.forall₂_cons_left_iff]
    refine exists_congr fun y => ?_
    constructor
    · rintro ⟨hy, h⟩
      obtain ⟨zs, hzs, h⟩ := bind_eq_ok.mp h
      cases h
      exact ⟨zs, hy, ih.mp hzs, rfl⟩
    · rintro ⟨zs, hy, hzs, rfl⟩
      exact ⟨hy, bind_eq_ok.mpr ⟨zs, ih.mpr hzs, rfl⟩⟩

/-- A list of partners exists if every element has one. -/
theorem exists_forall₂_iff {R : A → B → Prop} {xs : List A} :
    (∃ ys, List.Forall₂ R xs ys) ↔ ∀ x ∈ xs, ∃ y, R x y := by
  induction xs with
  | nil => exact iff_of_true ⟨[], .nil⟩ fun x hx => absurd hx List.not_mem_nil
  | cons x xs ih =>
    rw [List.forall_mem_cons, ← ih]
    simp only [List.forall₂_cons_left_iff]
    constructor
    · rintro ⟨_, y, ys, hy, hys, rfl⟩
      exact ⟨⟨y, hy⟩, ys, hys⟩
    · rintro ⟨⟨y, hy⟩, ys, hys⟩
      exact ⟨y :: ys, y, ys, hy, hys, rfl⟩

theorem exists_mapM_eq_ok {f : A → Except E B} {xs : List A} :
    (∃ ys, xs.mapM f = .ok ys) ↔ ∀ x ∈ xs, ∃ y, f x = .ok y := by
  rw [← exists_forall₂_iff]
  exact exists_congr fun ys => mapM_eq_ok

/-- A relation that holds where a condition on the first list does. -/
theorem forall₂_iff_forall_mem {R S : A → B → Prop} {P : A → Prop} {xs : List A} {ys : List B}
    (h : List.Forall₂ R xs ys) (hiff : ∀ x ∈ xs, ∀ y, R x y → (S x y ↔ P x)) :
    List.Forall₂ S xs ys ↔ ∀ x ∈ xs, P x := by
  induction h with
  | nil => exact iff_of_true .nil fun x hx => absurd hx List.not_mem_nil
  | @cons x y xs ys hxy _ ih =>
    rw [List.forall₂_cons, List.forall_mem_cons, hiff x List.mem_cons_self y hxy,
      ih fun x' hx' => hiff x' (List.mem_cons_of_mem x hx')]

end Lib
