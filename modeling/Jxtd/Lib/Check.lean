import Jxtd.Lib.Nom

/-!
# Checks that return a verdict or panic

* `Decides`: when a check accepts, and when it panics.
* `FirstFails`: where a list stops having one property, it has another.
* `Decides.and`, `Decides.ite`, `Decides.guard`, **`decides_checkAll`**: one check after another, one
  of two checks, a check behind a guard, and a loop over a list.
-/

namespace Lib

variable {α : Type}

/-- A loop that returns `false` from the function at the first element that fails. -/
def checkAll (f : α → Except Fail Bool) : List α → Except Fail Bool
  | [] => .ok true
  | a :: as => do
    let ok ← f a
    if ok then checkAll f as else .ok false

/-- The check accepts in the first case and panics in the second; it never returns an error. -/
structure Decides (x : Except Fail Bool) (accepts panics : Prop) : Prop where
  accepts_iff : x = .ok true ↔ accepts
  panics_iff : Panics x ↔ panics
  returns : ∀ e, x = .error e → Panics x

/-- The elements of a list satisfy `P` up to one that satisfies `Q`. -/
def FirstFails (P Q : α → Prop) : List α → Prop
  | [] => False
  | a :: as => Q a ∨ P a ∧ FirstFails P Q as

theorem firstFails_iff {P Q : α → Prop} {as : List α} :
    FirstFails P Q as ↔
      ∃ before a after, as = before ++ a :: after ∧ (∀ b ∈ before, P b) ∧ Q a := by
  induction as with
  | nil => exact ⟨fun h => h.elim, fun ⟨before, a, after, h, _⟩ => by simp at h⟩
  | cons a as ih =>
    rw [FirstFails, ih]
    constructor
    · rintro (h | ⟨ha, before, b, after, rfl, hbefore, hb⟩)
      · exact ⟨[], a, as, rfl, fun b hb => absurd hb List.not_mem_nil, h⟩
      · exact ⟨a :: before, b, after, rfl, List.forall_mem_cons.mpr ⟨ha, hbefore⟩, hb⟩
    · rintro ⟨before, b, after, h, hbefore, hb⟩
      cases before with
      | nil =>
        cases h
        exact .inl hb
      | cons c before =>
        cases h
        rw [List.forall_mem_cons] at hbefore
        exact .inr ⟨hbefore.1, before, b, after, rfl, hbefore.2, hb⟩

theorem decides_ok (b : Bool) : Decides (.ok b) (b = true) False where
  accepts_iff := by rw [Except.ok.injEq]
  panics_iff := iff_of_false (not_panics_ok b) not_false
  returns := fun _ h => nomatch h

theorem decides_panics (msg : String) : Decides (.error (.panics msg)) False True where
  accepts_iff := iff_of_false (fun h => nomatch h) not_false
  panics_iff := iff_of_true (panics_panics msg) trivial
  returns := fun _ _ => panics_panics msg

theorem Decides.congr {x : Except Fail Bool} {A A' B B' : Prop} (h : Decides x A B) (hA : A ↔ A')
    (hB : B ↔ B') : Decides x A' B' :=
  ⟨h.accepts_iff.trans hA, h.panics_iff.trans hB, h.returns⟩

/-- **One check after another.** -/
theorem Decides.and {x y : Except Fail Bool} {A B A' B' : Prop} (hx : Decides x A B)
    (hy : Decides y A' B') :
    Decides (x >>= fun ok => if ok then y else .ok false) (A ∧ A') (B ∨ A ∧ B') := by
  cases x with
  | error e =>
    have hpanics := hx.returns e rfl
    have hA : ¬A := fun h => nomatch hx.accepts_iff.mpr h
    have hB : B := hx.panics_iff.mp hpanics
    obtain ⟨msg, h⟩ := hpanics
    cases h
    exact (decides_panics msg).congr (by simp [hA]) (by simp [hB])
  | ok b =>
    have hB : ¬B := fun h => not_panics_ok b (hx.panics_iff.mpr h)
    cases b with
    | false =>
      have hA : ¬A := fun h => nomatch hx.accepts_iff.mpr h
      exact (decides_ok false).congr (by simp [hA]) (by simp [hA, hB])
    | true =>
      have hA : A := hx.accepts_iff.mp rfl
      exact hy.congr (by simp [hA]) (by simp [hA, hB])

theorem Decides.ite {c : Prop} [Decidable c] {x y : Except Fail Bool} {A B A' B' : Prop}
    (hx : Decides x A B) (hy : Decides y A' B') :
    Decides (if c then x else y) (c ∧ A ∨ ¬c ∧ A') (c ∧ B ∨ ¬c ∧ B') := by
  by_cases h : c
  · rw [if_pos h]
    exact hx.congr (by simp [h]) (by simp [h])
  · rw [if_neg h]
    exact hy.congr (by simp [h]) (by simp [h])

/-- **A check behind a guard.** -/
theorem Decides.guard {c : Prop} [Decidable c] {x : Except Fail Bool} {A B : Prop}
    (h : Decides x A B) : Decides (if ¬c then .ok false else x) (c ∧ A) (c ∧ B) := by
  refine ((decides_ok false).ite h).congr ?_ ?_
  · simp
  · simp

/-- **A check of every element of a list.** -/
theorem decides_checkAll (as : List α) {f : α → Except Fail Bool} {P Q : α → Prop}
    (h : ∀ a ∈ as, Decides (f a) (P a) (Q a)) :
    Decides (checkAll f as) (∀ a ∈ as, P a) (FirstFails P Q as) := by
  induction as with
  | nil => exact (decides_ok true).congr (by simp) Iff.rfl
  | cons a as ih =>
    rw [List.forall_mem_cons] at h
    refine (h.1.and (ih h.2)).congr ?_ Iff.rfl
    rw [List.forall_mem_cons]

end Lib
