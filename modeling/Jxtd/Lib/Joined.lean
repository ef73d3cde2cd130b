import Jxtd.Lib.Strings
import Mathlib.Data.List.Count

/-!
# Strings joined by a separator

* `joinWith b gs`: the strings `gs` with the byte `b` between them.
* `head_joinWith`, `getLast_joinWith`: how they begin and end.
* **`joinWith_injective`**: strings without the separator are read off again.
* **`count_joinWith`**: the number of separators.
-/

namespace Lib

/-- Strings with a separator between them. -/
def joinWith (b : UInt8) : List Str → Str
  | [] => []
  | g :: gs => if gs = [] then g else g ++ b :: joinWith b gs

variable {b : UInt8} {g : Str} {gs gs' : List Str}

@[simp] theorem joinWith_nil : joinWith b [] = [] := rfl

@[simp] theorem joinWith_singleton : joinWith b [g] = g := rfl

theorem joinWith_cons (h : gs ≠ []) : joinWith b (g :: gs) = g ++ b :: joinWith b gs := by
  rw [joinWith, if_neg h]

@[simp] theorem joinWith_cons_cons {g' : Str} :
    joinWith b (g :: g' :: gs) = g ++ b :: joinWith b (g' :: gs) :=
  joinWith_cons (List.cons_ne_nil _ _)

theorem mem_joinWith_cons_of_ne (h : gs ≠ []) : b ∈ joinWith b (g :: gs) := by
  rw [joinWith_cons h]
  simp

/-- **Strings without the separator** are read off again. -/
theorem joinWith_injective (hne : gs ≠ []) (hne' : gs' ≠ []) (h : ∀ g ∈ gs, b ∉ g)
    (h' : ∀ g ∈ gs', b ∉ g) (heq : joinWith b gs = joinWith b gs') : gs = gs' := by
  induction gs generalizing gs' with
  | nil => exact absurd rfl hne
  | cons g gs ih =>
    cases gs' with
    | nil => exact absurd rfl hne'
    | cons g' gs' =>
      rw [List.forall_mem_cons] at h h'
      by_cases hgs : gs = []
      · subst hgs
        by_cases hgs' : gs' = []
        · subst hgs'
          simpa using heq
        · have hmem : b ∈ g := by
            rw [show g = joinWith b [g] from rfl, heq]
            exact mem_joinWith_cons_of_ne hgs'
          exact absurd hmem h.1
      · by_cases hgs' : gs' = []
        · subst hgs'
          have hmem : b ∈ g' := by
            rw [show g' = joinWith b [g'] from rfl, ← heq]
            exact mem_joinWith_cons_of_ne hgs
          exact absurd hmem h'.1
        · rw [joinWith_cons hgs, joinWith_cons hgs'] at heq
          obtain ⟨rfl, hrest⟩ := split_unique h.1 h'.1 heq
          rw [ih hgs hgs' h.2 h'.2 hrest]

/-- **The number of separators.** -/
theorem count_joinWith (h : ∀ g ∈ gs, b ∉ g) : (joinWith b gs).count b = gs.length - 1 := by
  induction gs with
  | nil => simp
  | cons g gs ih =>
    rw [List.forall_mem_cons] at h
    have hg : g.count b = 0 := List.count_eq_zero.mpr h.1
    cases gs with
    | nil => simpa using hg
    | cons g' gs =>
      rw [joinWith_cons_cons, List.count_append, List.count_cons_self, ih h.2, hg]
      simp

/-- What is joined begins like its first string, if that is not empty. -/
theorem head_joinWith (h : g ≠ []) : (joinWith b (g :: gs)).head? = g.head? := by
  cases gs with
  | nil => rfl
  | cons g' gs => rw [joinWith_cons_cons, List.head?_append_of_ne_nil _ h]

/-- What is joined ends like its last string, if that is not empty. -/
theorem exists_getLast_joinWith (hne : gs ≠ []) (h : ∀ g ∈ gs, g ≠ []) :
    ∃ g ∈ gs, (joinWith b gs).getLast? = g.getLast? := by
  induction gs with
  | nil => exact absurd rfl hne
  | cons g gs ih =>
    cases gs with
    | nil => exact ⟨g, List.mem_cons_self, rfl⟩
    | cons g' gs =>
      obtain ⟨l, hl, heq⟩ := ih (List.cons_ne_nil _ _) fun g hg => h g (List.mem_cons_of_mem _ hg)
      refine ⟨l, List.mem_cons_of_mem _ hl, ?_⟩
      have hlast : l.getLast? ≠ none := by
        simpa using h l (List.mem_cons_of_mem _ hl)
      rw [joinWith_cons_cons, ← heq, List.getLast?_append, List.getLast?_cons, heq]
      cases hl' : l.getLast? with
      | none => exact absurd hl' hlast
      | some c => rfl

end Lib
