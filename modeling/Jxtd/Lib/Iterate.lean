import Mathlib.Tactic.Common

/-!
# Iteration of a partial step

* `iterate next n s`: the state after `n` steps, if all of them can be taken.
* `iterate_invariant`: what every step keeps.
* **`iterate_total`**: an invariant under which a step can always be taken.
* **`iterate_stops`**: a measure that every step lowers bounds the number of steps.
-/

namespace Lib

variable {S : Type} {next : S → Option S}

/-- The state after `n` steps; none when one of them cannot be taken. -/
def iterate (next : S → Option S) : ℕ → S → Option S
  | 0, s => some s
  | n + 1, s => (next s).bind (iterate next n)

@[simp] theorem iterate_zero (s : S) : iterate next 0 s = some s := rfl

theorem iterate_succ {s s' : S} (h : next s = some s') (n : ℕ) :
    iterate next (n + 1) s = iterate next n s' := by
  rw [iterate, h, Option.bind_some]

theorem iterate_add (m n : ℕ) (s : S) :
    iterate next (m + n) s = (iterate next m s).bind (iterate next n) := by
  induction m generalizing s with
  | zero => rw [Nat.zero_add, iterate_zero, Option.bind_some]
  | succ m ih =>
    rw [Nat.succ_add, iterate, iterate]
    cases next s with
    | none => rfl
    | some s' => exact ih s'

/-- One more step at the end. -/
theorem iterate_succ_right (n : ℕ) (s : S) :
    iterate next (n + 1) s = (iterate next n s).bind next := by
  have hone : iterate next 1 = next := by
    funext s
    rw [iterate]
    cases next s <;> rfl
  rw [iterate_add, hone]

theorem iterate_invariant {I : S → Prop} (hI : ∀ s s', I s → next s = some s' → I s') {s t : S}
    (hs : I s) {n : ℕ} (h : iterate next n s = some t) : I t := by
  induction n generalizing s with
  | zero =>
    cases h
    exact hs
  | succ n ih =>
    obtain ⟨s', hs', h⟩ := Option.bind_eq_some_iff.mp h
    exact ih (hI s s' hs hs') h

/-- **The iteration goes on for ever** if the invariant lets every step be taken. -/
theorem iterate_total {I : S → Prop} (hI : ∀ s, I s → ∃ s', next s = some s' ∧ I s') {s : S}
    (hs : I s) (n : ℕ) : ∃ t, iterate next n s = some t ∧ I t := by
  induction n generalizing s with
  | zero => exact ⟨s, rfl, hs⟩
  | succ n ih =>
    obtain ⟨s', hs', hI'⟩ := hI s hs
    rw [iterate_succ hs']
    exact ih hI'

/-- **The iteration stops** after as many steps as a measure allows that every step lowers. -/
theorem iterate_stops {I : S → Prop} (μ : S → ℕ)
    (hI : ∀ s s', I s → next s = some s' → I s' ∧ μ s' < μ s) {s : S} (hs : I s) :
    ∃ n t, n ≤ μ s ∧ iterate next n s = some t ∧ next t = none := by
  generalize hm : μ s = m
  induction m using Nat.strongRecOn generalizing s with
  | ind m ih =>
    cases h : next s with
    | none => exact ⟨0, s, Nat.zero_le m, rfl, h⟩
    | some s' =>
      obtain ⟨hs', hlt⟩ := hI s s' hs h
      obtain ⟨n, t, hn, ht, hstop⟩ := ih (μ s') (hm ▸ hlt) hs' rfl
      exact ⟨n + 1, t, by omega, (iterate_succ h n).trans ht, hstop⟩

end Lib
