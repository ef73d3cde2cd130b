import Mathlib.Logic.Relation
import Mathlib.Order.WellFounded

/-!
# Executions that end

A step relation between states, of which every execution ends.

* `Halted`: a state from which no step goes on.
* `exists_halted`: every state reaches one.
* **`halts_in`**: where an invariant promises a step in every state that is not final, every
  execution can be continued to a final state, and it stops nowhere else.
-/

namespace Lib

open Relation

variable {S : Type} {step : S → S → Prop}

/-- No step goes on from here. -/
def Halted (step : S → S → Prop) (s : S) : Prop := ∀ s', ¬ step s s'

theorem exists_halted (hwf : WellFounded fun s' s => step s s') (s : S) :
    ∃ s', ReflTransGen step s s' ∧ Halted step s' := by
  induction s using hwf.induction with
  | _ s ih =>
    by_cases h : Halted step s
    · exact ⟨s, .refl, h⟩
    · obtain ⟨s₁, hs₁⟩ := not_forall_not.mp h
      obtain ⟨s₂, hreach, hhalted⟩ := ih s₁ hs₁
      exact ⟨s₂, .head hs₁ hreach, hhalted⟩

theorem invariant_of_reaches {I : S → Prop} (hI : ∀ s s', I s → step s s' → I s') {s s' : S}
    (hs : I s) (hreach : ReflTransGen step s s') : I s' := by
  induction hreach with
  | refl => exact hs
  | tail _ hstep ih => exact hI _ _ ih hstep

/-- **Where every execution ends and the invariant promises a step**, the executions end in the final
states. -/
theorem halts_in {I Final : S → Prop} (hwf : WellFounded fun s' s => step s s')
    (hI : ∀ s s', I s → step s s' → I s') (hprogress : ∀ s, I s → ¬ Final s → ∃ s', step s s')
    {s : S} (hs : I s) :
    (∃ s', ReflTransGen step s s' ∧ Final s') ∧
      ∀ s', ReflTransGen step s s' → Halted step s' → Final s' := by
  have hfinal : ∀ s', ReflTransGen step s s' → Halted step s' → Final s' := by
    intro s' hreach hhalted
    by_contra hnot
    obtain ⟨s₁, hs₁⟩ := hprogress s' (invariant_of_reaches hI hs hreach) hnot
    exact hhalted s₁ hs₁
  obtain ⟨s', hreach, hhalted⟩ := exists_halted hwf s
  exact ⟨⟨s', hreach, hfinal s' hreach hhalted⟩, hfinal⟩

end Lib
