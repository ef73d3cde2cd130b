import Mathlib.Data.List.Nodup
import Mathlib.Logic.Function.Basic
import Mathlib.Tactic.Common

/-!
# Defaults that are filled in

Settings that are empty get a default, one after the other; the default of a setting may come from
another one.

* `Default`: a rule; `fill`, `fillAll`: one rule and all of them.
* `Ordered`: no rule reads what it, or a later one, fills in.
* **`fillAll_eq`**: what is filled in by rules that are ordered.
* `fillAll_of_ne`, `fillAll_of_filled`: what stays as it is.
-/

namespace Lib

/-- The default of a setting, made of the value of another one, if there is a source. -/
structure Default (K V : Type) where
  key : K
  source : Option K
  make : V → V

namespace Default

section Fill

variable {K V : Type} (empty : V)

/-- The default that a rule has for some settings. -/
def value (r : Default K V) (s : K → V) : V := r.make (r.source.elim empty s)

theorem value_congr {empty : V} {r : Default K V} {s s' : K → V}
    (h : ∀ k, r.source = some k → s k = s' k) : r.value empty s = r.value empty s' := by
  unfold value
  cases hsource : r.source with
  | none => rfl
  | some k => exact congrArg r.make (h k hsource)

variable [DecidableEq K] [DecidableEq V]

/-- A setting that is empty gets its default. -/
def fill (s : K → V) (r : Default K V) : K → V :=
  if s r.key = empty then Function.update s r.key (r.value empty s) else s

/-- All rules, one after the other. -/
def fillAll (s : K → V) (rules : List (Default K V)) : K → V := rules.foldl (fill empty) s

/-- No rule reads a setting that it, or a later one, fills in; no two fill in the same one. -/
def Ordered : List (Default K V) → Prop
  | [] => True
  | r :: rules => (∀ r' ∈ rules, r'.key ≠ r.key ∧ r.source ≠ some r'.key) ∧
      r.source ≠ some r.key ∧ Ordered rules

instance decidableOrdered : ∀ rules : List (Default K V), Decidable (Ordered rules)
  | [] => inferInstanceAs (Decidable True)
  | _ :: rules =>
    have := decidableOrdered rules
    inferInstanceAs (Decidable (_ ∧ _ ∧ _))

variable {empty} {s : K → V} {r : Default K V} {rules : List (Default K V)} {k : K}

theorem fill_ne (h : k ≠ r.key) : fill empty s r k = s k := by
  unfold fill
  split_ifs
  · exact Function.update_of_ne h ..
  · rfl

theorem fill_self : fill empty s r r.key = if s r.key = empty then r.value empty s else s r.key := by
  unfold fill
  split_ifs with h
  · exact Function.update_self ..
  · rfl

/-- A setting without a rule stays as it is. -/
theorem fillAll_of_notMem (h : ∀ r ∈ rules, r.key ≠ k) : fillAll empty s rules k = s k := by
  induction rules generalizing s with
  | nil => rfl
  | cons r rules ih =>
    obtain ⟨hr, hrules⟩ := List.forall_mem_cons.mp h
    exact (ih hrules).trans (fill_ne (Ne.symm hr))

/-- A setting that is not empty stays as it is. -/
theorem fillAll_of_ne (h : s k ≠ empty) : fillAll empty s rules k = s k := by
  induction rules generalizing s with
  | nil => rfl
  | cons r rules ih =>
    have hfill : fill empty s r k = s k := by
      by_cases hk : k = r.key
      · subst hk
        rw [fill_self, if_neg h]
      · exact fill_ne hk
    exact (ih (hfill ▸ h)).trans hfill

/-- **What is filled in**: a setting that was empty has its default for the final settings. -/
theorem fillAll_eq (h : Ordered rules) : ∀ r ∈ rules, fillAll empty s rules r.key =
    if s r.key = empty then r.value empty (fillAll empty s rules) else s r.key := by
  induction rules generalizing s with
  | nil => exact fun r hr => absurd hr List.not_mem_nil
  | cons r rules ih =>
    obtain ⟨hlater, hself, hrules⟩ := h
    rw [List.forall_mem_cons]
    refine ⟨?_, fun r' hr' => ?_⟩
    · have hkey : fillAll empty s (r :: rules) r.key = fill empty s r r.key :=
        fillAll_of_notMem fun r' hr' => (hlater r' hr').1
      have hvalue : r.value empty s = r.value empty (fillAll empty s (r :: rules)) := by
        refine value_congr fun k hk => ?_
        have hne : k ≠ r.key := fun heq => hself (hk.trans (congrArg some heq))
        have hrest : fillAll empty s (r :: rules) k = fill empty s r k :=
          fillAll_of_notMem fun r' hr' heq =>
            (hlater r' hr').2 (hk.trans (congrArg some heq.symm))
        rw [hrest, fill_ne hne]
      rw [hkey, fill_self, hvalue]
    · have hne : r'.key ≠ r.key := (hlater r' hr').1
      have hstep : fillAll empty s (r :: rules) = fillAll empty (fill empty s r) rules := rfl
      rw [hstep, ih hrules r' hr', fill_ne hne]

/-- Settings without a default that is missing stay as they are. -/
theorem fillAll_of_filled (h : ∀ r ∈ rules, s r.key = empty → r.value empty s = empty) :
    fillAll empty s rules = s := by
  induction rules with
  | nil => rfl
  | cons r rules ih =>
    obtain ⟨hr, hrules⟩ := List.forall_mem_cons.mp h
    have hfill : fill empty s r = s := by
      unfold fill
      split_ifs with hempty
      · rw [hr hempty, ← hempty, Function.update_eq_self]
      · rfl
    rw [fillAll, List.foldl_cons, hfill]
    exact ih hrules

end Fill

end Default

end Lib
