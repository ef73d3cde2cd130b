import Mathlib.Data.Set.Function
import Mathlib.Logic.Function.Basic
import Mathlib.Tactic.Common

/-!
# Write-once maps

A map whose entries are written when they are not there, read, and removed.

* `Op`, `step`, `outs`: the operations, and what a sequence of them returns.
* `outs_eq_of_agree`: two maps that agree along a renaming of their keys.
* **`outs_rename_iff`**: renamed keys are not noticed exactly when the renaming is injective.
-/

namespace Lib.WriteOnce

variable {κ κ' V A : Type}

inductive Op (κ V : Type)
  | push (k : κ) (v : V)
  | pull (k : κ)
  | remove (k : κ)

inductive Out (V : Type)
  | pushed (ok : Bool)
  | pulled (v : Option V)
  | removed

def Op.rename (f : κ → κ') : Op κ V → Op κ' V
  | .push k v => .push (f k) v
  | .pull k => .pull (f k)
  | .remove k => .remove (f k)

/-- The key and the value are of the sets. -/
def Op.Over (K : Set κ) (W : Set V) : Op κ V → Prop
  | .push k v => k ∈ K ∧ v ∈ W
  | .pull k | .remove k => k ∈ K

section Step

variable [DecidableEq κ]

def step (m : κ → Option V) : Op κ V → Out V × (κ → Option V)
  | .push k v =>
    match m k with
    | none => (.pushed true, Function.update m k (some v))
    | some _ => (.pushed false, m)
  | .pull k => (.pulled (m k), m)
  | .remove k => (.removed, Function.update m k none)

/-- What a sequence of operations returns. -/
def outs : (κ → Option V) → List (Op κ V) → List (Out V)
  | _, [] => []
  | m, op :: ops => (step m op).1 :: outs (step m op).2 ops

theorem step_push_none {m : κ → Option V} {k : κ} (h : m k = none) (v : V) :
    step m (.push k v) = (.pushed true, Function.update m k (some v)) := by
  simp only [step, h]

theorem step_push_some {m : κ → Option V} {k : κ} {w : V} (h : m k = some w) (v : V) :
    step m (.push k v) = (.pushed false, m) := by
  simp only [step, h]

end Step

variable [DecidableEq κ] [DecidableEq κ'] {f : κ → κ'} {K : Set κ} {W : Set V}

/-- The two maps hold the same under every key of the set. -/
def Agree (f : κ → κ') (K : Set κ) (m' : κ' → Option V) (m : κ → Option V) : Prop :=
  ∀ k ∈ K, m' (f k) = m k

theorem Agree.update {m' : κ' → Option V} {m : κ → Option V} (h : Agree f K m' m)
    (hf : Set.InjOn f K) {k : κ} (hk : k ∈ K) (v : Option V) :
    Agree f K (Function.update m' (f k) v) (Function.update m k v) := by
  intro k' hk'
  by_cases heq : k' = k
  · rw [heq, Function.update_self, Function.update_self]
  · have hne : f k' ≠ f k := fun hfk => heq (hf hk' hk hfk)
    rw [Function.update_of_ne hne, Function.update_of_ne heq]
    exact h k' hk'

/-- **One operation** under a renaming. -/
theorem Agree.step {m' : κ' → Option V} {m : κ → Option V} (h : Agree f K m' m)
    (hf : Set.InjOn f K) {op : Op κ V} (hop : op.Over K W) :
    (WriteOnce.step m' (op.rename f)).1 = (WriteOnce.step m op).1 ∧
      Agree f K (WriteOnce.step m' (op.rename f)).2 (WriteOnce.step m op).2 := by
  cases op with
  | push k v =>
    have hk := h k hop.1
    cases hm : m k with
    | none =>
      rw [hm] at hk
      rw [Op.rename, step_push_none hk, step_push_none hm]
      exact ⟨rfl, h.update hf hop.1 _⟩
    | some w =>
      rw [hm] at hk
      rw [Op.rename, step_push_some hk, step_push_some hm]
      exact ⟨rfl, h⟩
  | pull k =>
    exact ⟨congrArg Out.pulled (h k hop), h⟩
  | remove k => exact ⟨rfl, h.update hf hop _⟩

theorem outs_eq_of_agree {m' : κ' → Option V} {m : κ → Option V} (h : Agree f K m' m)
    (hf : Set.InjOn f K) {ops : List (Op κ V)} (hops : ∀ op ∈ ops, op.Over K W) :
    outs m' (ops.map (Op.rename f)) = outs m ops := by
  induction ops generalizing m' m with
  | nil => rfl
  | cons op ops ih =>
    rw [List.forall_mem_cons] at hops
    obtain ⟨hout, hagree⟩ := h.step hf hops.1
    rw [List.map_cons, outs, outs, hout, ih hagree hops.2]

/-- **When a renaming of the keys is not noticed**, in whatever way `view` the answers are seen, as
long as it tells a push that succeeds from one that fails. -/
theorem outs_rename_iff (f : κ → κ') (K : Set κ) (hW : W.Nonempty) (m : κ' → Option V)
    {view : Out V → A} (hview : view (.pushed true) ≠ view (.pushed false)) :
    (∀ ops : List (Op κ V), (∀ op ∈ ops, op.Over K W) →
      (outs m (ops.map (Op.rename f))).map view = (outs (m ∘ f) ops).map view) ↔
      Set.InjOn f K := by
  constructor
  · intro h k hk k' hk' hfk
    by_contra hne
    obtain ⟨v, hv⟩ := hW
    cases hm : m (f k) with
    | none =>
      -- the second push fails under one name and succeeds under two
      have hm' : (m ∘ f) k = none := hm
      have h2 : Function.update (m ∘ f) k (some v) k' = none := by
        rw [Function.update_of_ne (Ne.symm hne), Function.comp_apply, ← hfk, hm]
      have h2' : Function.update m (f k) (some v) (f k') = some v := by
        rw [hfk, Function.update_self]
      have hboth : ∀ op ∈ [Op.push k v, Op.push k' v], op.Over K W := by
        simp [Op.Over, hk, hk', hv]
      have heq := h [.push k v, .push k' v] hboth
      simp only [List.map_cons, List.map_nil, Op.rename, outs, step_push_none hm,
        step_push_none hm', step_push_none h2, step_push_some h2', List.cons.injEq, and_true,
        true_and] at heq
      exact hview heq.symm
    | some w =>
      -- a removal under one name frees the other
      have h2 : Function.update (m ∘ f) k none k' = some w := by
        rw [Function.update_of_ne (Ne.symm hne), Function.comp_apply, ← hfk, hm]
      have h2' : Function.update m (f k) none (f k') = none := by
        rw [hfk, Function.update_self]
      have hboth : ∀ op ∈ [Op.remove k, Op.push k' v], op.Over K W := by
        simp [Op.Over, hk, hk', hv]
      have heq := h [.remove k, .push k' v] hboth
      simp only [List.map_cons, List.map_nil, Op.rename, outs, step, h2, h2', List.cons.injEq,
        and_true, true_and] at heq
      exact hview heq
  · intro hf ops hops
    have hagree : Agree f K m (m ∘ f) := fun _ _ => rfl
    rw [outs_eq_of_agree hagree hf hops]

end Lib.WriteOnce
