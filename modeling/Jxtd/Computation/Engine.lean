import Mathlib.Data.List.Infix
import Jxtd.Lib.Bytes

/-!
# Engines and their parents

An engine may declare a parent, which comes from a shared library of its own and may declare a
parent in turn (`computation/engine/Engine.cc`). The leaf of such a chain has level `0`.

* `JxtdEngine`: the object, with its pointers `handle` and `parent`.
* `initEnv`, `compute`, `postEnv`: the three operations; what the libraries and the engines' own
  functions do at a level is given.
* `Complete`: an engine all of whose ancestors are there; **`complete_of_calls`**: a parent that is
  there is complete.
* **`compute_inOrder_iff`**: when the ancestors run before the engine.
-/

namespace Jxtd.Computation.Engine

open Lib

/-- The part of an engine that its library fixes. -/
structure EngineClass where
  mid : Str
  name : Str
  parentMid : Str
  parentName : Str
deriving DecidableEq

/-- The engine declares a parent. -/
def EngineClass.Declares (c : EngineClass) : Prop := ¬ (c.parentMid = [] ∨ c.parentName = [])

instance (c : EngineClass) : Decidable c.Declares := by unfold EngineClass.Declares; infer_instance

/-- A class and its ancestors, from the parent to the root. -/
def IsChain : EngineClass → List EngineClass → Prop
  | c, [] => ¬ c.Declares
  | c, parent :: rest =>
    c.Declares ∧ parent.mid = c.parentMid ∧ parent.name = c.parentName ∧ IsChain parent rest

instance IsChain.decidable : ∀ c ancestors, Decidable (IsChain c ancestors)
  | c, [] => inferInstanceAs (Decidable (¬ c.Declares))
  | c, parent :: rest =>
    have := IsChain.decidable parent rest
    inferInstanceAs (Decidable (c.Declares ∧ parent.mid = c.parentMid ∧
      parent.name = c.parentName ∧ IsChain parent rest))

/-- `jxtd_Engine`: whether `handle` is not null, and the object behind `parent`, if that is not
null. -/
inductive JxtdEngine
  | orphan (c : EngineClass) (handle : Bool)
  | child (c : EngineClass) (handle : Bool) (parent : JxtdEngine)

/-- The class of an engine. -/
def JxtdEngine.cls : JxtdEngine → EngineClass
  | .orphan c _ => c
  | .child c _ _ => c

/-- `this->handle = nullptr`. -/
def JxtdEngine.dropHandle : JxtdEngine → JxtdEngine
  | .orphan c _ => .orphan c false
  | .child c _ parent => .child c false parent

/-- `handle` and `parent` are not null. -/
def JxtdEngine.Linked : JxtdEngine → Prop
  | .orphan _ _ => False
  | .child _ handle _ => handle = true

/-- What happens during `init_env`, level by level: `dlopen`, `dlsym` and the generator may yield
null, `init` returns a number. -/
structure InitOutcome where
  dlopen : ℕ → Bool
  dlsym : ℕ → Bool
  generate : ℕ → Bool
  init : ℕ → Int

/-- What happens during `post_env`. -/
structure PostOutcome where
  post : ℕ → Int
  dlclose : ℕ → Int

/-- `init_env`. The ancestors are the engines that the generators yield. -/
def initEnv (o : InitOutcome) : ℕ → JxtdEngine → List EngineClass → Int × JxtdEngine
  | level, e, ancestors =>
    if ¬ e.cls.Declares then (o.init level, e)
    else
      match ancestors with
      | [] => (-1, e.dropHandle)
      | parent :: rest =>
        if o.dlopen level = false then (-1, e.dropHandle)
        else if o.dlsym level = false then (-1, e.dropHandle)
        else if o.generate level = false then (-1, .orphan e.cls false)
        else
          let (result, parent) := initEnv o (level + 1) (.orphan parent false) rest
          if result = -1 then (-1, .orphan e.cls false)
          else (o.init level, .child e.cls true parent)

/-- What a call of `compute` leaves: the runs of `infer` with their levels and results, the return
value, the engine. -/
structure Computed where
  trace : List (ℕ × Int)
  result : Int
  engine : JxtdEngine

/-- `compute`; `infer` gives what the engine of a level returns. -/
def compute (infer : ℕ → Int) : ℕ → JxtdEngine → Computed
  | level, .orphan c handle => ⟨[(level, infer level)], infer level, .orphan c handle⟩
  | level, .child c false parent => ⟨[(level, infer level)], infer level, .child c false parent⟩
  | level, .child c true parent =>
    let computed := compute infer (level + 1) parent
    if computed.result = -1 then ⟨computed.trace, -1, .orphan c false⟩
    else ⟨computed.trace ++ [(level, infer level)], infer level, .child c true computed.engine⟩

/-- `post_env`. -/
def postEnv (o : PostOutcome) : ℕ → JxtdEngine → Int × JxtdEngine
  | level, .orphan c handle => (o.post level, .orphan c handle)
  | level, .child c false parent => (o.post level, .child c false parent)
  | level, .child c true parent =>
    if (postEnv o (level + 1) parent).1 = -1 then (-1, .orphan c false)
    else if o.dlclose level = -1 then (-1, .orphan c false)
    else (o.post level, .orphan c false)

/-- A call of one of the three operations. -/
inductive Call
  | initEnv (o : InitOutcome)
  | compute (infer : ℕ → Int)
  | postEnv (o : PostOutcome)

/-- The leaf after a call. -/
def call (ancestors : List EngineClass) (e : JxtdEngine) : Call → JxtdEngine
  | .initEnv o => (Engine.initEnv o 0 e ancestors).2
  | .compute infer => (Engine.compute infer 0 e).engine
  | .postEnv o => (Engine.postEnv o 0 e).2

/-! ## Complete engines -/

/-- Every engine of the chain is there, with its pointers. -/
def Complete : JxtdEngine → List EngineClass → Prop
  | .orphan _ _, ancestors => ancestors = []
  | .child _ _ _, [] => False
  | .child _ handle parent, c :: rest => handle = true ∧ parent.cls = c ∧ Complete parent rest

/-- **A parent that is there is complete.** -/
def Sound (c : EngineClass) (ancestors : List EngineClass) : JxtdEngine → Prop
  | .orphan c' _ => c' = c
  | .child c' _ parent => c' = c ∧ ∃ a rest, ancestors = a :: rest ∧ parent.cls = a ∧
      Complete parent rest

theorem Sound.cls_eq {c : EngineClass} {ancestors : List EngineClass} {e : JxtdEngine}
    (h : Sound c ancestors e) : e.cls = c := by
  cases e with
  | orphan c' handle => exact h
  | child c' handle parent => exact h.1

theorem Sound.dropHandle {c : EngineClass} {ancestors : List EngineClass} {e : JxtdEngine}
    (h : Sound c ancestors e) : Sound c ancestors e.dropHandle := by
  cases e with
  | orphan c' handle => exact h
  | child c' handle parent => exact h

theorem initEnv_of_not_declares (o : InitOutcome) (level : ℕ) {e : JxtdEngine}
    (h : ¬ e.cls.Declares) (ancestors : List EngineClass) :
    initEnv o level e ancestors = (o.init level, e) := by
  cases ancestors with
  | nil => rw [initEnv, if_pos h]
  | cons parent rest => rw [initEnv, if_pos h]

/-- **What `init_env` does to an engine that declares a parent**: it drops the handle, or the parent
too, or has the parent initialised. -/
theorem initEnv_cases (o : InitOutcome) (level : ℕ) {e : JxtdEngine} (parent : EngineClass)
    (rest : List EngineClass) (h : e.cls.Declares) :
    initEnv o level e (parent :: rest) = (-1, e.dropHandle) ∨
    initEnv o level e (parent :: rest) = (-1, .orphan e.cls false) ∨
    ∃ r p, initEnv o (level + 1) (.orphan parent false) rest = (r, p) ∧ r ≠ -1 ∧
      initEnv o level e (parent :: rest) = (o.init level, .child e.cls true p) := by
  rw [initEnv, if_neg (not_not.mpr h)]
  split_ifs with hopen hsym hgen
  · exact .inl rfl
  · exact .inl rfl
  · exact .inr (.inl rfl)
  · right
    by_cases hr : (initEnv o (level + 1) (.orphan parent false) rest).1 = -1
    · exact .inl (if_pos hr)
    · exact .inr ⟨_, _, rfl, hr, if_neg hr⟩

/-- **A successful `init_env`** of a new engine builds the whole chain. -/
theorem complete_of_initEnv {o : InitOutcome} {c : EngineClass} {ancestors : List EngineClass}
    (hchain : IsChain c ancestors) {level : ℕ} {r : Int} {e : JxtdEngine}
    (h : initEnv o level (.orphan c false) ancestors = (r, e)) (hr : r ≠ -1) :
    Complete e ancestors ∧ e.cls = c := by
  induction ancestors generalizing c level r e with
  | nil =>
    have hroot : ¬ (JxtdEngine.orphan c false).cls.Declares := hchain
    rw [initEnv_of_not_declares o level hroot] at h
    cases h
    exact ⟨rfl, rfl⟩
  | cons parent rest ih =>
    obtain ⟨hdeclares, -, -, hrest⟩ := hchain
    have hcls : (JxtdEngine.orphan c false).cls.Declares := hdeclares
    rcases initEnv_cases o level parent rest hcls with heq | heq | ⟨r', p, hp, hr', heq⟩
    · rw [heq] at h
      cases h
      exact absurd rfl hr
    · rw [heq] at h
      cases h
      exact absurd rfl hr
    · rw [heq] at h
      cases h
      obtain ⟨hcomplete, hcls⟩ := ih hrest hp hr'
      exact ⟨⟨rfl, hcls, hcomplete⟩, rfl⟩

theorem Sound.initEnv {c : EngineClass} {ancestors : List EngineClass} (hchain : IsChain c ancestors)
    {e : JxtdEngine} (h : Sound c ancestors e) (o : InitOutcome) (level : ℕ) :
    Sound c ancestors (Engine.initEnv o level e ancestors).2 := by
  cases ancestors with
  | nil =>
    rw [initEnv_of_not_declares o level (h.cls_eq ▸ hchain)]
    exact h
  | cons parent rest =>
    obtain ⟨hdeclares, -, -, hrest⟩ := hchain
    have hcls : e.cls.Declares := h.cls_eq ▸ hdeclares
    rcases initEnv_cases o level parent rest hcls with heq | heq | ⟨r', p, hp, hr', heq⟩
    · rw [heq]
      exact h.dropHandle
    · rw [heq]
      exact h.cls_eq
    · rw [heq]
      obtain ⟨hcomplete, hcls⟩ := complete_of_initEnv hrest hp hr'
      exact ⟨h.cls_eq, parent, rest, rfl, hcls, hcomplete⟩

theorem Complete.compute {infer : ℕ → Int} {level : ℕ} {e : JxtdEngine}
    {ancestors : List EngineClass} (h : Complete e ancestors)
    (hresult : (compute infer level e).result ≠ -1) :
    (compute infer level e).engine.cls = e.cls ∧
      Complete (compute infer level e).engine ancestors := by
  induction e generalizing level ancestors with
  | orphan c handle => exact ⟨rfl, h⟩
  | child c handle parent ih =>
    cases ancestors with
    | nil => exact h.elim
    | cons a rest =>
      obtain ⟨rfl, hcls, hcomplete⟩ := h
      rw [Engine.compute] at hresult ⊢
      by_cases hr : (Engine.compute infer (level + 1) parent).result = -1
      · rw [if_pos hr] at hresult
        exact absurd rfl hresult
      · rw [if_neg hr]
        obtain ⟨hcls', hcomplete'⟩ := ih hcomplete hr
        exact ⟨rfl, rfl, hcls'.trans hcls, hcomplete'⟩

theorem Sound.compute {c : EngineClass} {ancestors : List EngineClass} {e : JxtdEngine}
    (h : Sound c ancestors e) (infer : ℕ → Int) (level : ℕ) :
    Sound c ancestors (Engine.compute infer level e).engine := by
  cases e with
  | orphan c' handle => exact h
  | child c' handle parent =>
    cases handle with
    | false => exact h
    | true =>
      obtain ⟨rfl, a, rest, rfl, hcls, hcomplete⟩ := h
      rw [Engine.compute]
      by_cases hr : (Engine.compute infer (level + 1) parent).result = -1
      · rw [if_pos hr]
        rfl
      · rw [if_neg hr]
        obtain ⟨hcls', hcomplete'⟩ := hcomplete.compute hr
        exact ⟨rfl, a, rest, rfl, hcls'.trans hcls, hcomplete'⟩

theorem Sound.postEnv {c : EngineClass} {ancestors : List EngineClass} {e : JxtdEngine}
    (h : Sound c ancestors e) (o : PostOutcome) (level : ℕ) :
    Sound c ancestors (Engine.postEnv o level e).2 := by
  cases e with
  | orphan c' handle => exact h
  | child c' handle parent =>
    cases handle with
    | false => exact h
    | true =>
      rw [Engine.postEnv]
      split_ifs
      all_goals exact h.1

/-- **A parent that is there is complete**, after any calls of a new engine. -/
theorem sound_of_calls {c : EngineClass} {ancestors : List EngineClass}
    (hchain : IsChain c ancestors) (calls : List Call) :
    Sound c ancestors (calls.foldl (call ancestors) (.orphan c false)) := by
  induction calls using List.reverseRecOn with
  | nil => rfl
  | append_singleton calls e ih =>
    rw [List.foldl_append, List.foldl_cons, List.foldl_nil]
    cases e with
    | initEnv o => exact ih.initEnv hchain o 0
    | compute infer => exact ih.compute infer 0
    | postEnv o => exact ih.postEnv o 0

/-! ## Runs of `infer` -/

/-- **The ancestors run first**: every engine runs at most once, after all levels above its own up
to the root have run with success. -/
structure InOrder (root : ℕ) (trace : List (ℕ × Int)) : Prop where
  descending : trace.Pairwise fun a b => b.1 < a.1
  ancestors : ∀ pre run post, trace = pre ++ run :: post → ∀ m, run.1 < m → m ≤ root →
    ∃ r, (m, r) ∈ pre ∧ r ≠ -1

theorem inOrder_singleton (root : ℕ) (r : Int) : InOrder root [(root, r)] where
  descending := List.pairwise_singleton ..
  ancestors := by
    intro pre run post h m hm hroot
    rcases List.singleton_eq_append_iff.mp h with ⟨-, hrun⟩ | ⟨-, hrun⟩
    · cases hrun
      omega
    · cases hrun

/-- One more run, of the next level. -/
theorem InOrder.concat {root level : ℕ} {trace : List (ℕ × Int)} (h : InOrder root trace)
    (hlevel : ∀ x ∈ trace, level < x.1)
    (hall : ∀ m, level < m → m ≤ root → ∃ r, (m, r) ∈ trace ∧ r ≠ -1) (r : Int) :
    InOrder root (trace ++ [(level, r)]) where
  descending := by
    refine List.pairwise_append.mpr ⟨h.descending, List.pairwise_singleton .., fun a ha b hb => ?_⟩
    rw [List.mem_singleton.mp hb]
    exact hlevel a ha
  ancestors := by
    intro pre run post heq m hm hroot
    rcases List.eq_nil_or_concat' post with rfl | ⟨post, last, rfl⟩
    · obtain ⟨rfl, hrun⟩ := List.append_inj' heq rfl
      cases hrun
      exact hall m hm hroot
    · rw [← List.cons_append, ← List.append_assoc] at heq
      obtain ⟨rfl, -⟩ := List.append_inj' heq rfl
      exact h.ancestors pre run post rfl m hm hroot

/-- **A complete engine computes in order.** -/
theorem Complete.inOrder {e : JxtdEngine} {ancestors : List EngineClass} (h : Complete e ancestors)
    (infer : ℕ → Int) (level : ℕ) :
    InOrder (level + ancestors.length) (Engine.compute infer level e).trace ∧
      (∀ x ∈ (Engine.compute infer level e).trace, level ≤ x.1) ∧
      ((Engine.compute infer level e).result ≠ -1 → ∀ m, level ≤ m → m ≤ level + ancestors.length →
        ∃ r, (m, r) ∈ (Engine.compute infer level e).trace ∧ r ≠ -1) := by
  induction e generalizing level ancestors with
  | orphan c handle =>
    obtain rfl : ancestors = [] := h
    refine ⟨inOrder_singleton .., fun x hx => ?_, fun hresult m hm hroot => ?_⟩
    · rw [List.mem_singleton.mp hx]
    · obtain rfl : m = level := le_antisymm hroot hm
      exact ⟨infer m, List.mem_singleton_self _, hresult⟩
  | child c handle parent ih =>
    cases ancestors with
    | nil => exact h.elim
    | cons a rest =>
      obtain ⟨rfl, -, hcomplete⟩ := h
      obtain ⟨horder, hlevel, hall⟩ := ih hcomplete (level + 1)
      rw [Nat.add_right_comm] at horder hall
      rw [Engine.compute]
      by_cases hr : (Engine.compute infer (level + 1) parent).result = -1
      · rw [if_pos hr]
        exact ⟨horder, fun x hx => (Nat.le_succ level).trans (hlevel x hx), fun h => absurd rfl h⟩
      · rw [if_neg hr]
        refine ⟨horder.concat hlevel (hall hr) _, fun x hx => ?_, fun hresult m hm hroot => ?_⟩
        · rcases List.mem_append.mp hx with hx | hx
          · exact (Nat.le_succ level).trans (hlevel x hx)
          · rw [List.mem_singleton.mp hx]
        · rcases Nat.eq_or_lt_of_le hm with rfl | hlt
          · exact ⟨infer level, List.mem_append_right _ (List.mem_singleton_self _), hresult⟩
          · obtain ⟨r, hmem, hr⟩ := hall hr m hlt hroot
            exact ⟨r, List.mem_append_left _ hmem, hr⟩

/-- An engine that is not linked runs alone. -/
theorem compute_of_not_linked (infer : ℕ → Int) (level : ℕ) {e : JxtdEngine} (h : ¬ e.Linked) :
    (Engine.compute infer level e).trace = [(level, infer level)] := by
  cases e with
  | orphan c handle => rfl
  | child c handle parent =>
    cases handle with
    | false => rfl
    | true => exact absurd rfl h

theorem Sound.complete {c : EngineClass} {ancestors : List EngineClass} {e : JxtdEngine}
    (h : Sound c ancestors e) (hlinked : e.Linked) : Complete e ancestors := by
  cases e with
  | orphan c' handle => exact hlinked.elim
  | child c' handle parent =>
    obtain ⟨-, a, rest, rfl, hcls, hcomplete⟩ := h
    exact ⟨hlinked, hcls, hcomplete⟩

/-- **Exactly when a call of `compute` runs the ancestors first**, after any calls of a new engine:
the engine declares no parent, or `handle` and `parent` are not null. -/
theorem compute_inOrder_iff {c : EngineClass} {ancestors : List EngineClass}
    (hchain : IsChain c ancestors) (calls : List Call) (infer : ℕ → Int) :
    InOrder ancestors.length
        (Engine.compute infer 0 (calls.foldl (call ancestors) (.orphan c false))).trace ↔
      (c.Declares → (calls.foldl (call ancestors) (.orphan c false)).Linked) := by
  have hsound := sound_of_calls hchain calls
  generalize calls.foldl (call ancestors) (.orphan c false) = e at hsound ⊢
  by_cases hlinked : e.Linked
  · refine iff_of_true ?_ fun _ => hlinked
    obtain ⟨horder, -⟩ := (hsound.complete hlinked).inOrder infer 0
    rwa [Nat.zero_add] at horder
  · rw [compute_of_not_linked infer 0 hlinked]
    cases ancestors with
    | nil => exact iff_of_true (inOrder_singleton ..) fun h => absurd h hchain
    | cons a rest =>
      refine iff_of_false (fun h => ?_) fun h => hlinked (h hchain.1)
      obtain ⟨r, hmem, -⟩ := h.ancestors [] (0, infer 0) [] rfl 1 Nat.zero_lt_one
        (Nat.succ_le_succ (Nat.zero_le _))
      exact List.not_mem_nil hmem

/-- The engine `e` with the parent `p`. -/
def leafClass : EngineClass := ⟨lit "1", lit "e", lit "2", lit "p"⟩

/-- The engine `p`. -/
def parentClass : EngineClass := ⟨lit "2", lit "p", [], []⟩

/-- Everything succeeds. -/
def initDone : InitOutcome := ⟨fun _ => true, fun _ => true, fun _ => true, fun _ => 0⟩

/-- An engine whose parent was found. -/
theorem compute_inOrder_parent : IsChain leafClass [parentClass] ∧
    InOrder 1 (Engine.compute (fun _ => 0) 0
      ([.initEnv initDone].foldl (call [parentClass]) (.orphan leafClass false))).trace := by
  have hchain : IsChain leafClass [parentClass] := by decide
  exact ⟨hchain, (compute_inOrder_iff hchain _ _).mpr fun _ => rfl⟩

/-- **An engine whose parent's library is missing** runs without it: `init_env` returns `-1`, and
`compute` runs the engine's own `infer`. -/
theorem compute_without_parent : IsChain leafClass [parentClass] ∧
    (Engine.initEnv { initDone with dlopen := fun _ => false } 0 (.orphan leafClass false)
      [parentClass]).1 = -1 ∧
    (Engine.compute (fun _ => 0) 0 ([.initEnv { initDone with dlopen := fun _ => false }].foldl
      (call [parentClass]) (.orphan leafClass false))).trace = [(0, 0)] ∧
    ¬ InOrder 1 (Engine.compute (fun _ => 0) 0
      ([.initEnv { initDone with dlopen := fun _ => false }].foldl
        (call [parentClass]) (.orphan leafClass false))).trace := by
  refine ⟨by decide, rfl, rfl, fun h => ?_⟩
  obtain ⟨r, hmem, -⟩ := h.ancestors [] (0, 0) [] rfl 1 Nat.zero_lt_one le_rfl
  exact List.not_mem_nil hmem

end Jxtd.Computation.Engine
