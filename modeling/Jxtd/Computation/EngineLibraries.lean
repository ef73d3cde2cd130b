import Mathlib.Algebra.BigOperators.Group.List.Basic
import Jxtd.Computation.Engine

/-!
# The libraries of the parents

An engine opens the library of its parent in `init_env` and closes it in `post_env`, or as soon as the
parent fails (`computation/engine/Engine.cc`). A parent that is deleted does not close what it holds.

* `initLibs`, `computeLibs`, `postLibs`: the calls of `dlopen` and `dlclose`, with the level of the
  engine that makes them.
* `balance`: how often a level has opened and not closed; `held`: the handles of an engine.
* `initEnv_new`, `compute_chain`: the two operations in closed form.
* **`payload_leaks`**: which libraries the engine of a payload leaves open.
-/

namespace Jxtd.Computation.Engine

open Lib

/-- A call that opens or closes the library of a parent. -/
inductive LibraryOp
  | dlopen (level : ℕ)
  | dlclose (level : ℕ)

/-- The calls of `init_env`; a `dlopen` that yields null opens nothing. -/
def initLibs (o : InitOutcome) : ℕ → JxtdEngine → List EngineClass → List LibraryOp
  | level, e, ancestors =>
    if ¬ e.cls.Declares then []
    else
      match ancestors with
      | [] => []
      | parent :: rest =>
        if o.dlopen level = false then []
        else if o.dlsym level = false then [.dlopen level, .dlclose level]
        else if o.generate level = false then [.dlopen level, .dlclose level]
        else
          .dlopen level :: (initLibs o (level + 1) (.orphan parent false) rest ++
            if (initEnv o (level + 1) (.orphan parent false) rest).1 = -1 then [.dlclose level]
            else [])

/-- The calls of `compute`. -/
def computeLibs (infer : ℕ → Int) : ℕ → JxtdEngine → List LibraryOp
  | _, .orphan _ _ => []
  | _, .child _ false _ => []
  | level, .child _ true parent =>
    computeLibs infer (level + 1) parent ++
      if (compute infer (level + 1) parent).result = -1 then [.dlclose level] else []

/-- The calls of `post_env`; one that yields `-1` closes nothing. -/
def postLibs (o : PostOutcome) : ℕ → JxtdEngine → List LibraryOp
  | _, .orphan _ _ => []
  | _, .child _ false _ => []
  | level, .child _ true parent =>
    postLibs o (level + 1) parent ++ if o.dlclose level = -1 then [] else [.dlclose level]

/-- The engine of a payload is new and gets each of the calls once, whatever they return
(`drccp_on_server_receive_payload`). -/
def payloadLibs (o : InitOutcome) (infer : ℕ → Int) (p : PostOutcome) (c : EngineClass)
    (ancestors : List EngineClass) : List LibraryOp :=
  let initialised := (initEnv o 0 (.orphan c false) ancestors).2
  let computed := (compute infer 0 initialised).engine
  initLibs o 0 (.orphan c false) ancestors ++ computeLibs infer 0 initialised ++
    postLibs p 0 computed

/-! ## What is open -/

def LibraryOp.change (k : ℕ) : LibraryOp → ℤ
  | .dlopen level => if level = k then 1 else 0
  | .dlclose level => if level = k then -1 else 0

/-- How often the engine of a level has opened the library of its parent and not closed it. -/
def balance (ops : List LibraryOp) (k : ℕ) : ℤ := (ops.map (LibraryOp.change k)).sum

@[simp] theorem balance_nil (k : ℕ) : balance [] k = 0 := rfl

@[simp] theorem balance_cons (op : LibraryOp) (ops : List LibraryOp) (k : ℕ) :
    balance (op :: ops) k = op.change k + balance ops k := by
  simp [balance]

@[simp] theorem balance_append (ops ops' : List LibraryOp) (k : ℕ) :
    balance (ops ++ ops') k = balance ops k + balance ops' k := by
  simp [balance]

/-- An engine of a class with all of its ancestors. -/
def chain : EngineClass → List EngineClass → JxtdEngine
  | c, [] => .orphan c false
  | c, parent :: rest => .child c true (chain parent rest)

/-- The handles that the engines of a chain of `n - L` ancestors hold. -/
def held (L n k : ℕ) : ℤ := if L ≤ k ∧ k < n then 1 else 0

/-! ## Closed forms -/

/-- The libraries of all parents can be loaded. -/
def Loads (o : InitOutcome) (L n : ℕ) : Prop :=
  ∀ j, L ≤ j → j < n → o.dlopen j = true ∧ o.dlsym j = true ∧ o.generate j = true

/-- All of the ancestors succeed. -/
def Succeed (f : ℕ → Int) (L n : ℕ) : Prop := ∀ j, L < j → j ≤ n → f j ≠ -1

/-- The first engine that fails, from the root on. -/
def FirstFailure (f : ℕ → Int) (n j : ℕ) : Prop := f j = -1 ∧ Succeed f j n

theorem loads_cons {o : InitOutcome} {L n : ℕ} (h : L < n) :
    Loads o L n ↔ (o.dlopen L = true ∧ o.dlsym L = true ∧ o.generate L = true) ∧
      Loads o (L + 1) n := by
  constructor
  · intro hloads
    exact ⟨hloads L le_rfl h, fun j hj => hloads j (by omega)⟩
  · rintro ⟨hhere, hrest⟩ j hj hjn
    rcases Nat.eq_or_lt_of_le hj with rfl | hlt
    · exact hhere
    · exact hrest j hlt hjn

theorem succeed_cons {f : ℕ → Int} {L n : ℕ} (h : L < n) :
    Succeed f L n ↔ f (L + 1) ≠ -1 ∧ Succeed f (L + 1) n := by
  constructor
  · intro hall
    exact ⟨hall (L + 1) (Nat.lt_succ_self L) h, fun j hj => hall j (by omega)⟩
  · rintro ⟨hhere, hrest⟩ j hj hjn
    rcases Nat.eq_or_lt_of_le hj with rfl | hlt
    · exact hhere
    · exact hrest j hlt hjn

/-- The engine that fails first is an ancestor with ancestors of its own, and the level is one of
theirs or its own: the engine is deleted with its handle. -/
def Leaks (f : ℕ → Int) (L n k : ℕ) : Prop := ∃ j, L < j ∧ j ≤ k ∧ k < n ∧ FirstFailure f n j

theorem leaks_cons {f : ℕ → Int} {L n k : ℕ} :
    Leaks f L n k ↔ Leaks f (L + 1) n k ∨
      FirstFailure f n (L + 1) ∧ L + 1 ≤ k ∧ k < n := by
  constructor
  · rintro ⟨j, hj, hjk, hk, hfirst⟩
    rcases Nat.eq_or_lt_of_le (Nat.succ_le_of_lt hj) with rfl | hlt
    · exact .inr ⟨hfirst, hjk, hk⟩
    · exact .inl ⟨j, hlt, hjk, hk, hfirst⟩
  · rintro (⟨j, hj, hjk, hk, hfirst⟩ | ⟨hfirst, hjk, hk⟩)
    · exact ⟨j, by omega, hjk, hk, hfirst⟩
    · exact ⟨L + 1, by omega, hjk, hk, hfirst⟩

theorem Succeed.not_leaks {f : ℕ → Int} {L n k : ℕ} (h : Succeed f L n) : ¬ Leaks f L n k := by
  rintro ⟨j, hj, hjk, hk, hfirst, -⟩
  exact h j hj (by omega) hfirst

theorem add_length_cons (L : ℕ) (parent : EngineClass) (rest : List EngineClass) :
    L + (parent :: rest).length = L + 1 + rest.length := by
  rw [List.length_cons]
  omega

section Init

variable {o : InitOutcome}

/-- **`init_env` of a new engine** builds the whole chain or nothing. -/
theorem initEnv_new {c : EngineClass} {ancestors : List EngineClass} (hchain : IsChain c ancestors)
    (L : ℕ) :
    (Loads o L (L + ancestors.length) ∧ Succeed o.init L (L + ancestors.length) →
      initEnv o L (.orphan c false) ancestors = (o.init L, chain c ancestors)) ∧
    (¬ (Loads o L (L + ancestors.length) ∧ Succeed o.init L (L + ancestors.length)) →
      initEnv o L (.orphan c false) ancestors = (-1, .orphan c false)) := by
  induction ancestors generalizing c L with
  | nil =>
    have hroot : ¬ (JxtdEngine.orphan c false).cls.Declares := hchain
    refine ⟨fun _ => initEnv_of_not_declares o L hroot [], fun hnot => absurd ⟨?_, ?_⟩ hnot⟩
    · intro j hj hjn
      simp at hjn
      omega
    · intro j hj hjn
      simp at hjn
      omega
  | cons parent rest ih =>
    obtain ⟨hdeclares, -, -, hrest⟩ := hchain
    have hcls : (JxtdEngine.orphan c false).cls.Declares := hdeclares
    have hlen := add_length_cons L parent rest
    have hlt : L < L + 1 + rest.length := by omega
    obtain ⟨hbuilt, hfailed⟩ := ih hrest (L + 1)
    rw [hlen, loads_cons hlt, succeed_cons hlt, initEnv, if_neg (not_not.mpr hcls)]
    constructor
    · rintro ⟨⟨⟨hopen, hsym, hgen⟩, hloads⟩, hinit, hsucceed⟩
      have hsub := hbuilt ⟨hloads, hsucceed⟩
      simp only [hopen, hsym, hgen, Bool.true_eq_false, if_false, hsub, hinit]
      rfl
    · intro hnot
      dsimp only
      split_ifs with hopen hsym hgen hsub
      · rfl
      · rfl
      · rfl
      · rfl
      · -- the parent is there, so that nothing has failed
        refine absurd ?_ hnot
        have hparts : Loads o (L + 1) (L + 1 + rest.length) ∧
            Succeed o.init (L + 1) (L + 1 + rest.length) := by
          by_contra hparts
          rw [hfailed hparts] at hsub
          exact hsub rfl
        rw [hbuilt hparts] at hsub
        refine ⟨⟨⟨?_, ?_, ?_⟩, hparts.1⟩, hsub, hparts.2⟩
        · simpa using hopen
        · simpa using hsym
        · simpa using hgen

/-- One level of `init_env`. -/
theorem balance_initLibs_cons {c parent : EngineClass} {rest : List EngineClass}
    (hdeclares : c.Declares) (L k : ℕ) :
    balance (initLibs o L (.orphan c false) (parent :: rest)) k =
      if o.dlopen L = true ∧ o.dlsym L = true ∧ o.generate L = true then
        balance (initLibs o (L + 1) (.orphan parent false) rest) k +
          if (initEnv o (L + 1) (.orphan parent false) rest).1 = -1 then 0
          else if L = k then 1 else 0
      else 0 := by
  have hcls : (JxtdEngine.orphan c false).cls.Declares := hdeclares
  rw [initLibs, if_neg (not_not.mpr hcls)]
  cases hopen : o.dlopen L with
  | false => simp
  | true =>
    cases hsym : o.dlsym L with
    | false => by_cases hk : L = k <;> simp [LibraryOp.change, hk]
    | true =>
      cases hgen : o.generate L with
      | false => by_cases hk : L = k <;> simp [LibraryOp.change, hk]
      | true =>
        simp only [Bool.true_eq_false, if_false, and_self, if_true, balance_cons, balance_append]
        by_cases hk : L = k
        · split_ifs <;> simp [LibraryOp.change, hk, add_comm]
        · split_ifs <;> simp [LibraryOp.change, hk]

theorem held_succ {L n k : ℕ} (h : L < n) :
    held L n k = held (L + 1) n k + if L = k then 1 else 0 := by
  unfold held
  split_ifs <;> omega

/-- **What is open after `init_env`**: what the engine holds, or what has been lost. -/
theorem balance_initLibs {c : EngineClass} {ancestors : List EngineClass}
    (hchain : IsChain c ancestors) (L k : ℕ) :
    (Loads o L (L + ancestors.length) ∧ Succeed o.init L (L + ancestors.length) →
      balance (initLibs o L (.orphan c false) ancestors) k = held L (L + ancestors.length) k) ∧
    (¬ (Loads o L (L + ancestors.length) ∧ Succeed o.init L (L + ancestors.length)) →
      (Loads o L (L + ancestors.length) ∧ Leaks o.init L (L + ancestors.length) k →
        balance (initLibs o L (.orphan c false) ancestors) k = 1) ∧
      (¬ (Loads o L (L + ancestors.length) ∧ Leaks o.init L (L + ancestors.length) k) →
        balance (initLibs o L (.orphan c false) ancestors) k = 0)) := by
  induction ancestors generalizing c L with
  | nil =>
    have hroot : ¬ (JxtdEngine.orphan c false).cls.Declares := hchain
    rw [initLibs, if_pos hroot, List.length_nil, Nat.add_zero, balance_nil]
    refine ⟨fun _ => ?_, fun _ => ⟨fun ⟨_, j, hj, hjk, hk, _⟩ => ?_, fun _ => rfl⟩⟩
    · rw [held, if_neg fun h => by omega]
    · omega
  | cons parent rest ih =>
    obtain ⟨hdeclares, -, -, hrest⟩ := hchain
    have hlen := add_length_cons L parent rest
    have hlt : L < L + 1 + rest.length := by omega
    obtain ⟨hinitBuilt, hinitFailed⟩ := initEnv_new hrest (L + 1)
    obtain ⟨hbuilt, hfailed⟩ := ih hrest (L + 1)
    rw [hlen, balance_initLibs_cons hdeclares, loads_cons hlt, succeed_cons hlt]
    by_cases hopen : o.dlopen L = true ∧ o.dlsym L = true ∧ o.generate L = true
    · rw [if_pos hopen, leaks_cons, and_iff_right hopen]
      by_cases hsub : Loads o (L + 1) (L + 1 + rest.length) ∧
          Succeed o.init (L + 1) (L + 1 + rest.length)
      · rw [hinitBuilt hsub, hbuilt hsub, and_iff_right hsub.1]
        by_cases hinit : o.init (L + 1) = -1
        · rw [if_pos hinit, add_zero, or_iff_right hsub.2.not_leaks, and_iff_right hsub.1, held]
          refine ⟨fun h => absurd hinit h.1, fun _ => ⟨fun h => ?_, fun h => ?_⟩⟩
          · exact if_pos h.2
          · exact if_neg fun hk => h ⟨⟨hinit, hsub.2⟩, hk⟩
        · rw [if_neg hinit, held_succ hlt]
          exact ⟨fun _ => rfl, fun hnot => absurd ⟨hinit, hsub.2⟩ hnot⟩
      · have hlast : Loads o (L + 1) (L + 1 + rest.length) →
            ¬ (FirstFailure o.init (L + 1 + rest.length) (L + 1) ∧ L + 1 ≤ k ∧
              k < L + 1 + rest.length) := fun hloads h => hsub ⟨hloads, h.1.2⟩
        rw [hinitFailed hsub, if_pos rfl, add_zero, and_congr_right fun hloads =>
          or_iff_left (hlast hloads)]
        exact ⟨fun h => absurd ⟨h.1, h.2.2⟩ hsub, fun _ => hfailed hsub⟩
    · rw [if_neg hopen]
      refine ⟨fun h => absurd h.1.1 hopen, fun _ => ⟨fun h => ?_, fun _ => rfl⟩⟩
      exact absurd h.1.1 hopen

end Init

section Compute

variable (infer : ℕ → Int)

/-- **`compute` of a whole chain**: the engine stays as it is when all of its ancestors succeed, and
is left without them otherwise. -/
theorem compute_chain (c : EngineClass) (ancestors : List EngineClass) (L : ℕ) :
    (Succeed infer L (L + ancestors.length) →
      (compute infer L (chain c ancestors)).result = infer L ∧
      (compute infer L (chain c ancestors)).engine = chain c ancestors) ∧
    (¬ Succeed infer L (L + ancestors.length) →
      (compute infer L (chain c ancestors)).result = -1 ∧
      (compute infer L (chain c ancestors)).engine = .orphan c false) := by
  induction ancestors generalizing c L with
  | nil =>
    refine ⟨fun _ => ⟨rfl, rfl⟩, fun hnot => absurd (fun j hj hjn => ?_) hnot⟩
    rw [List.length_nil] at hjn
    omega
  | cons parent rest ih =>
    have hlen := add_length_cons L parent rest
    obtain ⟨hdone, hfailed⟩ := ih parent (L + 1)
    rw [hlen, succeed_cons (by omega), chain, compute]
    by_cases hsub : Succeed infer (L + 1) (L + 1 + rest.length)
    · obtain ⟨hresult, hengine⟩ := hdone hsub
      by_cases hinfer : infer (L + 1) = -1
      · rw [if_pos (hresult.trans hinfer)]
        exact ⟨fun h => absurd hinfer h.1, fun _ => ⟨rfl, rfl⟩⟩
      · rw [if_neg (hresult ▸ hinfer), hengine]
        exact ⟨fun _ => ⟨rfl, rfl⟩, fun hnot => absurd ⟨hinfer, hsub⟩ hnot⟩
    · rw [if_pos (hfailed hsub).1]
      exact ⟨fun h => absurd h.2 hsub, fun _ => ⟨rfl, rfl⟩⟩

/-- **What `compute` closes**: nothing, or what the engine holds, up to what is lost. -/
theorem balance_computeLibs (c : EngineClass) (ancestors : List EngineClass) (L k : ℕ) :
    (Succeed infer L (L + ancestors.length) →
      balance (computeLibs infer L (chain c ancestors)) k = 0) ∧
    (¬ Succeed infer L (L + ancestors.length) →
      (Leaks infer L (L + ancestors.length) k →
        balance (computeLibs infer L (chain c ancestors)) k =
          1 - held L (L + ancestors.length) k) ∧
      (¬ Leaks infer L (L + ancestors.length) k →
        balance (computeLibs infer L (chain c ancestors)) k =
          - held L (L + ancestors.length) k)) := by
  induction ancestors generalizing c L with
  | nil =>
    refine ⟨fun _ => rfl, fun hnot => absurd (fun j hj hjn => ?_) hnot⟩
    rw [List.length_nil] at hjn
    omega
  | cons parent rest ih =>
    have hlen := add_length_cons L parent rest
    have hlt : L < L + 1 + rest.length := by omega
    obtain ⟨hresult, hfailedResult⟩ := compute_chain infer parent rest (L + 1)
    obtain ⟨hdone, hfailed⟩ := ih parent (L + 1)
    have hclose : balance [.dlclose L] k = - if L = k then 1 else 0 := by
      by_cases hk : L = k <;> simp [LibraryOp.change, hk]
    rw [hlen, succeed_cons hlt, leaks_cons, chain, computeLibs, balance_append, held_succ hlt]
    by_cases hsub : Succeed infer (L + 1) (L + 1 + rest.length)
    · rw [(hresult hsub).1, hdone hsub, or_iff_right hsub.not_leaks]
      by_cases hinfer : infer (L + 1) = -1
      · rw [if_pos hinfer, hclose, held]
        refine ⟨fun h => absurd hinfer h.1, fun _ => ⟨fun h => ?_, fun h => ?_⟩⟩
        · rw [if_pos h.2, if_neg (by omega)]
          omega
        · rw [if_neg fun hk => h ⟨⟨hinfer, hsub⟩, hk⟩]
          omega
      · rw [if_neg hinfer]
        exact ⟨fun _ => rfl, fun hnot => absurd ⟨hinfer, hsub⟩ hnot⟩
    · have hnone : ¬ (FirstFailure infer (L + 1 + rest.length) (L + 1) ∧ L + 1 ≤ k ∧
          k < L + 1 + rest.length) := fun h => hsub h.1.2
      rw [if_pos (hfailedResult hsub).1, hclose, or_iff_left hnone]
      refine ⟨fun h => absurd h.2 hsub, fun _ => ⟨fun h => ?_, fun h => ?_⟩⟩
      · rw [(hfailed hsub).1 h]
        omega
      · rw [(hfailed hsub).2 h]
        omega

end Compute

/-- **`post_env` closes what the engine holds.** -/
theorem balance_postLibs {p : PostOutcome} (hclose : ∀ level, p.dlclose level ≠ -1) (c : EngineClass)
    (ancestors : List EngineClass) (L k : ℕ) :
    balance (postLibs p L (chain c ancestors)) k = - held L (L + ancestors.length) k := by
  induction ancestors generalizing c L with
  | nil =>
    rw [chain, postLibs, held, List.length_nil, Nat.add_zero, if_neg fun h => by omega]
    rfl
  | cons parent rest ih =>
    have hlen := add_length_cons L parent rest
    have hlt : L < L + 1 + rest.length := by omega
    rw [chain, postLibs, if_neg (hclose L), balance_append, ih, hlen, held_succ hlt]
    by_cases hk : L = k
    · simp [LibraryOp.change, hk, add_comm]
    · simp [LibraryOp.change, hk]

/-! ## The engine of a payload -/

/-- **Which libraries a payload leaves open.** The engine is new, all ancestors exist and every
`dlclose` succeeds. The handle of level `k` is lost exactly if all parents could be loaded and the engine
that failed first, counting from the root, in `init` or, if none did, in `infer`, is an ancestor of
level at most `k` and not the root; all other handles are closed, once each. -/
theorem payload_leaks {c : EngineClass} {ancestors : List EngineClass} (hchain : IsChain c ancestors)
    (o : InitOutcome) (infer : ℕ → Int) {p : PostOutcome} (hclose : ∀ level, p.dlclose level ≠ -1)
    (k : ℕ) :
    (Loads o 0 ancestors.length ∧ (Leaks o.init 0 ancestors.length k ∨
        Succeed o.init 0 ancestors.length ∧ Leaks infer 0 ancestors.length k) →
      balance (payloadLibs o infer p c ancestors) k = 1) ∧
    (¬ (Loads o 0 ancestors.length ∧ (Leaks o.init 0 ancestors.length k ∨
        Succeed o.init 0 ancestors.length ∧ Leaks infer 0 ancestors.length k)) →
      balance (payloadLibs o infer p c ancestors) k = 0) := by
  obtain ⟨hinitBuilt, hinitFailed⟩ := initEnv_new (o := o) hchain 0
  obtain ⟨hbuilt, hfailed⟩ := balance_initLibs (o := o) hchain 0 k
  rw [Nat.zero_add] at hinitBuilt hinitFailed hbuilt hfailed
  rw [payloadLibs, balance_append, balance_append]
  by_cases hsub : Loads o 0 ancestors.length ∧ Succeed o.init 0 ancestors.length
  · obtain ⟨hdone, hlost⟩ := compute_chain infer c ancestors 0
    obtain ⟨hkept, hclosed⟩ := balance_computeLibs infer c ancestors 0 k
    rw [Nat.zero_add] at hdone hlost hkept hclosed
    rw [hinitBuilt hsub, hbuilt hsub, or_iff_right hsub.2.not_leaks, and_iff_right hsub.1,
      and_iff_right hsub.2]
    dsimp only
    by_cases hinfer : Succeed infer 0 ancestors.length
    · rw [(hdone hinfer).2, hkept hinfer, balance_postLibs hclose, Nat.zero_add]
      exact ⟨fun h => absurd h hinfer.not_leaks, fun _ => by omega⟩
    · have hpost : balance (postLibs p 0 (.orphan c false)) k = 0 := rfl
      rw [(hlost hinfer).2, hpost]
      refine ⟨fun h => ?_, fun h => ?_⟩
      · rw [(hclosed hinfer).1 h]
        omega
      · rw [(hclosed hinfer).2 h]
        omega
  · have hcompute : balance (computeLibs infer 0 (.orphan c false)) k = 0 := rfl
    have hpost : balance (postLibs p 0 (compute infer 0 (.orphan c false)).engine) k = 0 := rfl
    rw [hinitFailed hsub, hcompute, hpost, add_zero, add_zero, and_congr_right fun hloads =>
      or_iff_left fun h => hsub ⟨hloads, h.1⟩]
    exact hfailed hsub

/-- The engine `p`, with the parent `g`. -/
def middleClass : EngineClass := ⟨lit "2", lit "p", lit "3", lit "g"⟩

/-- The engine `g`. -/
def rootClass : EngineClass := ⟨lit "3", lit "g", [], []⟩

/-- **The parent's own `init` fails**: it is deleted, and the library of its parent stays open. -/
theorem payload_leaks_grandparent : IsChain leafClass [middleClass, rootClass] ∧
    balance (payloadLibs { initDone with init := fun level => if level = 1 then -1 else 0 }
      (fun _ => 0) ⟨fun _ => 0, fun _ => 0⟩ leafClass [middleClass, rootClass]) 1 = 1 := by
  have hchain : IsChain leafClass [middleClass, rootClass] := by decide
  refine ⟨hchain, (payload_leaks hchain _ _ (fun _ => show (0 : Int) ≠ -1 by decide) 1).1
    ⟨fun _ _ _ => ⟨rfl, rfl, rfl⟩, .inl ⟨1, by decide, le_rfl, by decide, rfl, ?_⟩⟩⟩
  intro j hj _
  have hne : j ≠ 1 := by omega
  simp [hne]

end Jxtd.Computation.Engine
