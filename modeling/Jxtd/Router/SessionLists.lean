import Jxtd.Router.Session
import Mathlib.Data.Fintype.EquivFin

/-!
# The lists of a session

What the commands of a session do to the lists of the models is what they do on a registry alone.

* `Refines`, `Pushes`: a command of a session against the command on its registry.
* **`registry_MDDECL`**, **`registry_MDRM`**, **`registry_MDPUSH`**, **`engine_CPSTART`**: what a
  command does.
* **`unique_foldl`**: names and ids stay unique, whatever is done.
-/

namespace Jxtd.Router.Session

open Lib

variable {φ : Type} {ops : FileOps φ} {s : Session φ} {message : ATMessage}

/-! ## Ids -/

theorem exists_checkId (r : Registry) : ∃ id, r.checkId id = true := by
  obtain ⟨id, hid⟩ := Infinite.exists_notMem_finset (r.models.map Prod.snd).toFinset
  have hne : ∀ engine ∈ r.models, engine.2 ≠ id := fun engine he heq =>
    hid (List.mem_toFinset.mpr (List.mem_map.mpr ⟨engine, he, heq⟩))
  refine ⟨id, ?_⟩
  rw [Registry.checkId, Bool.and_eq_true, Bool.not_eq_true', Bool.not_eq_true', List.any_eq_false,
    List.any_eq_false]
  refine ⟨fun engine he => ?_, fun engine he => ?_⟩
  · simpa using hne engine (List.mem_append_right _ he)
  · simpa using hne engine (List.mem_append_left _ he)

theorem checkId_of_createId {r : Registry} {draws : List Drawn} {draw : Drawn}
    (h : createId r draws = some draw) : r.checkId draw.id = true :=
  List.find?_some (p := fun draw : Drawn => r.checkId draw.id) h

/-! ## Declaring and removing -/

/-- A command does to the lists what it does where it is on its own, and answers the same. -/
def Refines (out : Answer × Session φ) (out' : Str × Registry) : Prop :=
  out.2.registry = out'.2 ∧ ∀ answer ∈ out.1, answer = out'.1

theorem Refines.answered (answer : Str) {s : Session φ} {r : Registry} (h : s.registry = r) :
    Refines (some answer, s) (answer, r) :=
  ⟨h, fun _ hanswer => (Option.some.inj hanswer).symm⟩

theorem Refines.ite {c : Prop} [Decidable c] {out₁ out₂ : Answer × Session φ}
    {out₁' out₂' : Str × Registry} (h₁ : c → Refines out₁ out₁') (h₂ : ¬ c → Refines out₂ out₂') :
    Refines (if c then out₁ else out₂) (if c then out₁' else out₂') := by
  split_ifs with h
  · exact h₁ h
  · exact h₂ h

theorem removeFile_refines (s : Session φ) (id : Str) :
    Refines (s.removeFile ops id) (lit "AT+MDMOD=0", s.registry) := by
  refine ⟨rfl, fun answer hanswer => ?_⟩
  simp only [removeFile] at hanswer
  split_ifs at hanswer
  · exact (Option.some.inj hanswer).symm
  · cases hanswer

/-- **Removing a model** does to the lists what `Router.MDRM` does. -/
theorem registry_MDRM : Refines (s.MDRM ops message) (Router.MDRM s.registry message) := by
  obtain ⟨type, param, data⟩ := message
  cases type with
  | CMD =>
    rcases param with _ | ⟨param, _ | ⟨p, ps⟩⟩
    · exact .answered _ rfl
    · refine .ite (fun _ => .answered _ rfl) fun _ => ?_
      cases hsplit : splitJudge param with
      | none => exact .answered _ rfl
      | some x =>
        obtain ⟨judge, temp⟩ := x
        refine .ite (fun _ => ?_) fun _ => .ite (fun _ => ?_) fun _ =>
          .ite (fun _ => ?_) fun _ => .answered _ rfl
        · exact .ite (fun _ => .answered _ rfl) fun _ => .answered _ rfl
        · rw [registry_enginePrivate]
          cases s.enginePrivate.find? fun engine => decide (temp = engine.2) with
          | none => exact .answered _ rfl
          | some engine =>
            exact .ite (fun _ => .answered _ rfl) fun _ => removeFile_refines _ _
        · rw [registry_enginePrivate]
          cases s.enginePrivate.find? fun engine => decide (temp = engine.1) with
          | none => exact .ite (fun _ => .answered _ rfl) fun _ => .answered _ rfl
          | some engine =>
            by_cases hempty : engine.1 = []
            · rw [Option.filter_some_neg (by simpa using hempty), Option.any_some,
                decide_eq_false (not_not.mpr hempty)]
              exact .ite (fun _ => .answered _ rfl) fun _ => .answered _ rfl
            · rw [Option.filter_some_pos (by simpa using hempty), Option.any_some,
                decide_eq_true hempty]
              exact removeFile_refines _ _
    · exact .answered _ rfl
  | NON | SEARCH | TEST | LONG => exact .answered _ rfl

/-- Declaring leaves the user and the slot alone. -/
theorem frame_MDDECL (r : Registry) (id : Str) (opened : Bool) (message : ATMessage) :
    (Router.MDDECL r id opened message).2.user = r.user ∧
      (Router.MDDECL r id opened message).2.taskid = r.taskid := by
  unfold Router.MDDECL
  dsimp only
  split
  · split_ifs
    · exact ⟨rfl, rfl⟩
    split
    · split <;> exact ⟨rfl, rfl⟩
    · split
      · exact ⟨rfl, rfl⟩
      · split_ifs
        · split <;> exact ⟨rfl, rfl⟩
        · split <;> exact ⟨rfl, rfl⟩
        · split <;> exact ⟨rfl, rfl⟩
        · exact ⟨rfl, rfl⟩
    · exact ⟨rfl, rfl⟩
  · split_ifs <;> exact ⟨rfl, rfl⟩
  · split
    · split
      · exact ⟨rfl, rfl⟩
      · exact ⟨rfl, rfl⟩
      · split_ifs <;> exact ⟨rfl, rfl⟩
    · exact ⟨rfl, rfl⟩
  · exact ⟨rfl, rfl⟩

/-- **Declaring a model** does to the lists what `Router.MDDECL` does, with an id that is new. -/
theorem registry_MDDECL (ops : FileOps φ) (s : Session φ) (message : ATMessage)
    (draws : List Drawn) : ∃ id opened, s.registry.checkId id = true ∧
    Refines (s.MDDECL ops draws message) (Router.MDDECL s.registry id opened message) := by
  obtain ⟨fresh, hfresh⟩ := exists_checkId s.registry
  obtain ⟨type, param, data⟩ := message
  cases type with
  | LONG =>
    rcases param with _ | ⟨name, _ | ⟨p, ps⟩⟩
    · exact ⟨fresh, false, hfresh, .answered _ rfl⟩
    · cases hprivate : s.enginePrivate.find? fun engine => decide (engine.1 = name) with
      | some engine => 
        refine ⟨fresh, false, hfresh, ?_⟩
        simp only [MDDECL, Router.MDDECL, registry_enginePrivate, registry_engineCloud, hprivate]
        exact .answered _ rfl
      | none =>
        cases hcloud : s.engineCloud.find? fun engine => decide (engine.1 = name) with
        | some engine =>
          refine ⟨fresh, false, hfresh, ?_⟩
          simp only [MDDECL, Router.MDDECL, registry_enginePrivate, registry_engineCloud,
            hprivate, hcloud]
          exact .answered _ rfl
        | none =>
          cases hdraw : createId s.registry draws with
          | none =>
            refine ⟨fresh, false, hfresh, ?_⟩
            simp only [MDDECL, Router.MDDECL, registry_enginePrivate, registry_engineCloud,
              hprivate, hcloud, hdraw]
            exact ⟨rfl, fun answer hanswer => by cases hanswer⟩
          | some draw =>
            refine ⟨draw.id, (ops.writeFile s.files (modelFile s.user draw.id) data).1,
              checkId_of_createId hdraw, ?_⟩
            simp only [MDDECL, Router.MDDECL, registry_enginePrivate, registry_engineCloud,
              hprivate, hcloud]
            rw [hdraw]
            exact .ite (fun _ => .answered _ rfl) fun _ => .answered _ rfl
    · exact ⟨fresh, false, hfresh, .answered _ rfl⟩
  | CMD =>
    obtain ⟨huser, htask⟩ := frame_MDDECL s.registry [] false ⟨.CMD, param, data⟩
    exact ⟨fresh, false, hfresh, .answered _ (registry_withModels huser htask)⟩
  | SEARCH =>
    obtain ⟨huser, htask⟩ := frame_MDDECL s.registry [] false ⟨.SEARCH, param, data⟩
    exact ⟨fresh, false, hfresh, .answered _ (registry_withModels huser htask)⟩
  | NON | TEST => exact ⟨fresh, false, hfresh, .answered _ (registry_withModels rfl rfl)⟩
/-! ## Pushing and starting -/

/-- The data of a private model. -/
def infile (ops : FileOps φ) (s : Session φ) (id : Str) : Option Str :=
  (ops.readFile s.files (modelFile s.user id)).1

/-- A push on its own: what it refuses changes nothing, and what it sends may arrive. -/
def Pushes (s : Session φ) (out : Answer × Session φ) : Except Str Push → Prop
  | .error answer => out.2.registry = s.registry ∧ ∀ a ∈ out.1, a = answer
  | .ok push => out.2.registry = s.registry ∨ out.2.registry = push.after

theorem Pushes.ite {c : Prop} [Decidable c] {out₁ out₂ : Answer × Session φ}
    {e₁ e₂ : Except Str Push} (h₁ : c → Pushes s out₁ e₁) (h₂ : ¬ c → Pushes s out₂ e₂) :
    Pushes s (if c then out₁ else out₂) (if c then e₁ else e₂) := by
  split_ifs with h
  · exact h₁ h
  · exact h₂ h

theorem Pushes.refused (answer : Str) : Pushes s (some answer, s) (.error answer) :=
  ⟨rfl, fun _ h => (Option.some.inj h).symm⟩

theorem pushPrivate_pushes (pushed : Str → Str → Str → Bool) (temp : Str)
    (found : Str × Str → Bool) : Pushes s (s.pushPrivate ops pushed temp found)
      (Router.pushPrivate s.registry (s.infile ops) temp found) := by
  unfold pushPrivate Router.pushPrivate
  rw [registry_enginePrivate]
  obtain ⟨name, mid⟩ := (s.enginePrivate.find? found).getD ([], [])
  refine .ite (fun _ => .refused _) fun _ => ?_
  simp only [infile]
  cases (ops.readFile s.files (modelFile s.user mid)).1 with
  | none => exact ⟨rfl, fun _ h => (Option.some.inj h).symm⟩
  | some data =>
    dsimp only
    split_ifs
    · exact .inl rfl
    · exact .inr rfl
    · exact .inr rfl

/-- **Pushing a model** does to the lists nothing, or what `Router.MDPUSH` does with an id that is
new. -/
theorem registry_MDPUSH (ops : FileOps φ) (s : Session φ) (message : ATMessage) (flag : Flag)
    (draws : List Drawn) (transfer : Datatransfer.Request → Bool) :
    ∃ id, s.registry.checkId id = true ∧ Pushes s (s.MDPUSH ops flag draws transfer message)
      (Router.MDPUSH s.registry flag id (s.infile ops) message) := by
  have hid (out : Answer × Session φ) (e : Str → Except Str Push)
      (h : ∀ id, (∀ draw, createId s.registry draws = some draw → id = draw.id) →
        Pushes s out (e id)) : ∃ id, s.registry.checkId id = true ∧ Pushes s out (e id) := by
    cases hdraw : createId s.registry draws with
    | none =>
      obtain ⟨id, hid⟩ := exists_checkId s.registry
      exact ⟨id, hid, h id fun draw hd => by rw [hdraw] at hd; cases hd⟩
    | some draw =>
      refine ⟨draw.id, checkId_of_createId hdraw, h _ fun draw' hd => ?_⟩
      rw [hdraw] at hd
      cases hd
      rfl
  refine hid _ _ fun id hid => ?_
  obtain ⟨type, param, data⟩ := message
  rcases param with _ | ⟨param, _ | ⟨p, ps⟩⟩
  · exact .refused _
  · refine .ite (fun _ => .refused _) fun _ => .ite (fun _ => .refused _) fun _ =>
      .ite (fun _ => .refused _) fun _ => ?_
    cases type with
    | CMD =>
      dsimp only
      cases splitJudge param with
      | none => exact .refused _
      | some x =>
        exact .ite (fun _ => pushPrivate_pushes _ _ _) fun _ =>
          .ite (fun _ => pushPrivate_pushes _ _ _) fun _ => .refused _
    | LONG =>
      simp only [registry_engineCloud, registry_enginePrivate]
      cases (s.engineCloud ++ s.enginePrivate).find? fun engine => decide (engine.1 = param) with
      | some engine => exact .refused _
      | none =>
        cases hdraw : createId s.registry draws with
        | none => exact .inl rfl
        | some draw =>
          cases hid draw hdraw
          dsimp only
          split_ifs
          · exact .inl rfl
          · exact .inr rfl
    | NON | SEARCH | TEST => exact .refused _
  · exact .refused _

theorem readEngine_eq (found : Str × Str → Bool) : (s.readEngine ops found).1 =
    ((s.enginePrivate.find? found).bind fun engine => s.infile ops engine.2).map fun data =>
      { Taskdep.Engine.new with binary := data } := by
  unfold readEngine
  cases s.enginePrivate.find? found with
  | none => rfl
  | some engine => rfl

/-- **Starting a task** finds the engine that `Router.CPSTART` finds. -/
theorem engine_CPSTART : (s.startEngine ops message).1 =
    Router.CPSTART s.registry (s.infile ops) message := by
  obtain ⟨type, param, data⟩ := message
  cases param with
  | nil => rfl
  | cons front rest =>
    simp only [startEngine, Router.CPSTART, registry_user, registry_taskid]
    split_ifs
    · rfl
    · rfl
    · rfl
    · rfl
    cases splitJudge front with
    | none => rfl
    | some x =>
      simp only [findEngine, registry_enginePrivate, registry_engineCloud, ← readEngine_eq]
      split_ifs
      · cases s.engineCloud.find? fun engine => decide (engine.2 = x.2) <;> rfl
      · cases (s.readEngine ops fun engine => engine.2 = x.2).1 <;> rfl
      · cases s.engineCloud.find? fun engine => decide (engine.1 = x.2) with
        | some engine => rfl
        | none => cases (s.readEngine ops fun engine => engine.1 = x.2).1 <;> rfl
      · rfl

/-! ## All commands -/

theorem models_REG : (s.REG ops message).2.registry.models = s.registry.models := by
  unfold REG
  dsimp only
  split
  · split
    · split_ifs <;> rfl
    · rfl
  · rfl
  · rfl

theorem models_RTUNREG : (s.RTUNREG ops message).2.registry.models = s.registry.models := by
  unfold RTUNREG
  dsimp only
  split
  · split_ifs <;> rfl
  · rfl

theorem models_CPSTART (remote : Remote) :
    (s.CPSTART ops remote message).2.registry.models = s.registry.models := by
  unfold CPSTART
  dsimp only
  split
  · rfl
  · split_ifs
    · rfl
    · rfl
    · split
      · rfl
      · split_ifs <;> rfl
    · rfl

/-- A command keeps names and ids unique. -/
theorem unique_after (ops : FileOps φ) (h : s.registry.Unique) (c : Command) :
    (s.after ops c).registry.Unique := by
  have hsame {r : Registry} (hmodels : r.models = s.registry.models) : r.Unique :=
    h.perm (by rw [hmodels])
  cases c with
  | REG message => exact hsame models_REG
  | RTUNREG message => exact hsame models_RTUNREG
  | MDDECL draws message =>
    obtain ⟨id, opened, hid, hrefines, -⟩ := registry_MDDECL ops s message draws
    show (s.MDDECL ops draws message).2.registry.Unique
    rw [hrefines]
    exact MDDECL_unique h hid opened message
  | MDRM message =>
    show (s.MDRM ops message).2.registry.Unique
    rw [registry_MDRM.1]
    exact MDRM_unique h message
  | MDPUSH flag draws transfer message =>
    obtain ⟨id, hid, hpushes⟩ := registry_MDPUSH ops s message flag draws transfer
    show (s.MDPUSH ops flag draws transfer message).2.registry.Unique
    cases hpush : Router.MDPUSH s.registry flag id (s.infile ops) message with
    | error answer =>
      rw [hpush] at hpushes
      exact hsame (congrArg Registry.models hpushes.1)
    | ok push =>
      rw [hpush] at hpushes
      rcases hpushes with hkept | hpushed
      · exact hsame (congrArg Registry.models hkept)
      · rw [hpushed]
        exact MDPUSH_unique h hid hpush
  | CPSTART remote message => exact hsame (models_CPSTART remote)

/-- **Names and ids are unique** after all commands, whatever they are and whatever the files, the
drawn ids and the storage do. -/
theorem unique_foldl (ops : FileOps φ) (files : φ) (commands : List Command) :
    (commands.foldl (after ops) { files }).registry.Unique :=
  List.foldlRecOn commands (after ops) (motive := fun s => s.registry.Unique) List.Pairwise.nil
    fun _ hs c _ => unique_after ops hs c

end Jxtd.Router.Session
