import Jxtd.Lib.Run
import Jxtd.Router.Handlers

/-!
# Which messages are answered

* `Returns`: when a function returns, in terms of its message, the state and what is outside.
* **`call_ne_none`**: a function returns exactly then.
* `Turn`: a message, or a result that is put between two messages.
* **`replies_iff`**: in a run, all messages are answered exactly when all of them meet the
  condition.
-/

namespace Jxtd.Router

open Lib Lib.Posix
open Misc.ATParser (ATCommand parse crlf)

namespace Session

variable {φ : Type} (s : Session φ)

/-- What `MDRM` keeps of the private model whose file it removes. -/
def kept (message : ATMessage) : Option Str :=
  match message.type, message.param with
  | .CMD, [param] =>
    if s.user = [] then none
    else
      match splitJudge param with
      | none => none
      | some (judge, temp) =>
        if judge = lit "id" then
          ((s.enginePrivate.find? fun engine => temp = engine.2).map Prod.snd).filter (· ≠ [])
        else if judge = lit "name" then
          ((s.enginePrivate.find? fun engine => temp = engine.1).map Prod.fst).filter (· ≠ [])
        else none
  | _, _ => none

/-- The private model that a push selects. -/
def selected (judge temp : Str) : Option (Str × Str) :=
  if judge = lit "id" then s.enginePrivate.find? fun engine => temp = engine.2
  else if judge = lit "name" then s.enginePrivate.find? fun engine => temp = engine.1
  else none

/-- The private model that a start selects; a name is first one of the cloud. -/
def started (judge temp : Str) : Option (Str × Str) :=
  if judge = lit "id" then s.enginePrivate.find? fun engine => engine.2 = temp
  else if judge = lit "name" ∧ (s.engineCloud.find? fun engine => engine.1 = temp) = none then
    s.enginePrivate.find? fun engine => engine.1 = temp
  else none

/-- The private model whose file `CPSTART` reads. -/
def toRead (message : ATMessage) : Option (Str × Str) :=
  match message.param with
  | [] => none
  | front :: rest =>
    if rest = [] ∨ 2 < rest.length ∨ (message.type ≠ .CMD ∧ message.type ≠ .LONG) then none
    else if rest.length = 2 ∧ rest[1]? ≠ some (lit "nonblock") then none
    else if s.user = [] then none
    else if s.task.taskid ≠ 0 then none
    else
      match splitJudge front with
      | none => none
      | some (judge, temp) => s.started judge temp

end Session

namespace Outside

variable {φ : Type} (o : Outside φ) (s : Session φ)

/-- An id is drawn that is not in use. -/
def Draws : Prop := createId s.registry o.draws ≠ none

/-- If the file of the model can be opened, its size can be told. -/
def Sized (engine : Str × Str) : Prop :=
  (o.ops.readFile s.files (modelFile s.user engine.2)).1 ≠ none →
    o.unsized s.files (modelFile s.user engine.2) = false

/-- The model arrives at the storage. -/
def Arrives (name mid data : Str) : Prop :=
  o.transfer (Push.request ⟨name, mid, data, s.registry⟩ o.flag) = true

/-- If the file of the model can be opened, then also what follows succeeds: its size can be told,
the port is a number, and the file of a model that arrives can be removed. -/
def Pushes (storage : Str) (engine : Str × Str) : Prop :=
  ∀ data files, o.ops.readFile s.files (modelFile s.user engine.2) = (some data, files) →
    o.unsized s.files (modelFile s.user engine.2) = false ∧ IsInt storage ∧
      (o.Arrives s engine.1 engine.2 data →
        (o.ops.remove files (modelFile s.user engine.2)).1 = true)

/-- The negotiation and the deployment come to an end, and so does the wait for the result. -/
def Ends (message : ATMessage) (engine : Taskdep.Engine) : Prop :=
  let taskid := o.remote.negotiate engine
  let task := o.remote.deploying.foldl Slot.process
    ((o.remote.negotiating.foldl Slot.process s.task).set taskid)
  o.negotiates engine = true ∧ (taskid ≠ 0 → o.deploys taskid = true ∧
    (o.remote.deploy taskid (datasource message) startAttr ≠ -1 → message.param.length = 2 →
      task.wait o.remote.waiting ≠ none))

/-- When the function returns. -/
def Returns (message : ATMessage) : Function → Prop
  | .REG => ∀ name, message.type = .CMD → message.param = [name] → s.user ≠ name →
      (s.cleared o.ops).1 = true ∧
        (o.ops.createDirectory (s.cleared o.ops).2 (userDir name)).1 = true
  | .RTUNREG => message.type = .CMD → message.param = [] → s.user ≠ [] →
      (o.ops.removeAll s.files (userDir s.user)).1 = true
  | .MDDECL => ∀ name, message.type = .LONG → message.param = [name] →
      (∀ engine ∈ s.registry.models, engine.1 ≠ name) → o.Draws s
  | .MDRM => ∀ id ∈ s.kept message, (o.ops.remove s.files (modelFile s.user id)).1 = true
  | .MDPUSH => ∀ param, message.param = [param] → s.user ≠ [] →
      ∀ router ∈ portOf o.flag.datatransferRouter, IsInt router ∧
        ∀ storage ∈ portOf o.flag.datatransferStorage,
          (message.type = .CMD → ∀ parts ∈ splitJudge param,
            ∀ engine ∈ s.selected parts.1 parts.2, engine.1 ≠ [] → engine.2 ≠ [] →
              o.Pushes s storage engine) ∧
          (message.type = .LONG → (∀ engine ∈ s.registry.models, engine.1 ≠ param) →
            o.Draws s ∧ IsInt storage)
  | .CPSTART => (∀ engine ∈ s.toRead message, o.Sized s engine) ∧
      ∀ engine, (o.startEngine s message).1 = .ok engine → o.Ends s message engine
  | .CPVAL => message.type = .CMD → message.param.length ≤ 2 → ∀ param ∈ message.param, IsInt param
  | .TRANS => ∀ param, message.type = .LONG → message.param = [param] → IsInt param ∧
      (o.shell.pipe → o.shell.fork → o.shell.wait ((commands message.data).map cstr) ≠ none)
  | .RTBUSY | .CPMOD | .CPRDY | .STRANS => True

variable {o s} {message : ATMessage}

/-! ## The functions -/

/-- A name that no model has. -/
theorem find?_name {engines : List (Str × Str)} {name : Str} :
    (engines.find? fun engine => engine.1 = name) = none ↔ ∀ engine ∈ engines, engine.1 ≠ name := by
  simp [List.find?_eq_none]

theorem models_name {name : Str} : (∀ engine ∈ s.registry.models, engine.1 ≠ name) ↔
    (s.enginePrivate.find? fun engine => engine.1 = name) = none ∧
      (s.engineCloud.find? fun engine => engine.1 = name) = none := by
  rw [find?_name, find?_name]
  exact List.forall_mem_append

theorem REG_ne_none : (s.REG o.ops message).1 ≠ none ↔ o.Returns s message .REG := by
  obtain ⟨type, params, data⟩ := message
  unfold Session.REG Returns
  generalize o.ops = ops
  obtain ⟨removeAll, createDirectory, remove, writeFile, readFile⟩ := ops
  cases type with
  | CMD =>
    match params with
    | [] => simp
    | _ :: _ :: _ => simp
    | [name] =>
      dsimp only
      split_ifs with huser hremoved hcreated
      · simp [huser]
      · simp_all
      · simp_all
      · simp_all
  | TEST =>
    dsimp only
    split_ifs
    · simp
    · simp
  | NON | SEARCH | LONG => simp

theorem RTUNREG_ne_none : (s.RTUNREG o.ops message).1 ≠ none ↔ o.Returns s message .RTUNREG := by
  obtain ⟨type, params, data⟩ := message
  unfold Session.RTUNREG Returns
  generalize o.ops = ops
  obtain ⟨removeAll, createDirectory, remove, writeFile, readFile⟩ := ops
  cases type with
  | CMD =>
    match params with
    | _ :: _ => simp
    | [] =>
      dsimp only
      split_ifs
      · simp_all
      · simp_all
      · simp_all
  | NON | SEARCH | TEST | LONG => simp

theorem MDDECL_ne_none :
    (s.MDDECL o.ops o.draws message).1 ≠ none ↔ o.Returns s message .MDDECL := by
  obtain ⟨type, params, data⟩ := message
  unfold Session.MDDECL Returns
  cases type with
  | LONG =>
    match params with
    | [] => simp
    | _ :: _ :: _ => simp
    | [name] =>
      simp only [List.cons.injEq, and_true, forall_const, forall_eq', models_name]
      cases s.enginePrivate.find? fun engine => engine.1 = name with
      | some engine => simp
      | none =>
        cases s.engineCloud.find? fun engine => engine.1 = name with
        | some engine => simp
        | none =>
          rw [Draws]
          cases createId s.registry o.draws with
          | none => simp
          | some draw =>
            refine iff_of_true ?_ (by simp)
            dsimp only
            split_ifs
            · simp
            · simp
  | NON | CMD | SEARCH | TEST => simp

/-- The kinds of a parameter differ. -/
theorem mid_ne : lit "mid" ≠ lit "id" ∧ lit "mid" ≠ lit "name" := by decide

theorem removeFile_ne_none {ops : FileOps φ} {id : Str} : (s.removeFile ops id).1 ≠ none ↔
    (ops.remove s.files (modelFile s.user id)).1 = true := by
  unfold Session.removeFile
  obtain ⟨removed, files⟩ := ops.remove s.files (modelFile s.user id)
  cases removed with
  | false => simp
  | true => simp

theorem MDRM_ne_none : (s.MDRM o.ops message).1 ≠ none ↔ o.Returns s message .MDRM := by
  obtain ⟨type, params, data⟩ := message
  unfold Session.MDRM Returns Session.kept
  cases type with
  | CMD =>
    match params with
    | [] => simp
    | _ :: _ :: _ => simp
    | [param] =>
      dsimp only
      by_cases huser : s.user = []
      · simp [huser]
      rw [if_neg huser, if_neg huser]
      cases splitJudge param with
      | none => simp
      | some parts =>
        obtain ⟨judge, temp⟩ := parts
        dsimp only
        by_cases hmid : judge = lit "mid"
        · subst hmid
          rw [if_pos rfl, if_neg mid_ne.1, if_neg mid_ne.2]
          split_ifs
          · simp
          · simp
        rw [if_neg hmid]
        by_cases hid : judge = lit "id"
        · rw [if_pos hid, if_pos hid]
          cases s.enginePrivate.find? fun engine => temp = engine.2 with
          | none => simp
          | some engine =>
            by_cases hnil : engine.2 = []
            · simp [hnil]
            · simp [hnil, removeFile_ne_none]
        rw [if_neg hid, if_neg hid]
        by_cases hname : judge = lit "name"
        · rw [if_pos hname, if_pos hname]
          cases s.enginePrivate.find? fun engine => temp = engine.1 with
          | none =>
            dsimp only [Option.filter]
            split_ifs
            · simp
            · simp
          | some engine =>
            by_cases hnil : engine.1 = []
            · rw [Option.filter_some_neg (by simp [hnil])]
              dsimp only
              split_ifs
              · simp [hnil]
              · simp [hnil]
            · rw [Option.filter_some_pos (by simp [hnil])]
              simp [hnil, removeFile_ne_none]
        · simp [hname]
  | NON | SEARCH | TEST | LONG => simp

theorem push_ne_none {storage name mid data : Str} :
    o.push s storage name mid data ≠ none ↔ IsInt storage := by
  rw [push, IsInt]
  cases stoi storage with
  | error error => simp [Except.toOption]
  | ok n => simp [Except.toOption]

theorem push_eq_some {storage name mid data : Str} {arrived : Bool}
    (h : o.push s storage name mid data = some arrived) :
    IsInt storage ∧ (arrived = true ↔ o.Arrives s name mid data) := by
  refine ⟨push_ne_none.mp (by rw [h]; exact Option.some_ne_none _), ?_⟩
  rw [push] at h
  split at h
  · cases h
  · rw [Arrives, Option.some.inj h]

theorem pushes_of_missing {storage : Str} {engine : Str × Str} {files : φ}
    (h : o.ops.readFile s.files (modelFile s.user engine.2) = (none, files)) :
    o.Pushes s storage engine := by
  intro data files' heq
  rw [h] at heq
  cases heq

theorem pushes_iff {storage data : Str} {engine : Str × Str} {files : φ}
    (h : o.ops.readFile s.files (modelFile s.user engine.2) = (some data, files)) :
    o.Pushes s storage engine ↔ o.unsized s.files (modelFile s.user engine.2) = false ∧
      IsInt storage ∧ (o.Arrives s engine.1 engine.2 data →
        (o.ops.remove files (modelFile s.user engine.2)).1 = true) := by
  constructor
  · intro hpushes
    exact hpushes data files h
  · intro hall data' files' heq
    rw [h] at heq
    cases heq
    exact hall

/-- The private model that is found is pushed. -/
theorem pushPrivate_ne_none {storage temp : Str} {found : Str × Str → Bool} :
    (o.pushPrivate s storage temp found).1 ≠ none ↔
      ∀ engine ∈ s.enginePrivate.find? found, engine.1 ≠ [] → engine.2 ≠ [] →
        o.Pushes s storage engine := by
  unfold pushPrivate
  cases s.enginePrivate.find? found with
  | none => simp
  | some engine =>
    obtain ⟨name, mid⟩ := engine
    show (ite _ _ _ : Answer × Session φ).1 ≠ none ↔ _
    by_cases hnil : name = [] ∨ mid = []
    · rw [if_pos hnil]
      refine iff_of_true (Option.some_ne_none _) fun engine hengine hname hmid => ?_
      obtain rfl := Option.some.inj hengine
      exact absurd hnil (not_or.mpr ⟨hname, hmid⟩)
    rw [if_neg hnil]
    obtain ⟨hname, hmid⟩ := not_or.mp hnil
    refine Iff.trans (b := o.Pushes s storage (name, mid)) ?_ ⟨fun h engine hengine _ _ => ?_,
      fun h => h (name, mid) rfl hname hmid⟩
    swap
    · obtain rfl := Option.some.inj hengine
      exact h
    cases hread : o.ops.readFile s.files (modelFile s.user mid) with
    | mk data files =>
      cases data with
      | none => exact iff_of_true (Option.some_ne_none _) (pushes_of_missing hread)
      | some data =>
        rw [pushes_iff hread]
        show (ite _ _ _ : Answer × Session φ).1 ≠ none ↔ _
        by_cases hsized : o.unsized s.files (modelFile s.user mid) = true
        · simp [hsized]
        rw [if_neg hsized]
        cases hpush : o.push { s with files } storage name mid data with
        | none => exact iff_of_false (not_not_intro rfl) fun h => push_ne_none.mpr h.2.1 hpush
        | some arrived =>
          obtain ⟨hint, harrived⟩ := push_eq_some hpush
          have harrives : arrived = true ↔ o.Arrives s name mid data := harrived
          rw [← harrives]
          obtain ⟨removed, files'⟩ := o.ops.remove files (modelFile s.user mid)
          cases arrived with
          | false => simp [hint, hsized]
          | true =>
            cases removed with
            | false => simp
            | true => simp [hint, hsized]

/-- The private model that a push selects by its kind of parameter. -/
theorem pushSelected_ne_none {storage judge temp : Str} :
    (if judge = lit "id" then o.pushPrivate s storage temp fun engine => temp = engine.2
      else if judge = lit "name" then o.pushPrivate s storage temp fun engine => temp = engine.1
      else ((lit "AT+ENVAL" : Answer), s)).1 ≠ none ↔
      ∀ engine ∈ s.selected judge temp, engine.1 ≠ [] → engine.2 ≠ [] →
        o.Pushes s storage engine := by
  unfold Session.selected
  split_ifs
  · exact pushPrivate_ne_none
  · exact pushPrivate_ne_none
  · simp

/-- The two lists in the other order. -/
theorem models_find? {name : Str} :
    (s.engineCloud ++ s.enginePrivate).find? (fun engine => engine.1 = name) = none ↔
      ∀ engine ∈ s.registry.models, engine.1 ≠ name := by
  rw [find?_name]
  exact forall_congr' fun engine => imp_congr_left List.perm_append_comm.mem_iff

theorem MDPUSH_ne_none : (o.MDPUSH s message).1 ≠ none ↔ o.Returns s message .MDPUSH := by
  obtain ⟨type, params, data⟩ := message
  unfold MDPUSH Returns
  match params with
  | [] => simp
  | _ :: _ :: _ => simp
  | [param] =>
    simp only [List.cons.injEq, and_true, forall_eq']
    by_cases huser : s.user = []
    · simp [huser]
    rw [if_neg huser]
    simp only [ne_eq, huser, not_false_eq_true, forall_const]
    cases portOf o.flag.datatransferRouter with
    | none => simp
    | some router =>
      dsimp only
      by_cases hrouter : IsInt router
      swap
      · simp [hrouter]
      rw [if_neg (not_not_intro hrouter)]
      cases portOf o.flag.datatransferStorage with
      | none => simp [hrouter]
      | some storage =>
        cases type with
        | CMD =>
          cases splitJudge param with
          | none => simp [hrouter]
          | some parts =>
            exact Iff.trans pushSelected_ne_none (by simp [hrouter])
        | LONG =>
          refine Iff.trans (b := (∀ engine ∈ s.registry.models, engine.1 ≠ param) →
            o.Draws s ∧ IsInt storage) ?_ (by simp [hrouter])
          rw [← models_find?, Draws]
          dsimp only
          cases (s.engineCloud ++ s.enginePrivate).find? fun engine => engine.1 = param with
          | some engine => simp
          | none =>
            cases createId s.registry o.draws with
            | none => simp
            | some draw =>
              dsimp only
              cases hpush : o.push s storage param draw.id data with
              | none => simpa using fun hint => push_ne_none.mpr hint hpush
              | some arrived =>
                have hint := (push_eq_some hpush).1
                cases arrived with
                | false => simp [hint]
                | true => simp [hint]
        | NON | SEARCH | TEST => simp [hrouter]

/-- A file is read whole, or is not there. -/
theorem readEngine_ne {found : Str × Str → Bool} : (o.readEngine s found).1 ≠ .error none ↔
    ∀ engine ∈ s.enginePrivate.find? found, o.Sized s engine := by
  unfold readEngine
  cases s.enginePrivate.find? found with
  | none => simp [missing]
  | some engine =>
    refine Iff.trans (b := o.Sized s engine) ?_ (by simp)
    unfold Sized
    generalize o.ops = ops
    obtain ⟨removeAll, createDirectory, remove, writeFile, readFile⟩ := ops
    dsimp only
    cases (readFile s.files (modelFile s.user engine.2)).1 with
    | none => simp [missing]
    | some data =>
      cases o.unsized s.files (modelFile s.user engine.2) with
      | false => simp
      | true => simp

theorem findEngine_ne {judge temp : Str} : (o.findEngine s judge temp).1 ≠ .error none ↔
    ∀ engine ∈ s.started judge temp, o.Sized s engine := by
  unfold findEngine Session.started
  dsimp only
  by_cases hmid : judge = lit "mid"
  · subst hmid
    rw [if_pos rfl, if_neg mid_ne.1, if_neg fun h => mid_ne.2 h.1]
    cases s.engineCloud.find? fun engine => engine.2 = temp with
    | none => simp [missing]
    | some engine => simp
  rw [if_neg hmid]
  by_cases hid : judge = lit "id"
  · rw [if_pos hid, if_pos hid]
    exact readEngine_ne
  rw [if_neg hid, if_neg hid]
  by_cases hname : judge = lit "name"
  · cases s.engineCloud.find? fun engine => engine.1 = temp with
    | none =>
      rw [if_pos hname, if_pos ⟨hname, rfl⟩]
      exact readEngine_ne
    | some engine => simp [hname]
  · simp [hname]

theorem startEngine_ne : (o.startEngine s message).1 ≠ .error none ↔
    ∀ engine ∈ s.toRead message, o.Sized s engine := by
  unfold startEngine Session.toRead
  cases message.param with
  | nil => simp
  | cons front rest =>
    dsimp only
    split_ifs
    · simp
    · simp
    · simp
    · simp
    · cases splitJudge front with
      | none => simp
      | some parts =>
        exact findEngine_ne

theorem CPSTART_ne_none : (o.CPSTART s message).1 ≠ none ↔ o.Returns s message .CPSTART := by
  unfold CPSTART Returns
  rw [← startEngine_ne]
  obtain ⟨engine, files⟩ := o.startEngine s message
  cases engine with
  | error answer => simp
  | ok engine =>
    refine Iff.trans (b := o.Ends s message engine) ?_ (by simp)
    unfold Ends
    dsimp only
    by_cases hnegotiates : o.negotiates engine = true
    swap
    · simp [hnegotiates]
    by_cases htaskid : o.remote.negotiate engine = 0
    · simp [hnegotiates, htaskid]
    by_cases hdeploys : o.deploys (o.remote.negotiate engine) = true
    swap
    · simp [hnegotiates, htaskid, hdeploys]
    by_cases hdeployed : o.remote.deploy (o.remote.negotiate engine) (datasource message)
        startAttr = -1
    · simp [hnegotiates, htaskid, hdeploys, hdeployed]
    by_cases hblock : message.param.length = 2
    swap
    · simp [hnegotiates, htaskid, hdeploys, hdeployed, hblock]
    simp only [hnegotiates, htaskid, hdeploys, hdeployed, hblock, Bool.not_true,
      Bool.false_eq_true, if_false, if_true, true_and, ne_eq, not_false_eq_true, forall_const]
    cases (o.remote.deploying.foldl Slot.process ((o.remote.negotiating.foldl Slot.process
        s.task).set (o.remote.negotiate engine))).wait o.remote.waiting with
    | none => simp
    | some task =>
      dsimp only
      split_ifs
      · simp
      · simp

theorem CPVAL_ne_none : (o.CPVAL s message).1 ≠ none ↔ o.Returns s message .CPVAL := by
  obtain ⟨type, params, data⟩ := message
  have hcheck : (o.check s).1 ≠ none := by
    unfold check
    dsimp only
    split_ifs
    · simp
    · simp
    · simp
    · simp
  unfold CPVAL Returns
  cases type with
  | CMD =>
    dsimp only
    split_ifs with hlen hint
    · simp [hlen]
    · obtain ⟨param, hparam, hthrows⟩ := hint
      refine iff_of_false (by simp) fun h => hthrows (h rfl (by omega) param hparam)
    · push Not at hint
      exact iff_of_true hcheck fun _ _ => hint
  | TEST =>
    dsimp only
    split_ifs
    · simp [hcheck]
    · simp
  | NON | SEARCH | LONG => simp

theorem TRANS_ne_none : (TRANS o.shell message).1 ≠ none ↔ o.Returns s message .TRANS := by
  obtain ⟨type, params, data⟩ := message
  unfold TRANS Returns
  cases type with
  | LONG =>
    match params with
    | [] => simp
    | _ :: _ :: _ => simp
    | [param] =>
      simp only [List.cons.injEq, and_true, forall_const, forall_eq', IsInt]
      cases stoi param with
      | error error => simp [Except.toOption]
      | ok n =>
        cases o.shell.pipe with
        | false => simp [Except.toOption]
        | true =>
          cases o.shell.fork with
          | false => simp [Except.toOption]
          | true => simp [Except.toOption]
  | NON | CMD | SEARCH | TEST => simp

theorem STRANS_ne_none (shell : Shell) (message : ATMessage) : (STRANS shell message).1 ≠ none := by
  unfold STRANS
  split
  · rw [findPart_nil]
    exact Option.some_ne_none _
  · exact Option.some_ne_none _

theorem CPMOD_ne_none (s : Session φ) (message : ATMessage) : (s.CPMOD message).1 ≠ none := by
  unfold Session.CPMOD
  split
  · exact Option.some_ne_none _
  · dsimp only
    split_ifs
    · exact Option.some_ne_none _
    · exact Option.some_ne_none _
  · exact Option.some_ne_none _

/-- **When a function returns.** -/
theorem call_ne_none (f : Function) : (o.call s message f).1 ≠ none ↔ o.Returns s message f := by
  cases f with
  | REG => exact REG_ne_none
  | RTUNREG => exact RTUNREG_ne_none
  | RTBUSY => exact iff_of_true (Option.some_ne_none _) trivial
  | MDDECL => exact MDDECL_ne_none
  | MDRM => exact MDRM_ne_none
  | MDPUSH => exact MDPUSH_ne_none
  | CPSTART => exact CPSTART_ne_none
  | CPMOD => exact iff_of_true (CPMOD_ne_none _ _) trivial
  | CPRDY => exact iff_of_true (Option.some_ne_none _) trivial
  | CPVAL => exact CPVAL_ne_none
  | TRANS => exact TRANS_ne_none
  | STRANS => exact iff_of_true (STRANS_ne_none _ _) trivial

end Outside

/-! ## Runs -/

/-- A turn of the loop: a message with what is outside, or a step of a result that is put in
between. -/
inductive Turn (φ : Type)
  | message (o : Outside φ) (m : ATCommand)
  | result (arrival : Arrival)

namespace Turn

variable {φ : Type}

/-- The state after a turn. -/
def after (s : Session φ) : Turn φ → Session φ
  | message o m => (o.answer s m).2
  | result arrival => { s with task := s.task.process arrival }

/-- A message is answered. -/
def Replies (s : Session φ) : Turn φ → Prop
  | message o m => (o.answer s m).1 ≠ none
  | result _ => True

/-- The function of the message, if there is one, returns. -/
def Safe (s : Session φ) : Turn φ → Prop
  | message o m => ∀ f ∈ Function.find m.cmd, o.Returns s m.toATMessage f
  | result _ => True

theorem replies_iff_safe (s : Session φ) (turn : Turn φ) : Replies s turn ↔ Safe s turn := by
  cases turn with
  | message o m =>
    show (o.answer s m).1 ≠ none ↔ ∀ f ∈ Function.find m.cmd, o.Returns s m.toATMessage f
    unfold Outside.answer
    cases Function.find m.cmd with
    | none => exact iff_of_true (Option.some_ne_none _) nofun
    | some f =>
      refine (Outside.call_ne_none f).trans ⟨fun h f' hf => ?_, fun h => h f rfl⟩
      obtain rfl := Option.some.inj hf
      exact h
  | result arrival => exact Iff.rfl

/-- **All messages of a run are answered** exactly when each of them meets the condition in the
state in which it is handled. -/
theorem replies_iff (files : φ) (turns : List (Turn φ)) :
    Along Replies after { files } turns ↔ Along Safe after { files } turns := by
  have heq : (Replies : Session φ → Turn φ → Prop) = Safe :=
    funext fun s => funext fun turn => propext (replies_iff_safe s turn)
  rw [heq]

/-- Nothing is outside that could fail. -/
def calm : Outside Unit where
  ops := ⟨fun _ _ => (true, ()), fun _ _ => (true, ()), fun _ _ => (true, ()),
    fun _ _ _ => (true, ()), fun _ _ => (none, ())⟩
  unsized _ _ := false
  flag := ⟨lit "r:1", lit "s:2"⟩
  draws := []
  transfer _ := true
  remote := { negotiate _ := 1, deploy _ _ _ := 0 }
  negotiates _ := true
  deploys _ := true
  results := []
  shell := ⟨true, true, fun _ => some ([], true)⟩

/-- **A letter is taken for a number.** -/
theorem letter_thrown : ¬ ∀ turns : List (Turn Unit),
    (∀ o m, message o m ∈ turns → ∃ text, parse text = some m) →
      Along Replies after { files := () } turns := by
  intro h
  have hparse : parse (lit "AT+CPVAL=a" ++ crlf) = some ⟨⟨.CMD, [lit "a"], []⟩, lit "CPVAL"⟩ := by
    decide +kernel
  have hreplies := h [message calm ⟨⟨.CMD, [lit "a"], []⟩, lit "CPVAL"⟩] fun o m hmem => by
    cases List.mem_singleton.mp hmem
    exact ⟨_, hparse⟩
  exact hreplies.1 (by decide)

end Turn

end Jxtd.Router
