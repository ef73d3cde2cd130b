import Jxtd.Router.Stream
import Jxtd.Router.Trans

/-!
# The handlers of the router

The functions of `router/lib/cmd.cc` with everything that can keep them from returning: exceptions
of the file system and of the conversions of numbers, and waits that do not end.

* `Outside`: what is outside of the router during one command.
* `MDPUSH`, `CPSTART`, `CPMOD`, `CPVAL`: the commands that are not already complete elsewhere.
* `Function`, `answer`: the table of functions of `router/bin/main.cc`.
* **`MDPUSH_eq`**, **`CPSTART_eq`**: where nothing throws and everything ends, these are the
  commands of `Session`.
-/

namespace Jxtd.Router

open Lib Lib.Posix

/-- What is outside. The size of an opened file may not be told, as that of a directory; `results`
are put while a timer runs. -/
structure Outside (φ : Type) where
  ops : FileOps φ
  unsized : φ → Str → Bool
  flag : Flag
  draws : List Drawn
  transfer : Datatransfer.Request → Bool
  remote : Remote
  negotiates : Taskdep.Engine → Bool
  deploys : UInt64 → Bool
  results : List Arrival
  shell : Shell

/-- What follows the first colon of an address. -/
def portOf (address : Str) : Option Str :=
  (findFirstOf address 0x3a).map fun pos => address.drop (pos + 1)

def Session.CPMOD {φ : Type} (s : Session φ) (message : ATMessage) : Answer × Session φ :=
  match message.param, message.type with
  | [], .CMD =>
    (lit "AT+CPSTA=cancel=true",
      if s.task.taskid ≠ 0 then { s with task := s.task.remove } else s)
  | [], .TEST =>
    (if s.task.taskid ≠ 0 then lit "AT+CPSTA=cancel=false" else lit "AT+CPSTA=cancel=true", s)
  | _, _ => (lit "AT+ENVAL", s)

namespace Outside

variable {φ : Type} (o : Outside φ)

/-! ## Pushing -/

/-- Whether the model arrives, if the port of the storage is a number. -/
def push (s : Session φ) (storage name mid data : Str) : Option Bool :=
  match stoi storage with
  | .error _ => none
  | .ok _ => some (o.transfer (Push.request ⟨name, mid, data, s.registry⟩ o.flag))

/-- The private model that `found` accepts is pushed. -/
def pushPrivate (s : Session φ) (storage temp : Str) (found : Str × Str → Bool) :
    Answer × Session φ :=
  let (name, mid) := (s.enginePrivate.find? found).getD ([], [])
  if name = [] ∨ mid = [] then
    (lit "AT+MDPUSH=-1," ++ temp ++ lit ",the model is not existed", s)
  else
    let (data, files) := o.ops.readFile s.files (modelFile s.user mid)
    let s' := { s with files }
    match data with
    | none =>
      (lit "AT+MDPUSH=-1," ++ name ++ lit "," ++ mid ++ lit ",the model is not existed", s')
    | some data =>
      if o.unsized s.files (modelFile s.user mid) then (none, s')
      else
        match o.push s' storage name mid data with
        | none => (none, s')
        | some false => (lit "AT+MDPUSH=-5,unable to push model", s')
        | some true =>
          let (removed, files) := o.ops.remove files (modelFile s.user mid)
          (if removed then some (lit "AT+MDPUSH=0") else none,
            { s with
              files
              enginePrivate := s.enginePrivate.eraseP found
              engineCloud := s.engineCloud ++ [(name, mid)] })

def MDPUSH (s : Session φ) (message : ATMessage) : Answer × Session φ :=
  match message.param with
  | [param] =>
    if s.user = [] then (lit "AT+MDPUSH=-4,the service is not registered", s)
    else
      match portOf o.flag.datatransferRouter with
      | none => (lit "AT+MDPUSH=-5,the source url is incorrect", s)
      | some router =>
        if ¬ IsInt router then (none, s)
        else
          match portOf o.flag.datatransferStorage with
          | none => (lit "AT+MDPUSH=-5,the dest url is incorrect", s)
          | some storage =>
            match message.type with
            | .CMD =>
              match splitJudge param with
              | none => (lit "AT+ENVAL", s)
              | some (judge, temp) =>
                if judge = lit "id" then
                  o.pushPrivate s storage temp fun engine => temp = engine.2
                else if judge = lit "name" then
                  o.pushPrivate s storage temp fun engine => temp = engine.1
                else (lit "AT+ENVAL", s)
            | .LONG =>
              match (s.engineCloud ++ s.enginePrivate).find? fun engine => engine.1 = param with
              | some engine => (lit "AT+MDPUSH=-2," ++ param ++ lit "," ++ engine.2 ++
                  lit ",duplicate engine indexes", s)
              | none =>
                match createId s.registry o.draws with
                | none => (none, s)
                | some draw =>
                  match o.push s storage param draw.id message.data with
                  | none => (none, s)
                  | some false => (lit "AT+MDPUSH=-5,unable to push model", s)
                  | some true => (lit "AT+MDPUSH=0,",
                      { s with engineCloud := s.engineCloud ++ [(param, draw.id)] })
            | _ => (lit "AT+ENVAL", s)
  | _ => (lit "AT+ENVAL", s)

/-! ## Tasks -/

def missing : Answer := lit "AT+CPRES=-1,the model is not existed"

/-- The engine of the private model that `found` accepts is its data. -/
def readEngine (s : Session φ) (found : Str × Str → Bool) : Except Answer Taskdep.Engine × φ :=
  match s.enginePrivate.find? found with
  | none => (.error missing, s.files)
  | some engine =>
    let (data, files) := o.ops.readFile s.files (modelFile s.user engine.2)
    match data with
    | none => (.error missing, files)
    | some data =>
      if o.unsized s.files (modelFile s.user engine.2) then (.error none, files)
      else (.ok { Taskdep.Engine.new with binary := data }, files)

/-- The engine of a model, or the answer without one. -/
def findEngine (s : Session φ) (judge temp : Str) : Except Answer Taskdep.Engine × φ :=
  let cloud (found : Str × Str → Bool) : Option Taskdep.Engine :=
    (s.engineCloud.find? found).map fun engine =>
      { Taskdep.Engine.new with id := engine.2, name := engine.1 }
  if judge = lit "mid" then
    match cloud fun engine => engine.2 = temp with
    | none => (.error missing, s.files)
    | some engine => (.ok engine, s.files)
  else if judge = lit "id" then o.readEngine s fun engine => engine.2 = temp
  else if judge = lit "name" then
    match cloud fun engine => engine.1 = temp with
    | some engine => (.ok engine, s.files)
    | none => o.readEngine s fun engine => engine.1 = temp
  else (.error (lit "AT+ENVAL"), s.files)

/-- `CPSTART` up to the negotiation. -/
def startEngine (s : Session φ) (message : ATMessage) : Except Answer Taskdep.Engine × φ :=
  match message.param with
  | [] => (.error (lit "AT+ENVAL"), s.files)
  | front :: rest =>
    if rest = [] ∨ 2 < rest.length ∨ (message.type ≠ .CMD ∧ message.type ≠ .LONG) then
      (.error (lit "AT+ENVAL"), s.files)
    else if rest.length = 2 ∧ rest[1]? ≠ some (lit "nonblock") then
      (.error (lit "AT+ENVAL"), s.files)
    else if s.user = [] then (.error (lit "AT+CPRES=-4,the service is not registered"), s.files)
    else if s.task.taskid ≠ 0 then
      (.error (lit "AT+CPRES=-9," ++ decimal s.task.taskid.toNat ++ lit "the task is running"),
        s.files)
    else
      match splitJudge front with
      | none => (.error (lit "AT+ENVAL"), s.files)
      | some (judge, temp) => o.findEngine s judge temp

def CPSTART (s : Session φ) (message : ATMessage) : Answer × Session φ :=
  let (engine, files) := o.startEngine s message
  let s := { s with files }
  match engine with
  | .error answer => (answer, s)
  | .ok engine =>
    -- alternatives are tried as long as the storage has one
    if !o.negotiates engine then (none, s)
    else
      let taskid := o.remote.negotiate engine
      if taskid = 0 then (lit "AT+CPRES=-7,cannot get taskid", s)
      else
        let task := (o.remote.negotiating.foldl Slot.process s.task).set taskid
        let task := o.remote.deploying.foldl Slot.process task
        -- a busy node is asked again without an end
        if !o.deploys taskid then (none, { s with task })
        else if o.remote.deploy taskid (datasource message) startAttr = -1 then
          (lit "AT+CPRES=-7,cannot deploy task", { s with task })
        else if message.param.length = 2 then
          match task.wait o.remote.waiting with
          | none => (none, { s with task := o.remote.waiting.foldl Slot.process task })
          | some task =>
            let task := o.remote.woken.foldl Slot.process task
            if task.status then
              let task := o.remote.reading.foldl Slot.process task
              (lit "AT+CPRES=0,data\r\n" ++ task.data ++ lit "<<<\r\n",
                { s with task := (o.remote.leaving.foldl Slot.process task).remove })
            else
              (lit "AT+CPRES=-8,unable to get result",
                { s with task := (o.remote.leaving.foldl Slot.process task).remove })
        else (lit "AT+CPRES=0," ++ decimal taskid.toNat, { s with task })

/-- `check` of `CPVAL`, when the timer has run. -/
def check (s : Session φ) : Answer × Session φ :=
  let task := o.results.foldl Slot.process s.task
  if task.taskid = 0 then (lit "AT+CPRES=-7,the task is canceled", { s with task })
  else if !task.status then
    (lit "AT+CPRES=-8,cannot get result", { s with task := task.remove })
  else if task.data = [] then (lit "AT+CPRES=-9,the task is running", { s with task })
  else
    (lit "AT+CPRES=0,data\r\n" ++ task.data ++ lit "<<<\r\n", { s with task := task.remove })

/-- `CPVAL`; the parameters are seconds and microseconds. -/
def CPVAL (s : Session φ) (message : ATMessage) : Answer × Session φ :=
  match message.type with
  | .CMD =>
    if 2 < message.param.length then (lit "AT+ENVAL", s)
    else if ∃ param ∈ message.param, ¬ IsInt param then (none, s)
    else o.check s
  | .TEST => if message.param = [] then o.check s else (lit "AT+ENVAL", s)
  | _ => (lit "AT+ENVAL", s)

end Outside

/-! ## The table of functions -/

inductive Function
  | REG
  | RTUNREG
  | RTBUSY
  | MDDECL
  | MDRM
  | MDPUSH
  | CPSTART
  | CPMOD
  | CPRDY
  | CPVAL
  | TRANS
  | STRANS
  deriving DecidableEq

namespace Function

def name : Function → Str
  | REG => lit "REG"
  | RTUNREG => lit "RTUNREG"
  | RTBUSY => lit "RTBUSY"
  | MDDECL => lit "MDDECL"
  | MDRM => lit "MDRM"
  | MDPUSH => lit "MDPUSH"
  | CPSTART => lit "CPSTART"
  | CPMOD => lit "CPMOD"
  | CPRDY => lit "CPRDY"
  | CPVAL => lit "CPVAL"
  | TRANS => lit "TRANS"
  | STRANS => lit "STRANS"

def all : List Function :=
  [REG, RTUNREG, RTBUSY, MDDECL, MDRM, MDPUSH, CPSTART, CPMOD, CPRDY, CPVAL, TRANS, STRANS]

theorem map_name_all : all.map name = functions := rfl

/-- The function of a command. -/
def find (cmd : Str) : Option Function := all.find? fun f => f.name = cmd

/-- Exactly the commands in the table have one. -/
theorem isSome_find {cmd : Str} : (find cmd).isSome ↔ cmd ∈ functions := by
  rw [find, List.find?_isSome, ← map_name_all, List.mem_map]
  simp

end Function

namespace Outside

variable {φ : Type} (o : Outside φ)

def call (s : Session φ) (message : ATMessage) : Function → Answer × Session φ
  | .REG => s.REG o.ops message
  | .RTUNREG => s.RTUNREG o.ops message
  | .RTBUSY => (s.RTBUSY message, s)
  | .MDDECL => s.MDDECL o.ops o.draws message
  | .MDRM => s.MDRM o.ops message
  | .MDPUSH => o.MDPUSH s message
  | .CPSTART => o.CPSTART s message
  | .CPMOD => s.CPMOD message
  | .CPRDY => (s.CPRDY message, s)
  | .CPVAL => o.CPVAL s message
  | .TRANS => ((TRANS o.shell message).1, s)
  | .STRANS => ((STRANS o.shell message).1, s)

/-- What is answered to a message that is parsed. -/
def answer (s : Session φ) (m : Misc.ATParser.ATCommand) : Answer × Session φ :=
  match Function.find m.cmd with
  | none => (lit "AT+ENVAL", s)
  | some f => o.call s m.toATMessage f

/-! ## Without exceptions -/

/-- Sizes can be told, ports are numbers, and the management node comes to an end. -/
structure Quiet : Prop where
  sized : ∀ files path, o.unsized files path = false
  router : ∀ port ∈ portOf o.flag.datatransferRouter, IsInt port
  storage : ∀ port ∈ portOf o.flag.datatransferStorage, IsInt port
  negotiates : ∀ engine, o.negotiates engine = true
  deploys : ∀ taskid, o.deploys taskid = true

variable {o} {s : Session φ}

theorem portOf_of_notMem {address : Str} (h : (0x3a : UInt8) ∉ address) : portOf address = none := by
  rw [portOf, findFirstOf_of_notMem h]
  rfl

theorem portOf_of_mem {address : Str} (h : (0x3a : UInt8) ∈ address) :
    ∃ port, portOf address = some port := by
  cases hpos : findFirstOf address 0x3a with
  | none => exact absurd h (notMem_of_findFirstOf hpos)
  | some pos => exact ⟨address.drop (pos + 1), by rw [portOf, hpos, Option.map_some]⟩

theorem push_eq {storage : Str} (h : IsInt storage) (s : Session φ) (name mid data : Str) :
    o.push s storage name mid data =
      some (o.transfer (Push.request ⟨name, mid, data, s.registry⟩ o.flag)) := by
  obtain ⟨n, hn⟩ := isInt_iff.mp h
  rw [push, hn]

theorem pushPrivate_eq (h : o.Quiet) {storage : Str} (hstorage : IsInt storage) (temp : Str)
    (found : Str × Str → Bool) :
    o.pushPrivate s storage temp found = s.pushPrivate o.ops (fun name mid data =>
      o.transfer (Push.request ⟨name, mid, data, s.registry⟩ o.flag)) temp found := by
  unfold pushPrivate Session.pushPrivate
  obtain ⟨name, mid⟩ := (s.enginePrivate.find? found).getD ([], [])
  show ite _ _ _ = ite _ _ _
  by_cases hnil : name = [] ∨ mid = []
  · rw [if_pos hnil, if_pos hnil]
  rw [if_neg hnil, if_neg hnil]
  obtain ⟨data, files⟩ := o.ops.readFile s.files (modelFile s.user mid)
  cases data with
  | none => rfl
  | some data =>
    have hregistry : ({ s with files } : Session φ).registry = s.registry := rfl
    simp only [h.sized, push_eq hstorage, hregistry, Bool.false_eq_true, if_false]
    cases htransfer : o.transfer (Push.request ⟨name, mid, data, s.registry⟩ o.flag) with
    | false => rfl
    | true => rfl

/-- **A push without exceptions** is the one of `Session`. -/
theorem MDPUSH_eq (h : o.Quiet) (s : Session φ) (message : ATMessage) :
    o.MDPUSH s message = s.MDPUSH o.ops o.flag o.draws o.transfer message := by
  obtain ⟨type, params, data⟩ := message
  unfold MDPUSH Session.MDPUSH
  match params with
  | [] => rfl
  | _ :: _ :: _ => rfl
  | [param] =>
    dsimp only
    by_cases huser : s.user = []
    · rw [if_pos huser, if_pos huser]
    rw [if_neg huser, if_neg huser]
    by_cases hrouter : (0x3a : UInt8) ∈ o.flag.datatransferRouter
    swap
    · rw [portOf_of_notMem hrouter, if_pos hrouter]
    obtain ⟨router, hport⟩ := portOf_of_mem hrouter
    rw [hport, if_neg (not_not_intro hrouter)]
    dsimp only
    rw [if_neg (not_not_intro (h.router router hport))]
    by_cases hstorage : (0x3a : UInt8) ∈ o.flag.datatransferStorage
    swap
    · rw [portOf_of_notMem hstorage, if_pos hstorage]
    obtain ⟨storage, hport'⟩ := portOf_of_mem hstorage
    have hint := h.storage storage hport'
    rw [hport', if_neg (not_not_intro hstorage)]
    simp only [pushPrivate_eq h hint, push_eq hint]
    cases type with
    | CMD => rfl
    | LONG =>
      dsimp only
      cases (s.engineCloud ++ s.enginePrivate).find? fun engine => engine.1 = param with
      | some engine => rfl
      | none =>
        cases createId s.registry o.draws with
        | none => rfl
        | some draw =>
          dsimp only
          by_cases harrived : o.transfer (Push.request ⟨param, draw.id, data, s.registry⟩ o.flag)
          · rw [if_neg (by simp [harrived]), harrived]
          · rw [if_pos (by simp [harrived]), Bool.eq_false_iff.mpr harrived]
    | NON | SEARCH | TEST => rfl

theorem readEngine_eq (h : o.Quiet) (s : Session φ) (found : Str × Str → Bool) :
    o.readEngine s found = ((Session.orMissing (s.readEngine o.ops found).1).mapError some,
      (s.readEngine o.ops found).2) := by
  unfold readEngine Session.readEngine
  cases s.enginePrivate.find? found with
  | none => rfl
  | some engine =>
    dsimp only
    cases (o.ops.readFile s.files (modelFile s.user engine.2)).1 with
    | none => rfl
    | some data => simp [h.sized, Session.orMissing, Except.mapError]

theorem findEngine_eq (h : o.Quiet) (s : Session φ) (judge temp : Str) :
    o.findEngine s judge temp = ((s.findEngine o.ops judge temp).1.mapError some,
      (s.findEngine o.ops judge temp).2) := by
  unfold findEngine Session.findEngine
  dsimp only
  split_ifs
  · cases s.engineCloud.find? fun engine => engine.2 = temp with
    | none => rfl
    | some engine => rfl
  · rw [readEngine_eq h]
  · cases s.engineCloud.find? fun engine => engine.1 = temp with
    | none => exact readEngine_eq h s _
    | some engine => rfl
  · rfl

/-- The answers of a start without exceptions. -/
theorem startEngine_eq (h : o.Quiet) (s : Session φ) (message : ATMessage) :
    o.startEngine s message =
      ((s.startEngine o.ops message).1.mapError some, (s.startEngine o.ops message).2) := by
  unfold startEngine Session.startEngine
  cases message.param with
  | nil => rfl
  | cons front rest =>
    dsimp only
    split_ifs
    · rfl
    · rfl
    · rfl
    · rfl
    · cases splitJudge front with
      | none => rfl
      | some parts => exact findEngine_eq h s _ _

/-- **A start without exceptions** is the one of `Session`. -/
theorem CPSTART_eq (h : o.Quiet) (s : Session φ) (message : ATMessage) :
    o.CPSTART s message = s.CPSTART o.ops o.remote message := by
  unfold CPSTART Session.CPSTART
  rw [startEngine_eq h]
  obtain ⟨engine, files⟩ := s.startEngine o.ops message
  cases engine with
  | error answer => rfl
  | ok engine =>
    dsimp only [Except.mapError]
    rewrite [h.negotiates, h.deploys]
    rfl

end Outside

end Jxtd.Router
