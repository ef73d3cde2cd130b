import Jxtd.Lib.Directory
import Jxtd.Router.Cmd

/-!
# The commands of the router on its files

The functions of `router/lib/cmd.cc` with all that they read and write: the lists, the slot of the
running task, and the directory of the user beside the working directory. What is outside (the
random generator, the push, the management node, the results that computation nodes send) is an
argument.

* `FileOps`: the file operations of the commands; `localFiles`, `logged`: on a file system, and with
  a record of the paths.
* `Taskresult`, `Slot`, `Session`: the slot, the results that come in, and the state.
* `REG`, `RTUNREG`, `RTBUSY`, `MDDECL`, `MDRM`, `MDPUSH`, `CPSTART`, `CPRDY`: the commands.
* `Command`, `step`, `after`: one command of a run.
-/

namespace Jxtd.Router

open Lib Lib.Posix

/-! ## Files -/

/-- The file operations; `false` stands for an exception, or for a file that cannot be opened. -/
structure FileOps (φ : Type) where
  removeAll : φ → Str → Bool × φ
  createDirectory : φ → Str → Bool × φ
  remove : φ → Str → Bool × φ
  writeFile : φ → Str → Str → Bool × φ
  readFile : φ → Str → Option Str × φ

/-- The operations on a file system. -/
def localFiles : FileOps Fs where
  removeAll fs s := (true, fs.removeAll s)
  createDirectory := Fs.createDirectory
  remove := Fs.remove
  writeFile fs s data :=
    match fs.writeFile s data with
    | none => (false, fs)
    | some fs' => (true, fs')
  readFile fs s := (fs.contents s, fs)

/-- Note the path of a call. -/
def note {α φ : Type} (log : List Str) (path : Str) (out : α × φ) : α × φ × List Str :=
  (out.1, out.2, log ++ [path])

/-- The same operations, with a record of the paths. -/
def logged {φ : Type} (ops : FileOps φ) : FileOps (φ × List Str) where
  removeAll s path := note s.2 path (ops.removeAll s.1 path)
  createDirectory s path := note s.2 path (ops.createDirectory s.1 path)
  remove s path := note s.2 path (ops.remove s.1 path)
  writeFile s path data := note s.2 path (ops.writeFile s.1 path data)
  readFile s path := note s.2 path (ops.readFile s.1 path)

/-! ## The slot of the running task -/

structure Taskresult where
  taskid : UInt64 := 0
  status : Bool := true
  data : Str := []
  deriving DecidableEq

namespace Taskresult

def remove (_ : Taskresult) : Taskresult := {}

def set (_ : Taskresult) (taskid : UInt64) : Taskresult := { taskid }

/-- The condition of `wait`. -/
def ready (t : Taskresult) : Bool := t.taskid = 0 ∨ t.status = false ∨ t.data ≠ []

/-- No task, and no data. -/
def Idle (t : Taskresult) : Prop := t.taskid = 0 ∧ t.data = []

instance (t : Taskresult) : Decidable t.Idle := inferInstanceAs (Decidable (_ ∧ _))

end Taskresult

/-- A step of `process`, which handles a result that is put: it finds a task in the slot, writes the
data, and sets the status where there is no data. The data is written without the lock. -/
inductive Arrival
  | found (body : Str)
  | written (body : Str)
  | failed
  deriving DecidableEq

/-- The slot, with what is about to be written and how often the status is about to be set. -/
structure Slot extends Taskresult where
  writing : List Str := []
  failing : ℕ := 0
  deriving DecidableEq

namespace Slot

def remove (t : Slot) : Slot := { t with toTaskresult := t.toTaskresult.remove }

def set (t : Slot) (taskid : UInt64) : Slot :=
  { t with toTaskresult := t.toTaskresult.set taskid }

def process (t : Slot) : Arrival → Slot
  | .found body => if t.taskid = 0 then t else { t with writing := body :: t.writing }
  | .written body =>
    if body ∈ t.writing then
      { t with
        data := body
        writing := t.writing.erase body
        failing := if body = [] then t.failing + 1 else t.failing }
    else t
  | .failed =>
    if t.failing = 0 then t else { t with status := false, failing := t.failing - 1 }

/-- `wait`, which ends after the steps; nothing if it does not. -/
def wait (t : Slot) (arrivals : List Arrival) : Option Slot :=
  if (arrivals.foldl process t).ready then some (arrivals.foldl process t) else none

end Slot

/-! ## The state -/

structure Session (φ : Type) where
  user : Str := []
  enginePrivate : List (Str × Str) := []
  engineCloud : List (Str × Str) := []
  task : Slot := {}
  files : φ

/-- What a command answers; nothing where it does not return. -/
abbrev Answer := Option Str

namespace Session

variable {φ : Type}

def registry (s : Session φ) : Registry := ⟨s.user, s.enginePrivate, s.engineCloud, s.task.taskid⟩

@[simp] theorem registry_user (s : Session φ) : s.registry.user = s.user := rfl

@[simp] theorem registry_enginePrivate (s : Session φ) :
    s.registry.enginePrivate = s.enginePrivate := rfl

@[simp] theorem registry_engineCloud (s : Session φ) : s.registry.engineCloud = s.engineCloud := rfl

@[simp] theorem registry_taskid (s : Session φ) : s.registry.taskid = s.task.taskid := rfl

/-- The lists of a registry. -/
def withModels (s : Session φ) (r : Registry) : Session φ :=
  { s with enginePrivate := r.enginePrivate, engineCloud := r.engineCloud }

theorem registry_withModels {s : Session φ} {r : Registry} (huser : r.user = s.user)
    (htask : r.taskid = s.task.taskid) : (s.withModels r).registry = r := by
  cases r
  cases huser
  cases htask
  rfl

end Session

/-- The directory of a user. -/
def userDir (user : Str) : Str := lit "../" ++ user ++ lit "/"

/-- The file of a private model. -/
def modelFile (user id : Str) : Str := userDir user ++ id

/-! ## Ids -/

def digit (b : UInt8) : Bool := 0x30 ≤ b && b ≤ 0x39

def letter (b : UInt8) : Bool := (0x41 ≤ b && b ≤ 0x5a) || (0x61 ≤ b && b ≤ 0x7a)

/-- Four digits and four letters, in any order. -/
structure Drawn where
  id : Str
  bytes : ∀ b ∈ id, digit b || letter b
  digits : id.countP digit = 4
  letters : id.countP letter = 4

theorem Drawn.ne_nil (draw : Drawn) : draw.id ≠ [] := by
  intro hnil
  have hdigits := draw.digits
  rw [hnil] at hdigits
  cases hdigits

theorem Drawn.notMem (draw : Drawn) {b : UInt8} (hb : (digit b || letter b) = false) :
    b ∉ draw.id := fun hmem => by
  rw [draw.bytes b hmem] at hb
  cases hb

theorem Drawn.clean (draw : Drawn) : Clean draw.id :=
  ⟨draw.notMem (by decide), draw.notMem (by decide)⟩

theorem Drawn.plain (draw : Drawn) : Fs.Plain draw.id := by
  have hdot : 0x2e ∉ draw.id := draw.notMem (by decide)
  refine ⟨draw.ne_nil, ?_, ?_⟩
  · intro heq
    rw [heq] at hdot
    exact hdot (by decide)
  · intro heq
    rw [heq] at hdot
    exact hdot (by decide)

/-- The loop of `create_id` over what is drawn. -/
def createId (r : Registry) (draws : List Drawn) : Option Drawn :=
  draws.find? fun draw => r.checkId draw.id

/-! ## The commands -/

namespace Session

variable {φ : Type} (ops : FileOps φ)

/-- The files without the directory of the user, if there is one. -/
def cleared (s : Session φ) : Bool × φ :=
  if s.user = [] then (true, s.files) else ops.removeAll s.files (userDir s.user)

def REG (s : Session φ) (message : ATMessage) : Answer × Session φ :=
  match message.type with
  | .CMD =>
    match message.param with
    | [name] =>
      if s.user = name then (lit "AT+ERR=0,name is registered", s)
      else
        let (removed, files) := s.cleared ops
        if !removed then (none, { s with files })
        else
          let (created, files) := ops.createDirectory files (userDir name)
          (if created then some (lit "AT+OK") else none, { s with user := name, files })
    | _ => (lit "AT+ENVAL", s)
  | .TEST => (if s.user = [] then lit "AT+ERR=-2,name is not registered" else lit "AT+OK", s)
  | _ => (lit "AT+ENVAL", s)

def RTUNREG (s : Session φ) (message : ATMessage) : Answer × Session φ :=
  match message.type, message.param with
  | .CMD, [] =>
    if s.user = [] then (lit "AT+ERR", s)
    else
      let (removed, files) := ops.removeAll s.files (userDir s.user)
      if !removed then (none, { s with files }) else (lit "AT+OK", { s with user := [], files })
  | _, _ => (lit "AT+ENVAL", s)

def RTBUSY (s : Session φ) (message : ATMessage) : Str :=
  match message.type, message.param with
  | .TEST, [] => if s.task.taskid = 0 then lit "AT+IDLE" else lit "AT+BUSY"
  | _, _ => lit "AT+ENVAL"

def CPRDY (s : Session φ) (message : ATMessage) : Str :=
  match message.type, message.param with
  | .TEST, [] => if s.task.taskid = 0 then lit "AT+READY" else lit "AT+BUSY"
  | _, _ => lit "AT+ENVAL"

/-- `MDDECL`; only a new private model has a file. -/
def MDDECL (s : Session φ) (draws : List Drawn) (message : ATMessage) : Answer × Session φ :=
  match message.type, message.param with
  | .LONG, [name] =>
    match s.enginePrivate.find? fun engine => engine.1 = name,
      s.engineCloud.find? fun engine => engine.1 = name with
    | some engine, _ => (existed engine "private", s)
    | none, some engine => (existed engine "remote", s)
    | none, none =>
      match createId s.registry draws with
      | none => (none, s)
      | some draw =>
        let (opened, files) := ops.writeFile s.files (modelFile s.user draw.id) message.data
        let s := { s with files }
        if !opened then
          (lit "AT+MDINFO=-3," ++ name ++ lit "," ++ draw.id ++ lit ",unable ot open file", s)
        else
          (modelInfo (name, draw.id),
            { s with enginePrivate := s.enginePrivate ++ [(name, draw.id)] })
  | _, _ =>
    let (answer, r) := Router.MDDECL s.registry [] false message
    (answer, s.withModels r)

/-- The file of a removed model goes; `remove` fails only with an exception. -/
def removeFile (s : Session φ) (id : Str) : Answer × Session φ :=
  let (removed, files) := ops.remove s.files (modelFile s.user id)
  (if removed then some (lit "AT+MDMOD=0") else none, { s with files })

def MDRM (s : Session φ) (message : ATMessage) : Answer × Session φ :=
  let missing := lit "AT+MDMOD=-1,model is not existed"
  match message.type, message.param with
  | .CMD, [param] =>
    if s.user = [] then (lit "AT+MDMOD=-4,the service is not registered", s)
    else
      match splitJudge param with
      | none => (lit "AT+ENVAL", s)
      | some (judge, temp) =>
        let byId (engine : Str × Str) : Bool := temp = engine.2
        let byName (engine : Str × Str) : Bool := temp = engine.1
        if judge = lit "mid" then
          if s.engineCloud.any byId then
            (lit "AT+MDMOD=0", { s with engineCloud := s.engineCloud.eraseP byId })
          else (missing, s)
        else if judge = lit "id" then
          match s.enginePrivate.find? byId with
          | none => (missing, s)
          | some engine =>
            let s := { s with enginePrivate := s.enginePrivate.eraseP byId }
            if engine.2 = [] then (missing, s) else s.removeFile ops engine.2
        else if judge = lit "name" then
          let s' := { s with enginePrivate := s.enginePrivate.eraseP byName }
          match (s.enginePrivate.find? byName).filter fun engine => engine.1 ≠ [] with
          -- what is kept for the file is the name
          | some engine => s'.removeFile ops engine.1
          | none =>
            if s'.engineCloud.any byName then
              (lit "AT+MDMOD=0", { s' with engineCloud := s'.engineCloud.eraseP byName })
            else (missing, s')
        else (lit "AT+ENVAL", s)
  | _, _ => (lit "AT+ENVAL", s)

/-- The private model that `found` accepts is pushed; `pushed` tells whether it arrived. -/
def pushPrivate (s : Session φ) (pushed : Str → Str → Str → Bool) (temp : Str)
    (found : Str × Str → Bool) : Answer × Session φ :=
  let (name, mid) := (s.enginePrivate.find? found).getD ([], [])
  if name = [] ∨ mid = [] then
    (lit "AT+MDPUSH=-1," ++ temp ++ lit ",the model is not existed", s)
  else
    let (data, files) := ops.readFile s.files (modelFile s.user mid)
    let s := { s with files }
    match data with
    | none =>
      (lit "AT+MDPUSH=-1," ++ name ++ lit "," ++ mid ++ lit ",the model is not existed", s)
    | some data =>
      if !pushed name mid data then (lit "AT+MDPUSH=-5,unable to push model", s)
      else
        let (removed, files) := ops.remove s.files (modelFile s.user mid)
        (if removed then some (lit "AT+MDPUSH=0") else none,
          { s with
            files
            enginePrivate := s.enginePrivate.eraseP found
            engineCloud := s.engineCloud ++ [(name, mid)] })

/-- `MDPUSH`; `transfer` tells whether the storage took a request. -/
def MDPUSH (s : Session φ) (flag : Flag) (draws : List Drawn)
    (transfer : Datatransfer.Request → Bool) (message : ATMessage) : Answer × Session φ :=
  let pushed (name mid data : Str) : Bool :=
    transfer (Push.request ⟨name, mid, data, s.registry⟩ flag)
  match message.param with
  | [param] =>
    if s.user = [] then (lit "AT+MDPUSH=-4,the service is not registered", s)
    else if (0x3a : UInt8) ∉ flag.datatransferRouter then
      (lit "AT+MDPUSH=-5,the source url is incorrect", s)
    else if (0x3a : UInt8) ∉ flag.datatransferStorage then
      (lit "AT+MDPUSH=-5,the dest url is incorrect", s)
    else
      match message.type with
      | .CMD =>
        match splitJudge param with
        | none => (lit "AT+ENVAL", s)
        | some (judge, temp) =>
          if judge = lit "id" then s.pushPrivate ops pushed temp fun engine => temp = engine.2
          else if judge = lit "name" then
            s.pushPrivate ops pushed temp fun engine => temp = engine.1
          else (lit "AT+ENVAL", s)
      | .LONG =>
        match (s.engineCloud ++ s.enginePrivate).find? fun engine => engine.1 = param with
        | some engine => (lit "AT+MDPUSH=-2," ++ param ++ lit "," ++ engine.2 ++
            lit ",duplicate engine indexes", s)
        | none =>
          match createId s.registry draws with
          | none => (none, s)
          | some draw =>
            if !pushed param draw.id message.data then (lit "AT+MDPUSH=-5,unable to push model", s)
            else
              (lit "AT+MDPUSH=0,", { s with engineCloud := s.engineCloud ++ [(param, draw.id)] })
      | _ => (lit "AT+ENVAL", s)
  | _ => (lit "AT+ENVAL", s)

/-! ## Starting a task -/

/-- The engine of the private model that `found` accepts is its data. -/
def readEngine (s : Session φ) (found : Str × Str → Bool) : Option Taskdep.Engine × φ :=
  match s.enginePrivate.find? found with
  | none => (none, s.files)
  | some engine =>
    let (data, files) := ops.readFile s.files (modelFile s.user engine.2)
    (data.map fun data => { Taskdep.Engine.new with binary := data }, files)

def orMissing : Option Taskdep.Engine → Except Str Taskdep.Engine
  | none => .error (lit "AT+CPRES=-1,the model is not existed")
  | some engine => .ok engine

/-- The engine of a model, and the files after a private one is read. -/
def findEngine (s : Session φ) (judge temp : Str) : Except Str Taskdep.Engine × φ :=
  let cloud (found : Str × Str → Bool) : Option Taskdep.Engine :=
    (s.engineCloud.find? found).map fun engine =>
      { Taskdep.Engine.new with id := engine.2, name := engine.1 }
  if judge = lit "mid" then (orMissing (cloud fun engine => engine.2 = temp), s.files)
  else if judge = lit "id" then
    let (engine, files) := s.readEngine ops fun engine => engine.2 = temp
    (orMissing engine, files)
  else if judge = lit "name" then
    match cloud fun engine => engine.1 = temp with
    | some engine => (.ok engine, s.files)
    | none =>
      let (engine, files) := s.readEngine ops fun engine => engine.1 = temp
      (orMissing engine, files)
  else (.error (lit "AT+ENVAL"), s.files)

/-- `CPSTART` up to the negotiation. -/
def startEngine (s : Session φ) (message : ATMessage) : Except Str Taskdep.Engine × φ :=
  match message.param with
  | [] => (.error (lit "AT+ENVAL"), s.files)
  | front :: rest =>
    if rest = [] ∨ 2 < rest.length ∨ (message.type ≠ .CMD ∧ message.type ≠ .LONG) then
      (.error (lit "AT+ENVAL"), s.files)
    else if rest.length = 2 ∧ rest[1]? ≠ some (lit "nonblock") then
      (.error (lit "AT+ENVAL"), s.files)
    else if s.user = [] then (.error (lit "AT+CPRES=-4,the service is not registered"), s.files)
    else if s.task.taskid ≠ 0 then
      (.error (lit "AT+CPRES=-9," ++ decimal s.task.taskid.toNat ++ lit "the task is running"),
        s.files)
    else
      match splitJudge front with
      | none => (.error (lit "AT+ENVAL"), s.files)
      | some (judge, temp) => s.findEngine ops judge temp

end Session

/-- Where the data comes from, and where its result goes. -/
def datasource (message : ATMessage) : Taskdep.Datasource where
  src :=
    if message.type = .LONG then ⟨message.data, lit "data"⟩
    else ⟨message.param.getD 1 [], lit "endpoint"⟩
  dest := ⟨lit "http://localhost:2222", Taskdep.Directorypolicy.append.toUInt32,
    Taskdep.Emptypolicy.create.toUInt32⟩

def startAttr : Taskdep.Attr :=
  { Taskdep.Attr.new with trigger := Taskdep.Trigger.create.toUInt32, virtstorage := false }

/-- What the management node answers, and the results that come in between the sections of a start:
until the slot is taken, until the task is deployed, until the wait ends, before the status and
before the data is read, and until the slot is given back. -/
structure Remote where
  negotiate : Taskdep.Engine → UInt64
  deploy : UInt64 → Taskdep.Datasource → Taskdep.Attr → ℤ
  negotiating : List Arrival := []
  deploying : List Arrival := []
  waiting : List Arrival := []
  woken : List Arrival := []
  reading : List Arrival := []
  leaving : List Arrival := []

namespace Session

variable {φ : Type} (ops : FileOps φ)

def CPSTART (s : Session φ) (remote : Remote) (message : ATMessage) : Answer × Session φ :=
  let (engine, files) := s.startEngine ops message
  let s := { s with files }
  match engine with
  | .error answer => (answer, s)
  | .ok engine =>
    let taskid := remote.negotiate engine
    if taskid = 0 then (lit "AT+CPRES=-7,cannot get taskid", s)
    else
      let task := (remote.negotiating.foldl Slot.process s.task).set taskid
      let task := remote.deploying.foldl Slot.process task
      if remote.deploy taskid (datasource message) startAttr = -1 then
        (lit "AT+CPRES=-7,cannot deploy task", { s with task })
      else if message.param.length = 2 then
        match task.wait remote.waiting with
        | none => (none, { s with task := remote.waiting.foldl Slot.process task })
        | some task =>
          let task := remote.woken.foldl Slot.process task
          if task.status then
            let task := remote.reading.foldl Slot.process task
            (lit "AT+CPRES=0,data\r\n" ++ task.data ++ lit "<<<\r\n",
              { s with task := (remote.leaving.foldl Slot.process task).remove })
          else
            (lit "AT+CPRES=-8,unable to get result",
              { s with task := (remote.leaving.foldl Slot.process task).remove })
      else (lit "AT+CPRES=0," ++ decimal taskid.toNat, { s with task })

end Session

/-! ## Runs -/

/-- A command with what is outside. -/
inductive Command
  | REG (message : ATMessage)
  | RTUNREG (message : ATMessage)
  | MDDECL (draws : List Drawn) (message : ATMessage)
  | MDRM (message : ATMessage)
  | MDPUSH (flag : Flag) (draws : List Drawn) (transfer : Datatransfer.Request → Bool)
    (message : ATMessage)
  | CPSTART (remote : Remote) (message : ATMessage)

namespace Session

variable {φ : Type} (ops : FileOps φ)

def step (s : Session φ) : Command → Answer × Session φ
  | .REG message => s.REG ops message
  | .RTUNREG message => s.RTUNREG ops message
  | .MDDECL draws message => s.MDDECL ops draws message
  | .MDRM message => s.MDRM ops message
  | .MDPUSH flag draws transfer message => s.MDPUSH ops flag draws transfer message
  | .CPSTART remote message => s.CPSTART ops remote message

/-- The state after a command, also where it does not return. -/
def after (s : Session φ) (c : Command) : Session φ := (s.step ops c).2

end Session

end Jxtd.Router
