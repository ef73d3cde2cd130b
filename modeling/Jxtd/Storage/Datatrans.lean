import Jxtd.Proto.Datatransfer.Message
import Jxtd.Storage.Datamanagement

/-!
# The datatransfer server of the storage

The lock is taken for one source of a request at a time, so that `processOne` is one step of the
server and `process` a sequence of them.

* `enginePull`, …, `binaryPush`: the functions for the three kinds of sources.
* `processOne`, `process`: one source, and the loop over a request.
-/

namespace Jxtd.Storage.Datatrans

open Lib Datatransfer

/-- The kinds of sources. -/
inductive Datatype
  | engine
  | endpoint
  | binary
  deriving DecidableEq

def Datatype.toUInt32 : Datatype → UInt32
  | .engine => 0x0
  | .endpoint => 0x1
  | .binary => 0x2

variable {σ : Type} (ops : Operations σ)

/-- The dependencies of a task's engine, all under the same relative path. -/
def pullDeps (adm : Datamanager) (relative : Str) :
    σ → List Taskdep.Engine → Except Fault (List (Adtsrc × Str) × σ)
  | s, [] => .ok ([], s)
  | s, eng :: engs => do
    let (binary, s) ← adm.enginePull ops s eng.id eng.name
    let tem : Adtsrc := { Adtsrc.new with
      type := Datatype.engine.toUInt32, engineattr := (eng.id, eng.name), binary := binary }
    let (deps, s) ← pullDeps adm relative s engs
    .ok ((tem, relative) :: deps, s)

/-- `EnginePull`: by task id, or by name when the id is `0`. -/
def enginePull (adm : Datamanager) (s : σ) (master : Adtsrc) : Except Fault (Dtsrc × σ) := do
  let answer (engineattr : Str × Str) (binary : Str) (deps : List (Adtsrc × Str)) : Dtsrc :=
    ⟨{ Adtsrc.new with
      taskid := master.taskid, type := Datatype.engine.toUInt32, engineattr := engineattr,
      binary := binary }, deps⟩
  if master.taskid = 0 then
    let (mid, name) := master.engineattr
    let (binary, s) ← adm.enginePull ops s mid name
    .ok (answer (mid, name) binary [], s)
  else
    match adm.getTaskEngine master.taskid.toUInt64 with
    | none => .ok (answer ([], []) [] [], s)
    | some ((mid, name), engine) =>
      let (binary, s) ← adm.enginePull ops s mid name
      let (deps, s) ← pullDeps ops adm (lit "./" ++ Datamanager.engineFile mid name) s engine
      .ok (answer (mid, name) binary deps, s)

def enginePush (adm : Datamanager) (s : σ) (master : Adtsrc) : σ :=
  (adm.enginePush ops s master.engineattr.1 master.engineattr.2 master.binary).2

def runtimePull (adm : Datamanager) (s : σ) (master : Adtsrc) : Except Fault (Dtsrc × σ) := do
  let (binary, s) ← adm.runtimePull ops s master.taskid.toUInt64
  .ok (⟨{ Adtsrc.new with
    taskid := master.taskid, type := Datatype.endpoint.toUInt32,
    endpointattr := master.endpointattr, binary := binary }, []⟩, s)

def runtimePush (adm : Datamanager) (s : σ) (master : Adtsrc) : σ :=
  (adm.runtimePush ops s master.taskid.toUInt64 master.binary).2

/-- `BinaryPull`: the path is that of the root. -/
def binaryPull (adm : Datamanager) (s : σ) (master : Adtsrc) : Except Fault (Dtsrc × σ) := do
  let (binary, s) ← adm.binaryPull ops s adm.rootPath
  .ok (⟨{ Adtsrc.new with
    taskid := master.taskid, type := Datatype.binary.toUInt32, binary := binary }, []⟩, s)

/-- `BinaryPush`: the path is that of the root. -/
def binaryPush (adm : Datamanager) (s : σ) (master : Adtsrc) : σ :=
  (adm.binaryPush ops s adm.rootPath master.binary).2

/-- One source of a request, under the lock. -/
def processOne (adm : Datamanager) (direction : UInt32) (s : σ) (master : Adtsrc) :
    Except Fault (Option Dtsrc × σ) :=
  let pull (answer : Except Fault (Dtsrc × σ)) : Except Fault (Option Dtsrc × σ) := do
    let (dtsrc, s) ← answer
    .ok (some dtsrc, s)
  if master.type = Datatype.engine.toUInt32 then
    if direction = 0 then pull (enginePull ops adm s master)
    else .ok (none, enginePush ops adm s master)
  else if master.type = Datatype.endpoint.toUInt32 then
    if direction = 0 then pull (runtimePull ops adm s master)
    else .ok (none, runtimePush ops adm s master)
  else if master.type = Datatype.binary.toUInt32 then
    if direction = 0 then pull (binaryPull ops adm s master)
    else .ok (none, binaryPush ops adm s master)
  else .ok (none, s)

/-- The loop over the sources of a request. -/
def processAll (adm : Datamanager) (direction : UInt32) :
    σ → Response → List Adtsrc → Except Fault (Response × σ)
  | s, resp, [] => .ok (resp, s)
  | s, resp, master :: masters => do
    let (answer, s) ← processOne ops adm direction s master
    processAll adm direction s (answer.elim resp resp.addDtsrc) masters

def process (adm : Datamanager) (s : σ) (req : Request) : Except Fault (Response × σ) :=
  let resp := ((Response.new.setSrc req.dest).setDest req.src).setToken []
  processAll ops adm req.direction s resp req.adtsrcs

end Jxtd.Storage.Datatrans
