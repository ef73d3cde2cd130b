import Jxtd.Lib.Run
import Jxtd.Proto.Taskdep.Message
import Mathlib.Data.List.AList

/-!
# The computation node's task manager

`Taskmanager` keeps the deployed tasks and the matrix `edges` of their dependencies: a task's row
and column are numbered by the `depPos` that it was given when it was deployed.

* `deployTask`, `addDeps`, `submit`, `removeTask`: the four operations on the matrix.
* `Fault`: an `at()` that throws, or an `erase` on an iterator that is not in range.
* `Op`, `step`: one call of an operation that changes the matrix, for whole runs.
-/

namespace Jxtd.Infer

open Lib Taskdep

/-- What an operation does instead of returning. -/
inductive Fault
  /-- `std::vector::at` throws. -/
  | outOfRange
  /-- `std::vector::erase` is given an iterator that cannot be dereferenced. -/
  | undefinedBehaviour
  deriving DecidableEq

structure Taskinfo where
  depPos : ℕ
  inputPath : Str
  inputData : Str
  outputPath : Str
  directoryPolicy : UInt32
  emptyPolicy : UInt32
  period : UInt32
  backupid : List UInt32
  resultPolicy : UInt32
  triggerPolicy : UInt32
  deriving DecidableEq

structure ClusterClient where
  endpoint : Endpoint
  ssl : Bool
  token : Str
  deriving DecidableEq

structure Taskmanager where
  edges : List (List Bool)
  tasks : AList fun _ : UInt64 => Taskinfo
  client : Option ClusterClient
  server : Option Endpoint
  deriving DecidableEq

def Taskmanager.new : Taskmanager := ⟨[], ∅, none, none⟩

/-- The number of deployed tasks, `tasks.size()`. -/
def Taskmanager.size (tm : Taskmanager) : ℕ := tm.tasks.entries.length

/-- `Taskmanager::deploy_task`. The new task takes the next position, and the matrix gets one more
column and one more row of `false`. -/
def Taskmanager.deployTask (tm : Taskmanager) (taskid : UInt64)
    (inputPath inputData outputPath : Str)
    (directorypolicy emptypolicy period resultpolicy triggerpolicy : UInt32)
    (backupid : List UInt32) : ℤ × Taskmanager :=
  if taskid ∈ tm.tasks then (-1, tm)
  else
    let taskinfo : Taskinfo :=
      { depPos := tm.size, inputPath, inputData, outputPath
        directoryPolicy := directorypolicy, emptyPolicy := emptypolicy, period, backupid
        resultPolicy := resultpolicy, triggerPolicy := triggerpolicy }
    let tasks := tm.tasks.insert taskid taskinfo
    let edges := tm.edges.map fun single_edge => single_edge ++ [false]
    (0, { tm with
      tasks := tasks
      edges := edges ++ [List.replicate tasks.entries.length false] })

/-- `edges.at(i).at(j) = true`. -/
def setEdge (edges : List (List Bool)) (i j : ℕ) : Except Fault (List (List Bool)) :=
  match edges[i]? with
  | none => .error .outOfRange
  | some row => if j < row.length then .ok (edges.set i (row.set j true)) else .error .outOfRange

/-- The loop of `add_deps`: it stops at the first unknown task and keeps what it has set. -/
def Taskmanager.addDepsLoop (tm : Taskmanager) (pos : ℕ) :
    List UInt64 → Except Fault (ℤ × Taskmanager)
  | [] => .ok (0, tm)
  | dep :: deps =>
    match tm.tasks.lookup dep with
    | none => .ok (-1, tm)
    | some it =>
      match setEdge tm.edges pos it.depPos with
      | .error f => .error f
      | .ok edges => Taskmanager.addDepsLoop { tm with edges := edges } pos deps

def Taskmanager.addDeps (tm : Taskmanager) (taskid : UInt64) (deps : List UInt64) :
    Except Fault (ℤ × Taskmanager) :=
  match tm.tasks.lookup taskid with
  | none => .ok (-1, tm)
  | some iter => tm.addDepsLoop iter.depPos deps

/-- The request that `submit` builds; its task id has 32 bits. -/
structure SubmitRequest where
  taskid : UInt32
  inputPath : Str
  inputData : Str
  outputPath : Str
  directoryPolicy : UInt32
  emptyPolicy : UInt32
  period : UInt32
  deriving DecidableEq

/-- How far `submit` gets: an unknown task, a row of `edges` with a `true` in it, or the call of
`DrccpServerManager::submit` with a request. -/
inductive Submission
  | unknown
  | stopped
  | submitted (req : SubmitRequest)
  deriving DecidableEq

/-- `Taskmanager::submit`, up to the call of `DrccpServerManager::submit`. -/
def Taskmanager.submit (tm : Taskmanager) (taskid : UInt64) : Except Fault Submission :=
  match tm.tasks.lookup taskid with
  | none => .ok .unknown
  | some taskinfo =>
    match tm.edges[taskinfo.depPos]? with
    | none => .error .outOfRange
    | some row =>
      if row.any id then .ok .stopped
      else .ok (.submitted
        { taskid := taskid.toUInt32
          inputPath := taskinfo.inputPath
          inputData := taskinfo.inputData
          outputPath := taskinfo.outputPath
          directoryPolicy := taskinfo.directoryPolicy
          emptyPolicy := taskinfo.emptyPolicy
          period := taskinfo.period })

/-- The part of `remove_task` under the lock: the task's row, its entry and its column go. -/
def Taskmanager.eraseTask (tm : Taskmanager) (taskid : UInt64) (iter : Taskinfo) :
    Except Fault Taskmanager :=
  if iter.depPos < tm.edges.length then
    let edges := tm.edges.eraseIdx iter.depPos
    let tasks := tm.tasks.erase taskid
    if edges.all fun single_edge => iter.depPos < single_edge.length then
      .ok { tm with
        tasks := tasks
        edges := edges.map fun single_edge => single_edge.eraseIdx iter.depPos }
    else .error .undefinedBehaviour
  else .error .undefinedBehaviour

/-- The `done` request that `remove_task` sends to the storage when both endpoints are set. -/
def Taskmanager.doneRequest (tm : Taskmanager) (taskid : UInt64) : Option Request :=
  match tm.client, tm.server with
  | some client, some server =>
    if client.endpoint.check && server.check then
      some (((((Request.new.setType .cluster .storage .done).setObjectCluster
        client.endpoint).setObjectStorage server).setToken client.token).setTaskid taskid)
    else none
  | _, _ => none

/-- `Taskmanager::remove_task`: the new state and the request it sends, if any. -/
def Taskmanager.removeTask (tm : Taskmanager) (taskid : UInt64) (send : Bool) :
    Except Fault (Taskmanager × Option Request) :=
  match tm.tasks.lookup taskid with
  | none => .ok (tm, none)
  | some iter =>
    match tm.eraseTask taskid iter with
    | .error f => .error f
    | .ok tm' => .ok (tm', if send then tm'.doneRequest taskid else none)

/-! ## Runs -/

/-- A call of an operation that changes the tasks or the matrix. -/
inductive Op
  | deployTask (taskid : UInt64) (inputPath inputData outputPath : Str)
      (directorypolicy emptypolicy period resultpolicy triggerpolicy : UInt32)
      (backupid : List UInt32)
  | addDeps (taskid : UInt64) (deps : List UInt64)
  | removeTask (taskid : UInt64) (send : Bool)
  deriving DecidableEq

/-- The state after one call. -/
def Taskmanager.step (tm : Taskmanager) : Op → Except Fault Taskmanager
  | .deployTask t ip d op dp ep p rp tp b => .ok (tm.deployTask t ip d op dp ep p rp tp b).2
  | .addDeps t deps => (tm.addDeps t deps).map Prod.snd
  | .removeTask t send => (tm.removeTask t send).map Prod.fst

/-- The state that a run from the empty manager reaches. -/
def reach (ops : List Op) : Except Fault Taskmanager := run Taskmanager.step .new ops

end Jxtd.Infer
