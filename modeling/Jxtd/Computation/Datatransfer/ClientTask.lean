import Jxtd.Lib.Filesystem
import Jxtd.Proto.Datatransfer.Message

/-!
# The datatransfer client of a computation node

What the callback of a pull does with the response: an engine goes into the directory of its task,
each dependency to its relative path below this directory. An exception that is not caught is
`none`.

* `depsDispose`, `respDispose`, `callBack`: `deps_dispose`, `resp_dispose` and `call_back_t`.
-/

namespace Jxtd.Computation

open Lib Posix Datatransfer

/-- The dependencies; one that cannot be opened is left out. -/
def depsDispose (filepath : Str) : Fs → List (Adtsrc × Str) → Option Fs
  | fs, [] => some fs
  | fs, (depMaster, relative) :: deps =>
    let path :=
      match findLastSlash relative with
      | some pos => relative.take pos
      | none => relative
    match fs.mkdirAll (filepath ++ path) with
    | none => none
    | some fs =>
      depsDispose filepath ((fs.writeFile (filepath ++ relative) depMaster.binary).getD fs) deps

/-- The directory of a task. -/
def taskPath (taskid : ℕ) : Str := lit "../Task_" ++ decimal taskid ++ lit "/"

/-- An engine with its dependencies. -/
def respDispose (masterMidName : List (Str × Str)) (fs : Fs) (dtsrc : Dtsrc) :
    Option (List (Str × Str) × Fs) :=
  let master := dtsrc.master
  if master.engineattr.1 = [] ∨ master.engineattr.2 = [] ∨ master.binary = [] then
    some (masterMidName, fs)
  else
    let masterMidName := masterMidName ++ [master.engineattr]
    let filepath := taskPath master.taskid.toNat
    let file := lit "JXTDENGINE_" ++ master.engineattr.1 ++ lit "_" ++ master.engineattr.2 ++
      lit ".so"
    match fs.mkdirAll filepath with
    | none => none
    | some fs =>
      match fs.writeFile (filepath ++ file) master.binary with
      | none => some (masterMidName, fs)
      | some fs =>
        match depsDispose filepath fs dtsrc.deps with
        | none => none
        | some fs => some (masterMidName, fs)

/-- What the client of a pull fills in. -/
structure DataState where
  input : List Str
  masterMidName : List (Str × Str)
  fs : Fs

/-- The loop over the response of a task that has succeeded. -/
def callBack : DataState → List Dtsrc → Option DataState
  | st, [] => some st
  | st, dtsrc :: dtsrcs =>
    if dtsrc.master.type = 0x0 then
      match respDispose st.masterMidName st.fs dtsrc with
      | none => none
      | some (masterMidName, fs) =>
        callBack { st with masterMidName := masterMidName, fs := fs } dtsrcs
    else if dtsrc.master.type = 0x2 then
      callBack { st with input := st.input ++ [dtsrc.master.binary] } dtsrcs
    else callBack st dtsrcs

end Jxtd.Computation
