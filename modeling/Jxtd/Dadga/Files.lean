import Jxtd.Dadga.Adapter

/-!
# The files of the adapter

The functions of `dadga/src/adapter.rs` on single files: read, write in three ways, remove and copy,
each for the root, for the persistent files and for those of a task.

* `FsAdapter.readFile`, …, `FsAdapter.runtimeToPersistent`: the functions.
* `Name`: a single component of a path; `Area`: where a file is.
* `Op`, `Reply`, `Op.apply`: the calls and what they return.
* `areaDir`, `resolve_join`: where the path of a file leads; `createDirAll_join`: a new directory.
-/

namespace Jxtd.Dadga

open Lib Lib.Posix

namespace FsAdapter

variable (tokio : TokioFs) (a : FsAdapter) (fs : Fs)

/-- `read_file` -/
def readFile (path : Str) : Option String :=
  tokio.readToString fs (join a.root path)

/-- `read_persistent` -/
def readPersistent (path : Str) : Option String :=
  tokio.readToString fs (join a.persistent path)

/-- `read_task_file` -/
def readTaskFile (taskid path : Str) : Option String :=
  match a.tasks.lookup taskid with
  | none => none
  | some taskRootPath => tokio.readToString fs (join taskRootPath path)

/-- `write_file_exclusive` -/
def writeFileExclusive (path content : Str) : Bool × Fs :=
  tokio.openWrite fs .createNew (join a.root path) content

/-- `write_file_append` -/
def writeFileAppend (path content : Str) : Bool × Fs :=
  tokio.openWrite fs .append (join a.root path) content

/-- `write_persistent_exclusive` -/
def writePersistentExclusive (path content : Str) : Bool × Fs :=
  tokio.openWrite fs .createNew (join a.persistent path) content

/-- `write_persistent_append` -/
def writePersistentAppend (path content : Str) : Bool × Fs :=
  tokio.openWrite fs .append (join a.persistent path) content

/-- `write_task_file_exclusive` -/
def writeTaskFileExclusive (taskid path content : Str) : Bool × Fs :=
  match a.tasks.lookup taskid with
  | none => (false, fs)
  | some taskRootPath => tokio.openWrite fs .createNew (join taskRootPath path) content

/-- `write_task_file_append` -/
def writeTaskFileAppend (taskid path content : Str) : Bool × Fs :=
  match a.tasks.lookup taskid with
  | none => (false, fs)
  | some taskRootPath => tokio.openWrite fs .append (join taskRootPath path) content

/-- A path that leads nowhere is removed silently. -/
def removeIfThere (filePath : Str) : Bool × Fs :=
  if tokio.metadata fs filePath then tokio.removeFile fs filePath else (true, fs)

/-- `remove_file` -/
def removeFile (path : Str) : Bool × Fs := removeIfThere tokio fs (join a.root path)

/-- `remove_persistent` -/
def removePersistent (path : Str) : Bool × Fs :=
  removeIfThere tokio fs (join a.persistent path)

/-- `remove_task_file` -/
def removeTaskFile (taskid path : Str) : Bool × Fs :=
  match a.tasks.lookup taskid with
  | none => (false, fs)
  | some taskRootPath => removeIfThere tokio fs (join taskRootPath path)

/-- `persistent_to_runtime` -/
def persistentToRuntime (persistent taskid taskPath : Str) : Option ℕ × Fs :=
  match a.tasks.lookup taskid with
  | none => (none, fs)
  | some taskRootPath => tokio.copy fs (join a.persistent persistent) (join taskRootPath taskPath)

/-- `runtime_to_persistent` -/
def runtimeToPersistent (persistent taskid taskPath : Str) : Option ℕ × Fs :=
  match a.tasks.lookup taskid with
  | none => (none, fs)
  | some taskRootPath => tokio.copy fs (join taskRootPath taskPath) (join a.persistent persistent)

end FsAdapter

/-! ## Calls -/

/-- The name of a file or of a task, a single component of a path. -/
abbrev Name : Type := {name : Str // Component name}

/-- Where a file is. -/
inductive Area
  | root
  | persistent
  | task (taskid : Name)
deriving DecidableEq

/-- A call. -/
inductive Op
  | createTask (taskid : Name)
  | taskDone (taskid : Name)
  | read (area : Area) (name : Name)
  | write (area : Area) (mode : WriteMode) (name : Name) (content : Str)
  | remove (area : Area) (name : Name)
  | persistentToRuntime (persistent taskid taskPath : Name)
  | runtimeToPersistent (persistent taskid taskPath : Name)

/-- What a call returns: `Ok` or `Err`, the text that was read, the number of bytes copied. -/
inductive Reply
  | done (ok : Bool)
  | text (content : Option String)
  | copied (bytes : Option ℕ)
deriving DecidableEq

/-- The function that reads from an area. -/
def readOf (tokio : TokioFs) (a : FsAdapter) (fs : Fs) : Area → Str → Option String
  | .root, path => a.readFile tokio fs path
  | .persistent, path => a.readPersistent tokio fs path
  | .task taskid, path => a.readTaskFile tokio fs taskid path

/-- The function that writes to an area. -/
def writeOf (tokio : TokioFs) (a : FsAdapter) (fs : Fs) : Area → WriteMode → Str → Str → Bool × Fs
  | .root, .truncate, path, content => a.writeFile tokio fs path content
  | .root, .createNew, path, content => a.writeFileExclusive tokio fs path content
  | .root, .append, path, content => a.writeFileAppend tokio fs path content
  | .persistent, .truncate, path, content => a.writePersistent tokio fs path content
  | .persistent, .createNew, path, content => a.writePersistentExclusive tokio fs path content
  | .persistent, .append, path, content => a.writePersistentAppend tokio fs path content
  | .task taskid, .truncate, path, content => a.writeTaskFile tokio fs taskid path content
  | .task taskid, .createNew, path, content => a.writeTaskFileExclusive tokio fs taskid path content
  | .task taskid, .append, path, content => a.writeTaskFileAppend tokio fs taskid path content

/-- The files of a task are written in three ways to the path in the table. -/
theorem writeOf_task (tokio : TokioFs) (a : FsAdapter) (fs : Fs) (taskid : Name) (mode : WriteMode)
    (path content : Str) : writeOf tokio a fs (.task taskid) mode path content =
      match a.tasks.lookup taskid.1 with
      | none => (false, fs)
      | some taskRootPath => tokio.openWrite fs mode (join taskRootPath path) content := by
  cases mode <;> rfl

/-- The function that removes from an area. -/
def removeOf (tokio : TokioFs) (a : FsAdapter) (fs : Fs) : Area → Str → Bool × Fs
  | .root, path => a.removeFile tokio fs path
  | .persistent, path => a.removePersistent tokio fs path
  | .task taskid, path => a.removeTaskFile tokio fs taskid path

/-- A call on an adapter. -/
def Op.apply (tokio : TokioFs) (s : State) : Op → Reply × State
  | .createTask taskid =>
    let (ok, a, fs) := s.adapter.createTask s.fs taskid
    (.done ok, ⟨a, fs⟩)
  | .taskDone taskid =>
    let (ok, a, fs) := s.adapter.taskDone s.fs taskid
    (.done ok, ⟨a, fs⟩)
  | .read area name => (.text (readOf tokio s.adapter s.fs area name), s)
  | .write area mode name content =>
    let (ok, fs) := writeOf tokio s.adapter s.fs area mode name content
    (.done ok, ⟨s.adapter, fs⟩)
  | .remove area name =>
    let (ok, fs) := removeOf tokio s.adapter s.fs area name
    (.done ok, ⟨s.adapter, fs⟩)
  | .persistentToRuntime persistent taskid taskPath =>
    let (bytes, fs) := s.adapter.persistentToRuntime tokio s.fs persistent taskid taskPath
    (.copied bytes, ⟨s.adapter, fs⟩)
  | .runtimeToPersistent persistent taskid taskPath =>
    let (bytes, fs) := s.adapter.runtimeToPersistent tokio s.fs persistent taskid taskPath
    (.copied bytes, ⟨s.adapter, fs⟩)

/-! ## Where a path leads -/

theorem component_persistent : Component (lit "persistent") := by decide

theorem component_runtime : Component (lit "runtime") := by decide

/-- The directory of an area; a server has one directory for everything. -/
def areaDir (client : Bool) (root : Str) : Area → Str
  | .root => root
  | .persistent => if client then join root (lit "persistent") else root
  | .task taskid => join (if client then join root (lit "runtime") else root) taskid

/-- The names below the root that lead to it. -/
def Area.names (client : Bool) : Area → Path
  | .root => []
  | .persistent => if client then [lit "persistent"] else []
  | .task taskid => if client then [lit "runtime", taskid] else [taskid]

section Places

variable {cwd : Path} {r root : Str} {fs : Fs}

theorem base_join {c : Str} (hc : Component c) : base cwd (join r c) = base cwd r ++ [c] := by
  rw [base, components_join hc, lexical_concat _ _ hc, base]
  have hhead : (join (join r c) []).head? = (join r []).head? := by
    rw [show join (join r c) [] = join r (c ++ slash :: []) by simp [join], head_join]
  rw [hhead]

theorem base_areaDir (client : Bool) (area : Area) :
    base cwd (areaDir client root area) = base cwd root ++ area.names client := by
  cases area with
  | root => rw [areaDir, Area.names, List.append_nil]
  | persistent =>
    cases client with
    | false => exact (List.append_nil _).symm
    | true => exact base_join component_persistent
  | task taskid =>
    cases client with
    | false => exact base_join taskid.2
    | true =>
      rw [areaDir, base_join taskid.2, if_pos rfl, base_join component_runtime, List.append_assoc]
      rfl

theorem notMem_areaDir (h : 0 ∉ root) (client : Bool) (area : Area) :
    0 ∉ areaDir client root area := by
  cases area with
  | root => exact h
  | persistent =>
    cases client with
    | false => exact h
    | true => exact notMem_join h component_persistent
  | task taskid =>
    cases client with
    | false => exact notMem_join h taskid.2
    | true => exact notMem_join (notMem_join h component_runtime) taskid.2

theorem up_join {c : Str} (h : lit ".." ∉ components r) (hc : Component c) :
    lit ".." ∉ components (join r c) := by
  rw [components_join hc, List.mem_append, List.mem_singleton]
  rintro (hmem | heq)
  · exact h hmem
  · exact hc.2.2.2 heq.symm

theorem up_areaDir (h : lit ".." ∉ components root) (client : Bool) (area : Area) :
    lit ".." ∉ components (areaDir client root area) := by
  cases area with
  | root => exact h
  | persistent =>
    cases client with
    | false => exact h
    | true => exact up_join h component_persistent
  | task taskid =>
    cases client with
    | false => exact up_join h taskid.2
    | true => exact up_join (up_join h component_runtime) taskid.2

/-- **A name below a directory** leads there. -/
theorem resolve_join (hwf : fs.WellFormed) (h₀ : 0 ∉ r) (hup : lit ".." ∉ components r)
    (hd : fs.IsDir (base fs.cwd r)) (name : Name) :
    0 ∉ join r name ∧ fs.resolve (join r name) = some (base fs.cwd r ++ [name.1]) := by
  have hname := notMem_join h₀ name.2
  refine ⟨hname, ?_⟩
  rw [base, Fs.lexical_eq_append hup] at hd ⊢
  rw [Fs.resolve, cstr_of_notMem hname, if_neg (by simp [join]), components_join name.2,
    Fs.walk_append, start_join, Fs.walk_names hwf hup hd, Option.bind_some, Fs.walk_plain name.2.2 hd,
    Fs.walk]

/-- **A name below a directory** is the only one that is made. -/
theorem createDirAll_join (hwf : fs.WellFormed) (h₀ : 0 ∉ r) (hup : lit ".." ∉ components r)
    (hd : fs.IsDir (base fs.cwd r)) {c : Str} (hc : Component c) :
    fs.createDirAll (join r c) = fs.createDirs (base fs.cwd r) [c] := by
  have hstart := @start_join fs r c
  rw [base, Fs.lexical_eq_append hup, ← hstart] at hd ⊢
  have hgood : ¬ (0 ∈ join r c ∨ ¬ fs.IsDir (fs.start (join r c))) :=
    not_or.mpr ⟨notMem_join h₀ hc, not_not.mpr (hwf.isDir_of_append hd)⟩
  rw [Fs.createDirAll, if_neg (by simp [join]), if_neg hgood, components_join hc,
    Fs.createDirs_of_isDir hwf hup hd]

end Places

end Jxtd.Dadga
