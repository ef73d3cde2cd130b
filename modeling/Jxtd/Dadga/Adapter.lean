import Jxtd.Lib.TokioFs

/-!
# The file adapter

`FsAdapter` of `dadga/src/adapter.rs`: files below a root, and a directory for every task. A client
keeps the directories in `runtime` below the root, a server in the root itself. Files are written
with `tokio::fs`, whose writes may be done late.

* `FsAdapter.new`, `createTask`, `taskDone`, `writeFile`, `writePersistent`, `writeTaskFile`: the
  functions, each with whether it returned `Ok`.
* `Call`, `run`: the calls on an adapter.
* `Inv`: the tasks of the table have their directories; **`inv_run`**: in every run.
* **`taskDone_isolated_iff`**: when a task that is done takes its directory with it and nothing else.
-/

namespace Jxtd.Dadga

open Lib Lib.Posix

/-- The adapter; the table has the path of every task. -/
structure FsAdapter where
  root : Str
  persistent : Str
  runtime : Str
  tasks : AList fun _ : Str => Str

/-- `format!("{}/{}", s, t)` -/
def join (s t : Str) : Str := s ++ slash :: t

/-- The next call, unless the one before failed. -/
def andThen (r : Bool × Fs) (f : Fs → Bool × Fs) : Bool × Fs := if r.1 then f r.2 else r

namespace FsAdapter

/-- `new`, which deletes a root that is there. -/
def new (fs : Fs) (root : Str) (client : Bool) : Option FsAdapter × Fs :=
  let persistent := if client then join root (lit "persistent") else root
  let runtime := if client then join root (lit "runtime") else root
  let r := if fs.pathExists root then fs.removeDirAll root else (true, fs)
  let r := andThen r fun fs => fs.createDirAll root
  let r := andThen r fun fs => fs.createDirAll persistent
  let r := andThen r fun fs => fs.createDirAll runtime
  (if r.1 then some ⟨root, persistent, runtime, ∅⟩ else none, r.2)

variable (tokio : TokioFs) (a : FsAdapter) (fs : Fs)

/-- `create_task` -/
def createTask (taskid : Str) : Bool × FsAdapter × Fs :=
  if taskid ∈ a.tasks then (true, a, fs)
  else
    let taskRootPath := join a.runtime taskid
    let (ok, fs) := fs.createDirAll taskRootPath
    if ok then (true, { a with tasks := a.tasks.insert taskid taskRootPath }, fs)
    else (false, a, fs)

/-- `task_done`, which does not look at the table. -/
def taskDone (taskid : Str) : Bool × FsAdapter × Fs :=
  let (ok, fs) := fs.removeDirAll (join a.runtime taskid)
  if ok then (true, { a with tasks := a.tasks.erase taskid }, fs) else (false, a, fs)

/-- `write_file` -/
def writeFile (path content : Str) : Bool × Fs :=
  tokio.openWrite fs .truncate (join a.root path) content

/-- `write_persistent` -/
def writePersistent (path content : Str) : Bool × Fs :=
  tokio.openWrite fs .truncate (join a.persistent path) content

/-- `write_task_file` -/
def writeTaskFile (taskid path content : Str) : Bool × Fs :=
  match a.tasks.lookup taskid with
  | none => (false, fs)
  | some taskRootPath => tokio.openWrite fs .truncate (join taskRootPath path) content

end FsAdapter

/-! ## Calls -/

/-- The adapter and the files. -/
structure State where
  adapter : FsAdapter
  fs : Fs

/-- The calls on an adapter. -/
inductive Call
  | createTask (taskid : Str)
  | taskDone (taskid : Str)
  | writeFile (path content : Str)
  | writePersistent (path content : Str)
  | writeTaskFile (taskid path content : Str)

/-- A single component of a path. -/
def Component (taskid : Str) : Prop := Clean taskid ∧ Fs.Plain taskid

instance (taskid : Str) : Decidable (Component taskid) := inferInstanceAs (Decidable (_ ∧ _))

/-- The task of a call is a component. -/
def Call.Proper : Call → Prop
  | createTask taskid => Component taskid
  | taskDone taskid => Component taskid
  | writeFile _ _ => True
  | writePersistent _ _ => True
  | writeTaskFile taskid _ _ => Component taskid

/-- A call, without its result. -/
def Call.apply (tokio : TokioFs) (s : State) : Call → State
  | createTask taskid =>
    let (_, a, fs) := s.adapter.createTask s.fs taskid
    ⟨a, fs⟩
  | taskDone taskid =>
    let (_, a, fs) := s.adapter.taskDone s.fs taskid
    ⟨a, fs⟩
  | writeFile path content => ⟨s.adapter, (s.adapter.writeFile tokio s.fs path content).2⟩
  | writePersistent path content =>
    ⟨s.adapter, (s.adapter.writePersistent tokio s.fs path content).2⟩
  | writeTaskFile taskid path content =>
    ⟨s.adapter, (s.adapter.writeTaskFile tokio s.fs taskid path content).2⟩

/-- A sequence of calls. -/
def run (tokio : TokioFs) (calls : List Call) (s : State) : State := calls.foldl (Call.apply tokio) s

/-! ## What is said of a task that is done -/

/-- The directory of a task. -/
def taskDir (s : State) (taskid : Str) : Path := Fs.place s.fs.cwd (join s.adapter.runtime taskid)

/-- `task_done` returns `Ok`; for a task of the table it deletes its directory with everything below
it and its entry, for another one it changes nothing. -/
structure Isolated (s : State) (taskid : Str) : Prop where
  ok : (s.adapter.taskDone s.fs taskid).1 = true
  known : taskid ∈ s.adapter.tasks →
    (s.adapter.taskDone s.fs taskid).2.1 =
        { s.adapter with tasks := s.adapter.tasks.erase taskid } ∧
      ∀ q, (s.adapter.taskDone s.fs taskid).2.2.node q =
        if taskDir s taskid <+: q then none else s.fs.node q
  unknown : taskid ∉ s.adapter.tasks →
    (s.adapter.taskDone s.fs taskid).2.1 = s.adapter ∧
      ∀ q, (s.adapter.taskDone s.fs taskid).2.2.node q = s.fs.node q

/-- The path of a task leads to its directory when nothing is left below it. -/
def Found (s : State) (taskid : Str) : Prop :=
  (s.fs.clear (taskDir s taskid)).resolve (join s.adapter.runtime taskid) ≠ none

/-! ## The directories of the tasks -/

/-- The place of the directory that has those of the tasks. -/
def base (cwd : Path) (runtime : Str) : Path :=
  Fs.lexical (if (join runtime []).head? = some slash then [] else cwd) (components runtime)

section Join

variable {fs : Fs} {cwd : Path} {r taskid : Str}

theorem notMem_join (hr : 0 ∉ r) (hid : Component taskid) : 0 ∉ join r taskid := by
  have hslash : (0 : UInt8) ≠ slash := by decide
  rw [join, List.mem_append, List.mem_cons]
  rintro (h | h | h)
  · exact hr h
  · exact hslash h
  · exact hid.1.1 h

theorem components_join (hid : Component taskid) :
    components (join r taskid) = components r ++ [taskid] := by
  rw [join, components_append, components_of_notMem hid.1.2]

theorem lastName_join (hid : Component taskid) : Fs.lastName (join r taskid) = taskid := by
  rw [Fs.lastName, components_join hid, List.filter_append,
    List.filter_cons_of_pos (by simpa using hid.2.1), List.filter_nil, List.getLastD_concat]

theorem head_join (t : Str) : (join r t).head? = (join r []).head? := by
  cases r <;> rfl

theorem lexical_concat (cur : Path) (cs : List Str) (hid : Component taskid) :
    Fs.lexical cur (cs ++ [taskid]) = Fs.lexical cur cs ++ [taskid] := by
  have hdot : ¬ (taskid = [] ∨ taskid = lit ".") := not_or.mpr ⟨hid.2.1, hid.2.2.1⟩
  rw [Fs.lexical_append, Fs.lexical, if_neg hdot, if_neg hid.2.2.2, Fs.lexical]

theorem place_join (hr : 0 ∉ r) (hid : Component taskid) :
    Fs.place cwd (join r taskid) = base cwd r ++ [taskid] := by
  rw [Fs.place, cstr_of_notMem (notMem_join hr hid), components_join hid, lexical_concat _ _ hid,
    head_join]
  rfl

theorem start_join (t : Str) :
    fs.start (join r t) = if (join r []).head? = some slash then [] else fs.cwd := by
  rw [Fs.start, head_join]

/-- A directory that is made for a task. -/
theorem isDir_createDirAll (hid : Component taskid)
    (h : (fs.createDirAll (join r taskid)).1 = true) :
    (fs.createDirAll (join r taskid)).2.IsDir (base fs.cwd r ++ [taskid]) := by
  unfold Fs.createDirAll at h ⊢
  split_ifs at h ⊢ with hnil
  · simp [join] at hnil
  · rw [components_join hid, start_join] at h ⊢
    exact Fs.isDir_createDirs hid.2 h

end Join

/-- The tasks of the table are components and have their directories. -/
structure Inv (s : State) : Prop where
  runtime : 0 ∉ s.adapter.runtime
  component : ∀ taskid ∈ s.adapter.tasks, Component taskid
  dir : ∀ taskid ∈ s.adapter.tasks, s.fs.IsDir (taskDir s taskid)

section Steps

variable {tokio : TokioFs} {taskid : Str} {s : State}

theorem Inv.taskDir_eq (h : Inv s) (hid : Component taskid) :
    taskDir s taskid = base s.fs.cwd s.adapter.runtime ++ [taskid] :=
  place_join h.runtime hid

/-- The directories of two tasks are apart. -/
theorem Inv.not_prefix {taskid' : Str} (h : Inv s) (hid : Component taskid)
    (hid' : Component taskid') (hne : taskid' ≠ taskid) :
    ¬ taskDir s taskid <+: taskDir s taskid' := by
  rw [h.taskDir_eq hid, h.taskDir_eq hid']
  intro hpre
  have heq := hpre.eq_of_length (by simp)
  simp only [List.append_cancel_left_eq, List.cons.injEq, and_true] at heq
  exact hne heq.symm

/-- A step that keeps the path of the tasks, and their directories. -/
theorem Inv.of_step {s' : State} (h : Inv s) (hcwd : s'.fs.cwd = s.fs.cwd)
    (hruntime : s'.adapter.runtime = s.adapter.runtime)
    (htasks : ∀ id ∈ s'.adapter.tasks, Component id ∧ s'.fs.IsDir (taskDir s id)) : Inv s' where
  runtime := hruntime ▸ h.runtime
  component id hid := (htasks id hid).1
  dir id hid := by
    have hdir := (htasks id hid).2
    rwa [taskDir, ← hcwd, ← hruntime] at hdir

/-- A call that keeps the directories. -/
theorem Inv.keepsDirs {fs' : Fs} (h : Inv s) (hfs : s.fs.KeepsDirs fs') : Inv ⟨s.adapter, fs'⟩ :=
  h.of_step hfs.cwd rfl fun id hid => ⟨h.component id hid, hfs.isDir _ (h.dir id hid)⟩

theorem inv_createTask (h : Inv s) (hid : Component taskid) :
    Inv (Call.apply tokio s (.createTask taskid)) := by
  simp only [Call.apply, FsAdapter.createTask]
  split_ifs with hknown hok
  · exact h
  · have hgrows := Fs.grows_createDirAll s.fs (join s.adapter.runtime taskid)
    refine h.of_step hgrows.cwd rfl fun id hmem => ?_
    rcases (AList.mem_insert _).mp hmem with rfl | hmem
    · rw [h.taskDir_eq hid]
      exact ⟨hid, isDir_createDirAll hid hok⟩
    · exact ⟨h.component id hmem, hgrows.node _ _ (h.dir id hmem)⟩
  · exact h.keepsDirs (Fs.grows_createDirAll s.fs _).keepsDirs

/-- What `task_done` can do: it fails without an effect because there is no directory, it empties
the directory and fails, or it removes the directory and the entry. -/
theorem taskDone_cases (h : Inv s) (hid : Component taskid) :
    (s.adapter.taskDone s.fs taskid = (false, s.adapter, s.fs) ∧
        ∀ p, s.fs.resolve (join s.adapter.runtime taskid) = some p → ¬ s.fs.IsDir p) ∨
      s.fs.IsDir (taskDir s taskid) ∧
        (¬ Found s taskid ∧ s.adapter.taskDone s.fs taskid =
            (false, s.adapter, s.fs.clear (taskDir s taskid)) ∨
          Found s taskid ∧ s.adapter.taskDone s.fs taskid =
            (true, { s.adapter with tasks := s.adapter.tasks.erase taskid },
              (s.fs.clear (taskDir s taskid)).del (taskDir s taskid))) := by
  have hlast : Fs.Plain (Fs.lastName (join s.adapter.runtime taskid)) := by
    rw [lastName_join hid]
    exact hid.2
  rcases Fs.removeDirAll_cases s.fs hlast with ⟨heq, hno⟩ | ⟨p, hres, hd, hcases⟩
  · left
    rw [FsAdapter.taskDone, heq]
    exact ⟨rfl, fun p hp => (hno p hp).resolve_left (notMem_join h.runtime hid)⟩
  · right
    obtain rfl : taskDir s taskid = p := Fs.resolve_eq_place hres
    refine ⟨hd, ?_⟩
    rw [FsAdapter.taskDone, Found]
    rcases hcases with ⟨hnone, heq⟩ | ⟨hsome, heq⟩
    · left
      rw [heq]
      exact ⟨not_not.mpr hnone, rfl⟩
    · right
      rw [heq, hsome]
      exact ⟨Option.some_ne_none _, rfl⟩

theorem taskDir_ne_nil (h : Inv s) (hid : Component taskid) : taskDir s taskid ≠ [] := by
  rw [h.taskDir_eq hid]
  exact List.concat_ne_nil _ _

theorem inv_taskDone (h : Inv s) (hid : Component taskid) :
    Inv (Call.apply tokio s (.taskDone taskid)) := by
  simp only [Call.apply]
  rcases taskDone_cases h hid with ⟨heq, -⟩ | ⟨hd, ⟨-, heq⟩ | ⟨-, heq⟩⟩
  · rw [heq]
    exact h
  · rw [heq]
    refine h.of_step (Fs.cwd_clear _ _) rfl fun id hmem => ⟨h.component id hmem, ?_⟩
    by_cases hne : id = taskid
    · rw [hne, Fs.IsDir, Fs.node_clear_self]
      exact hd
    · have hapart := h.not_prefix hid (h.component id hmem) hne
      rw [Fs.IsDir, Fs.node_clear, if_neg fun hbelow => hapart hbelow.1]
      exact h.dir id hmem
  · rw [heq]
    refine h.of_step (Fs.cwd_clear _ _) rfl fun id hmem => ?_
    obtain ⟨hne, hmem⟩ := AList.mem_erase.mp hmem
    refine ⟨h.component id hmem, ?_⟩
    rw [Fs.IsDir, Fs.node_clear_del _ (taskDir_ne_nil h hid),
      if_neg (h.not_prefix hid (h.component id hmem) hne)]
    exact h.dir id hmem

/-- **The invariant holds in every step.** -/
theorem inv_apply (h : Inv s) {call : Call} (hcall : call.Proper) : Inv (call.apply tokio s) := by
  cases call with
  | createTask taskid => exact inv_createTask h hcall
  | taskDone taskid => exact inv_taskDone h hcall
  | writeFile path content => exact h.keepsDirs (TokioFs.keepsDirs_openWrite _ _ _)
  | writePersistent path content => exact h.keepsDirs (TokioFs.keepsDirs_openWrite _ _ _)
  | writeTaskFile taskid path content =>
    refine h.keepsDirs ?_
    rw [FsAdapter.writeTaskFile]
    split
    · exact .refl _
    · exact TokioFs.keepsDirs_openWrite _ _ _

/-- **The invariant holds in every run.** -/
theorem inv_run (h : Inv s) {calls : List Call} (hcalls : ∀ call ∈ calls, call.Proper) :
    Inv (run tokio calls s) := by
  induction calls generalizing s with
  | nil => exact h
  | cons call calls ih =>
    exact ih (inv_apply h (hcalls call List.mem_cons_self))
      fun call' hmem => hcalls call' (List.mem_cons_of_mem _ hmem)

end Steps

/-! ## Tasks that are done -/

section Isolation

variable {tokio : TokioFs} {taskid : Str} {s : State}

/-- **A task that is done is isolated** when it is in the table and its path leads somewhere. -/
theorem isolated_iff (h : Inv s) (hid : Component taskid) :
    Isolated s taskid ↔ taskid ∈ s.adapter.tasks ∧ Found s taskid := by
  rcases taskDone_cases h hid with ⟨heq, hno⟩ | ⟨hd, ⟨hfound, heq⟩ | ⟨hfound, heq⟩⟩
  · refine iff_of_false (fun hiso => ?_) fun ⟨hmem, hfound⟩ => ?_
    · have hok := hiso.ok
      rw [heq] at hok
      cases hok
    · obtain ⟨p, hp⟩ := Option.ne_none_iff_exists'.mp hfound
      have hres := (Fs.keepsDirs_of_clear s.fs _).resolve hp
      obtain rfl : taskDir s taskid = p := Fs.resolve_eq_place hres
      exact hno _ hres (h.dir taskid hmem)
  · refine iff_of_false (fun hiso => ?_) fun hknown => hfound hknown.2
    have hok := hiso.ok
    rw [heq] at hok
    cases hok
  · have hnode := Fs.node_clear_del s.fs (taskDir_ne_nil h hid)
    constructor
    · intro hiso
      refine ⟨?_, hfound⟩
      by_contra hunknown
      -- the directory of a task that is not in the table is gone
      have hsame := (hiso.unknown hunknown).2 (taskDir s taskid)
      rw [heq, hnode, if_pos List.prefix_rfl, hd] at hsame
      cases hsame
    · rintro ⟨hmem, -⟩
      constructor
      · rw [heq]
      · intro _
        rw [heq]
        exact ⟨rfl, hnode⟩
      · intro hunknown
        exact absurd hmem hunknown

/-- The files are a tree, and the path of the tasks does not lead up. -/
structure Rooted (s : State) : Prop where
  wellFormed : s.fs.WellFormed
  up : lit ".." ∉ components s.adapter.runtime

theorem rooted_apply (h : Rooted s) (call : Call) : Rooted (call.apply tokio s) := by
  cases call with
  | createTask taskid =>
    have hwf := h.wellFormed.createDirAll (join s.adapter.runtime taskid)
    simp only [Call.apply, FsAdapter.createTask]
    split_ifs
    · exact h
    · exact ⟨hwf, h.up⟩
    · exact ⟨hwf, h.up⟩
  | taskDone taskid =>
    have hwf := h.wellFormed.removeDirAll (join s.adapter.runtime taskid)
    simp only [Call.apply, FsAdapter.taskDone]
    split_ifs
    · exact ⟨hwf, h.up⟩
    · exact ⟨hwf, h.up⟩
  | writeFile path content => exact ⟨TokioFs.wellFormed_openWrite h.wellFormed _ _ _, h.up⟩
  | writePersistent path content => exact ⟨TokioFs.wellFormed_openWrite h.wellFormed _ _ _, h.up⟩
  | writeTaskFile taskid path content =>
    refine ⟨?_, h.up⟩
    simp only [Call.apply, FsAdapter.writeTaskFile]
    split
    · exact h.wellFormed
    · exact TokioFs.wellFormed_openWrite h.wellFormed _ _ _

theorem rooted_run (h : Rooted s) (calls : List Call) : Rooted (run tokio calls s) := by
  induction calls generalizing s with
  | nil => exact h
  | cons call calls ih => exact ih (rooted_apply h call)

/-- A directory whose path does not lead up is found. -/
theorem found_of_rooted (h : Inv s) (hrooted : Rooted s) (hid : Component taskid)
    (hmem : taskid ∈ s.adapter.tasks) : Found s taskid := by
  have hd : (s.fs.clear (taskDir s taskid)).IsDir (taskDir s taskid) := by
    rw [Fs.IsDir, Fs.node_clear_self]
    exact h.dir taskid hmem
  have hwf := hrooted.wellFormed.clear (taskDir s taskid)
  have hup : lit ".." ∉ components (join s.adapter.runtime taskid) := by
    rw [components_join hid, List.mem_append, List.mem_singleton]
    rintro (h' | h')
    · exact hrooted.up h'
    · exact hid.2.2.2 h'.symm
  have h₀ := notMem_join h.runtime hid
  have hplace : taskDir s taskid = s.fs.start (join s.adapter.runtime taskid) ++
      Fs.names (components (join s.adapter.runtime taskid)) := by
    rw [← Fs.lexical_eq_append hup, taskDir, Fs.place, cstr_of_notMem h₀, Fs.start]
  rw [hplace] at hd hwf
  have hwalk := Fs.walk_names hwf hup hd
  have hstart (p : Path) : (s.fs.clear p).start (join s.adapter.runtime taskid) =
      s.fs.start (join s.adapter.runtime taskid) := by
    rw [Fs.start, Fs.start, Fs.cwd_clear]
  rw [Found, Fs.resolve, cstr_of_notMem h₀, if_neg (by simp [join]), hstart, hplace, hwalk]
  exact Option.some_ne_none _

/-! ## New adapters -/

theorem of_andThen {r : Bool × Fs} {f : Fs → Bool × Fs} (h : (andThen r f).1 = true) :
    (f r.2).1 = true := by
  unfold andThen at h
  split_ifs at h with hr
  · exact h
  · exact absurd h hr

theorem wellFormed_andThen {r : Bool × Fs} {f : Fs → Bool × Fs} (hr : r.2.WellFormed)
    (hf : ∀ fs : Fs, fs.WellFormed → (f fs).2.WellFormed) : (andThen r f).2.WellFormed := by
  unfold andThen
  split_ifs
  · exact hf _ hr
  · exact hr

theorem notMem_of_createDirAll {fs : Fs} {t : Str} (h : (fs.createDirAll t).1 = true) : 0 ∉ t := by
  unfold Fs.createDirAll at h
  split_ifs at h with hnil hbad
  · rw [hnil]
    exact List.not_mem_nil
  · exact (not_or.mp hbad).1

variable {fs fs' : Fs} {root : Str} {client : Bool} {a : FsAdapter}

/-- The fields of a new adapter. -/
theorem of_new (hnew : FsAdapter.new fs root client = (some a, fs')) :
    (∃ fs₁ : Fs, (fs₁.createDirAll a.runtime).1 = true) ∧ a.tasks = ∅ ∧
      a.runtime = if client then join root (lit "runtime") else root := by
  rw [FsAdapter.new, Prod.mk.injEq] at hnew
  obtain ⟨hok, ha⟩ := Option.ite_none_right_eq_some.mp hnew.1
  obtain rfl := Option.some.inj ha
  exact ⟨⟨_, of_andThen hok⟩, rfl, rfl⟩

/-- A new adapter has no tasks. -/
theorem inv_new (hnew : FsAdapter.new fs root client = (some a, fs')) : Inv ⟨a, fs'⟩ := by
  obtain ⟨⟨fs₁, hok⟩, htasks, -⟩ := of_new hnew
  have hempty (id : Str) : id ∉ a.tasks := by
    rw [htasks]
    exact AList.notMem_empty id
  exact ⟨notMem_of_createDirAll hok, fun id h => absurd h (hempty id),
    fun id h => absurd h (hempty id)⟩

theorem rooted_new (hnew : FsAdapter.new fs root client = (some a, fs')) (hwf : fs.WellFormed)
    (hup : lit ".." ∉ components root) : Rooted ⟨a, fs'⟩ := by
  obtain ⟨-, -, hruntime⟩ := of_new hnew
  constructor
  · rw [FsAdapter.new, Prod.mk.injEq] at hnew
    obtain ⟨-, rfl⟩ := hnew
    refine wellFormed_andThen (wellFormed_andThen (wellFormed_andThen ?_ ?_) ?_) ?_
    · split_ifs
      · exact hwf.removeDirAll root
      · exact hwf
    · exact fun fs h => h.createDirAll root
    · exact fun fs h => h.createDirAll _
    · exact fun fs h => h.createDirAll _
  · rw [hruntime]
    split_ifs
    · rw [join, components_append, List.mem_append]
      rintro (h | h)
      · exact hup h
      · revert h
        decide
    · exact hup

/-- **When a task that is done takes its directory with it and nothing else.** After every sequence
of calls exactly when it is in the table and its path still leads somewhere; the path does if the
root does not lead up. -/
theorem taskDone_isolated_iff (tokio : TokioFs)
    (hnew : FsAdapter.new fs root client = (some a, fs')) {calls : List Call}
    (hcalls : ∀ call ∈ calls, call.Proper) {taskid : Str} (hid : Component taskid) :
    (Isolated (run tokio calls ⟨a, fs'⟩) taskid ↔
      taskid ∈ (run tokio calls ⟨a, fs'⟩).adapter.tasks ∧ Found (run tokio calls ⟨a, fs'⟩) taskid) ∧
    (fs.WellFormed → lit ".." ∉ components root →
      taskid ∈ (run tokio calls ⟨a, fs'⟩).adapter.tasks → Found (run tokio calls ⟨a, fs'⟩) taskid) := by
  have hinv : Inv (run tokio calls ⟨a, fs'⟩) := inv_run (inv_new hnew) hcalls
  refine ⟨isolated_iff hinv hid, fun hwf hup hmem => ?_⟩
  exact found_of_rooted hinv (rooted_run (rooted_new hnew hwf hup) calls) hid hmem

/-- A file system with its root only. -/
def bare : Fs := ⟨∅, ∅, []⟩

theorem wellFormed_bare : bare.WellFormed := by
  intro p hp
  cases p with
  | nil => rfl
  | cons c p => exact absurd rfl hp

/-- A client at `/d`. -/
def sampleClient : FsAdapter := ⟨lit "/d", lit "/d/persistent", lit "/d/runtime", ∅⟩

theorem new_sampleClient : FsAdapter.new bare (lit "/d") true =
    (some sampleClient, (FsAdapter.new bare (lit "/d") true).2) := rfl

/-- A task with a file. -/
theorem taskDone_isolated_iff_sample :
    let s := run .std [.createTask (lit "t"), .writeTaskFile (lit "t") (lit "f") [1]]
      ⟨sampleClient, (FsAdapter.new bare (lit "/d") true).2⟩
    Isolated s (lit "t") ∧ ¬ Isolated s (lit "u") := by
  have hcalls : ∀ call ∈ [Call.createTask (lit "t"), .writeTaskFile (lit "t") (lit "f") [1]],
      call.Proper := by
    refine List.forall_mem_cons.mpr ⟨?_, List.forall_mem_singleton.mpr ?_⟩
    · exact (by decide : Component (lit "t"))
    · exact (by decide : Component (lit "t"))
  have hmem : lit "t" ∈ (run .std [.createTask (lit "t"), .writeTaskFile (lit "t") (lit "f") [1]]
      ⟨sampleClient, (FsAdapter.new bare (lit "/d") true).2⟩).adapter.tasks := by
    decide +kernel
  obtain ⟨hiff, hfound⟩ := taskDone_isolated_iff .std new_sampleClient hcalls
    (by decide : Component (lit "t"))
  refine ⟨hiff.mpr ⟨hmem, hfound wellFormed_bare (by decide) hmem⟩, fun h => ?_⟩
  have hu := ((taskDone_isolated_iff .std new_sampleClient hcalls
    (by decide : Component (lit "u"))).1.mp h).1
  revert hu
  decide +kernel

/-- A task that was never created is not done silently. -/
theorem not_isolated_unknown : ¬ ∀ (tokio : TokioFs) (fs fs' : Fs) (root : Str)
    (mode : Bool) (a : FsAdapter),
    FsAdapter.new fs root mode = (some a, fs') →
      ∀ (calls : List Call), (∀ call ∈ calls, call.Proper) →
        ∀ taskid, Component taskid → Isolated (run tokio calls ⟨a, fs'⟩) taskid := by
  intro h
  have hid : Component (lit "t") := by decide
  have hiso := h .std _ _ _ _ _ new_sampleClient [] (fun call hcall => absurd hcall List.not_mem_nil) _ hid
  have hmem := ((isolated_iff (inv_new new_sampleClient) hid).mp hiso).1
  exact absurd hmem (AList.notMem_empty _)

end Isolation

end Jxtd.Dadga
