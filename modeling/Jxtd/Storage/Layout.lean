import Jxtd.Lib.PathNames
import Jxtd.Storage.Fidelity

/-!
# The layout of the storage

Three directories below the root, for runtime data, engines and binaries.

* `Layout`: the directories are there; `Layout.resolve_area`: a path into an area.
* `Blank`: nothing is in them yet; `init_blank`: so it is after `init`.
* `Within`: nothing changes outside a directory.
* **`Layout.resolve_engine`**: as long as the engine area has no directory in it, no id and no name
  lead out of it.
-/

namespace Jxtd.Storage

open Lib Posix Taskdep

/-- The directories below the root. -/
def areas : List Str := [lit "runtime", lit "engine", lit "binary"]

/-- The directories of a root are there. -/
structure Layout (d : Datamanager) (fs : Fs) (p : Path) : Prop where
  root : 0 ∉ d.rootPath
  resolve : fs.resolve d.rootPath = some p
  isDir : fs.IsDir p
  area : ∀ c ∈ areas, fs.IsDir (p ++ [c])
  wf : fs.WellFormed

/-! ## Paths -/

section Paths

variable {d : Datamanager} {fs fs' : Fs} {p q : Path}

theorem runtimePath_eq (d : Datamanager) (taskid : UInt64) :
    d.runtimePath taskid = (d.rootPath ++ slash :: lit "runtime") ++ slash :: runtimeFile taskid := by
  rw [Datamanager.runtimePath, List.append_assoc, List.append_assoc]
  rfl

theorem enginePath_eq (d : Datamanager) (mid name : Str) :
    d.enginePath mid name =
      (d.rootPath ++ slash :: lit "engine") ++ slash :: Datamanager.engineFile mid name := by
  rw [Datamanager.enginePath, List.append_assoc, List.append_assoc]
  rfl

theorem binaryPath_eq (d : Datamanager) (path : Str) :
    d.binaryPath path = (d.rootPath ++ slash :: lit "binary") ++ slash :: path := by
  rw [Datamanager.binaryPath, List.append_assoc, List.append_assoc]
  rfl

theorem clean_area {c : Str} (hc : c ∈ areas) : Clean c ∧ Fs.Plain c := by
  revert c
  decide

theorem Layout.notMem_area (h : Layout d fs p) {c : Str} (hc : c ∈ areas) :
    0 ∉ d.rootPath ++ slash :: c := by
  have hslash : (0 : UInt8) ≠ slash := by decide
  rw [List.mem_append, List.mem_cons, not_or, not_or]
  exact ⟨h.root, hslash, (clean_area hc).1.1⟩

theorem Layout.resolve_dir (h : Layout d fs p) {c : Str} (hc : c ∈ areas) :
    fs.resolve (d.rootPath ++ slash :: c) = some (p ++ [c]) := by
  obtain ⟨hclean, hplain⟩ := clean_area hc
  exact Fs.resolve_child h.resolve h.isDir h.root hclean.1 hclean.2 hplain

/-- **A path into an area.** -/
theorem Layout.resolve_area (h : Layout d fs p) {c : Str} (hc : c ∈ areas) (t : Str) :
    fs.resolve ((d.rootPath ++ slash :: c) ++ slash :: t) =
      fs.walk (p ++ [c]) (components (cstr t)) :=
  Fs.resolve_below (h.notMem_area hc) (h.resolve_dir hc) t

theorem Layout.target_area (h : Layout d fs p) {c : Str} (hc : c ∈ areas) (t : Str) :
    fs.target ((d.rootPath ++ slash :: c) ++ slash :: t) =
      Fs.lexical (p ++ [c]) (components (cstr t)) :=
  Fs.target_below (h.notMem_area hc) (h.resolve_dir hc) t

/-- The paths of the manager start where its root does. -/
theorem Layout.isDir_start (h : Layout d fs p) (t : Str) : fs.IsDir (fs.start (d.rootPath ++ t)) := by
  have hr := h.resolve
  have hne : d.rootPath ≠ [] := by
    intro hnil
    rw [hnil] at hr
    cases hr
  rw [Fs.resolve, cstr_of_notMem h.root, if_neg hne] at hr
  have hstart : fs.start (d.rootPath ++ t) = fs.start d.rootPath := by
    rw [Fs.start, Fs.start, List.head?_append_of_ne_nil _ hne]
  rw [hstart]
  exact Fs.isDir_of_walk hr h.isDir

theorem Layout.keepsDirs (h : Layout d fs p) (hk : fs.KeepsDirs fs') (hwf : fs'.WellFormed)
    {d' : Datamanager} (hroot : d'.rootPath = d.rootPath) : Layout d' fs' p :=
  ⟨hroot ▸ h.root, hroot ▸ hk.resolve h.resolve, hk.isDir p h.isDir,
    fun c hc => hk.isDir _ (h.area c hc), hwf⟩

theorem Layout.resolve_runtime (h : Layout d fs p) (taskid : UInt64) :
    fs.resolve (d.runtimePath taskid) = some (p ++ [lit "runtime", runtimeFile taskid]) := by
  have hmem : lit "runtime" ∈ areas := by decide
  have hclean := clean_runtimeFile taskid
  rw [runtimePath_eq, Fs.resolve_child (h.resolve_dir hmem) (h.area _ hmem) (h.notMem_area hmem)
    hclean.1 hclean.2 (plain_runtimeFile taskid), List.append_assoc]
  rfl

/-- The names of an engine's path, which begin with that of a file. -/
theorem components_engineFile (mid name : Str) :
    ∃ c cs, components (cstr (Datamanager.engineFile mid name)) = c :: cs ∧ Fs.Plain c := by
  obtain ⟨rest, hrest⟩ : ∃ rest, Datamanager.engineFile mid name = 0x4a :: rest := ⟨_, rfl⟩
  have hcstr : cstr (0x4a :: rest) = 0x4a :: cstr rest :=
    List.takeWhile_cons_of_pos (by decide)
  have hJ : (0x4a : UInt8) ≠ slash := by decide
  have hdot : (0x4a : UInt8) ≠ 0x2e := by decide
  rw [hrest, hcstr, components, if_neg hJ]
  cases components (cstr rest) with
  | nil => exact ⟨_, _, rfl, Fs.plain_of_head hdot⟩
  | cons p ps => exact ⟨_, _, rfl, Fs.plain_of_head hdot⟩

/-- No directory is in the engine area. -/
def Flat (fs : Fs) (p : Path) : Prop := ∀ c, ¬ fs.IsDir (p ++ [lit "engine", c])

/-- **No engine leads out of its area** as long as no directory is in it. -/
theorem Layout.resolve_engine (h : Layout d fs p) (hflat : Flat fs p) {mid name : Str}
    (hr : fs.resolve (d.enginePath mid name) = some q) : ∃ c, q = p ++ [lit "engine", c] := by
  have hmem : lit "engine" ∈ areas := by decide
  obtain ⟨c, cs, hcs, hc⟩ := components_engineFile mid name
  rw [enginePath_eq, h.resolve_area hmem, hcs, Fs.walk_plain hc (h.area _ hmem),
    List.append_assoc, List.singleton_append] at hr
  cases cs with
  | nil =>
    cases hr
    exact ⟨c, rfl⟩
  | cons c' cs =>
    rw [Fs.walk, if_neg (hflat c)] at hr
    cases hr

end Paths

/-! ## What a call can change -/

/-- Nothing changes outside a directory, and no directory is removed. -/
structure Within (a : Path) (fs fs' : Fs) : Prop where
  keeps : fs.KeepsDirs fs'
  wf : fs.WellFormed → fs'.WellFormed
  node : ∀ q, ¬ a <+: q → fs'.node q = fs.node q

namespace Within

variable {a q : Path} {fs fs' fs'' : Fs}

theorem refl (a : Path) (fs : Fs) : Within a fs fs := ⟨.refl fs, id, fun _ _ => rfl⟩

theorem trans (h : Within a fs fs') (h' : Within a fs' fs'') : Within a fs fs'' :=
  ⟨h.keeps.trans h'.keeps, fun hwf => h'.wf (h.wf hwf),
    fun q hq => (h'.node q hq).trans (h.node q hq)⟩

theorem of_sameTree (a : Path) (h : fs.SameTree fs') : Within a fs fs' :=
  ⟨h.grows.keepsDirs, fun hwf => hwf.sameTree h, fun q _ => h.node q⟩

end Within

/-- Only files change, and only below a directory. -/
structure FilesWithin (a : Path) (fs fs' : Fs) : Prop extends Within a fs fs' where
  dirs : ∀ q, fs'.IsDir q → fs.IsDir q

namespace FilesWithin

variable {a q : Path} {fs fs' fs'' : Fs}

theorem of_sameTree (a : Path) (h : fs.SameTree fs') : FilesWithin a fs fs' :=
  ⟨.of_sameTree a h, fun q hq => (h.node q).symm.trans hq⟩

theorem trans (h : FilesWithin a fs fs') (h' : FilesWithin a fs' fs'') : FilesWithin a fs fs'' :=
  ⟨h.toWithin.trans h'.toWithin, fun q hq => h.dirs q (h'.dirs q hq)⟩

theorem set_file (hq : a <+: q) (hdir : ¬ fs.IsDir q) (data : Str)
    (hwf : fs.WellFormed → (fs.set q (.file data)).WellFormed) :
    FilesWithin a fs (fs.set q (.file data)) := by
  have hne {r : Path} (hr : ¬ a <+: r) : r ≠ q := fun heq => hr (heq ▸ hq)
  refine ⟨⟨Fs.keepsDirs_set_file hdir data, hwf, fun r hr => Fs.node_set_ne fs (hne hr) _⟩,
    fun r hr => ?_⟩
  by_cases hrq : r = q
  · rw [hrq] at hr ⊢
    by_cases hq0 : q = []
    · rw [hq0]
      rfl
    · rw [Fs.IsDir, Fs.node_set fs hq0] at hr
      cases hr
  · rwa [Fs.IsDir, Fs.node_set_ne fs hrq] at hr

theorem unlink {s : Str} (h : ∀ q, fs.resolve s = some q → a <+: q) :
    FilesWithin a fs (fs.unlink s).2 := by
  refine ⟨⟨Fs.keepsDirs_unlink fs s, fun hwf => hwf.unlink s, fun q hq =>
    Fs.node_unlink_ne fun hr => hq (h q hr)⟩, fun q hq => ?_⟩
  unfold Fs.unlink at hq
  split at hq
  · exact hq
  · rename_i r hr
    split at hq
    · rename_i hfile
      by_cases hqr : q = r
      · rw [hqr, Fs.IsDir, Fs.node_del fs (Fs.ne_nil_of_node_file hfile)] at hq
        cases hq
      · rwa [Fs.IsDir, Fs.node_del_ne fs hqr] at hq
    · exact hq

end FilesWithin

section Calls

variable {d : Datamanager} {fs fs' : Fs} {p a q : Path}

/-- A node at the end of a path into an area. -/
theorem Layout.wf_set (h : Layout d fs p) {c t : Str} (hc : c ∈ areas)
    (hr : fs.resolve ((d.rootPath ++ slash :: c) ++ slash :: t) = some q) (hq : ¬ fs.IsDir q)
    (n : Node) : (fs.set q n).WellFormed :=
  h.wf.set_walk (h.area c hc) ((h.resolve_area hc t).symm.trans hr) hq n

theorem Layout.push_exclusive (h : Layout d fs p) {c t : Str} (hc : c ∈ areas)
    (ha : ∀ q, fs.resolve ((d.rootPath ++ slash :: c) ++ slash :: t) = some q → a <+: q)
    (data : Str) :
    FilesWithin a fs (Datamanager.pushData localFileoperations
      (fs.openFile ((d.rootPath ++ slash :: c) ++ slash :: t) exclusive).2
      (fs.openFile ((d.rootPath ++ slash :: c) ++ slash :: t) exclusive).1 data).2 := by
  by_cases hold : ∀ q, fs.resolve ((d.rootPath ++ slash :: c) ++ slash :: t) = some q →
      fs.node q ≠ none
  · rw [Local.push_old hold]
    exact .of_sameTree a (.refl fs)
  · push Not at hold
    obtain ⟨q, hr, hnone⟩ := hold
    have hdir : ¬ fs.IsDir q := by simp [Fs.IsDir, hnone]
    rw [Local.push_new hr hnone]
    exact .set_file (ha q hr) hdir data fun _ => h.wf_set hc hr hdir _

theorem Layout.push_appending (h : Layout d fs p) {c t : Str} (hc : c ∈ areas)
    (ha : ∀ q, fs.resolve ((d.rootPath ++ slash :: c) ++ slash :: t) = some q → a <+: q)
    (data : Str) :
    FilesWithin a fs (Datamanager.pushData localFileoperations
      (fs.openFile ((d.rootPath ++ slash :: c) ++ slash :: t) appending).2
      (fs.openFile ((d.rootPath ++ slash :: c) ++ slash :: t) appending).1 data).2 := by
  rcases Local.push_append_frame fs ((d.rootPath ++ slash :: c) ++ slash :: t) data with
    heq | ⟨q, content, hr, hdir, heq⟩
  · rw [heq]
    exact .of_sameTree a (.refl fs)
  · rw [heq]
    exact .set_file (ha q hr) hdir content fun _ => h.wf_set hc hr hdir _

/-- The place of the engines. -/
theorem Layout.engine_within (h : Layout d fs p) (hflat : Flat fs p) {mid name : Str} (q : Path)
    (hr : fs.resolve (d.enginePath mid name) = some q) : p ++ [lit "engine"] <+: q := by
  obtain ⟨c, rfl⟩ := h.resolve_engine hflat hr
  exact ⟨[c], List.append_assoc ..⟩

theorem Layout.enginePush (h : Layout d fs p) (hflat : Flat fs p) (mid name engine : Str) :
    FilesWithin (p ++ [lit "engine"]) fs
      (d.enginePush localFileoperations fs mid name engine).2 := by
  have ha : ∀ q, fs.resolve (d.enginePath mid name) = some q → p ++ [lit "engine"] <+: q :=
    h.engine_within hflat
  rw [enginePath_eq] at ha
  have hpush := h.push_exclusive (by decide : lit "engine" ∈ areas) ha engine
  rwa [← enginePath_eq] at hpush

theorem Layout.engineRemove (h : Layout d fs p) (hflat : Flat fs p) (mid name : Str) :
    FilesWithin (p ++ [lit "engine"]) fs (d.engineRemove localFileoperations fs mid name) :=
  .unlink (h.engine_within hflat)

theorem Layout.runtimePush (h : Layout d fs p) (taskid : UInt64) (runtime : Str) :
    FilesWithin (p ++ [lit "runtime", runtimeFile taskid]) fs
      (d.runtimePush localFileoperations fs taskid runtime).2 := by
  have ha : ∀ q, fs.resolve (d.runtimePath taskid) = some q →
      p ++ [lit "runtime", runtimeFile taskid] <+: q := by
    intro q hr
    rw [h.resolve_runtime, Option.some_inj] at hr
    rw [hr]
  rw [runtimePath_eq] at ha
  have hpush := h.push_appending (by decide : lit "runtime" ∈ areas) ha runtime
  rwa [← runtimePath_eq] at hpush

/-- The file of a task's runtime data holds a log. -/
def Logged (fs : Fs) (p : Path) (taskid : UInt64) (log : Str) : Prop :=
  fs.node (p ++ [lit "runtime", runtimeFile taskid]) = some (.file log) ∨
    fs.node (p ++ [lit "runtime", runtimeFile taskid]) = none ∧ log = []

theorem Layout.contents_logged (h : Layout d fs p) {taskid : UInt64} {log : Str}
    (hlog : Logged fs p taskid log) : (fs.contents (d.runtimePath taskid)).getD [] = log := by
  have hr := h.resolve_runtime taskid
  rcases hlog with hfile | ⟨hnone, hlog⟩
  · rw [Fs.contents_eq hr hfile, Option.getD_some]
  · rw [Fs.contents, hr, Option.bind_some, hnone, hlog]
    rfl

/-- **Runtime data is appended to the log.** -/
theorem Layout.runtimePush_logged (h : Layout d fs p) {taskid : UInt64} {log : Str}
    (hlog : Logged fs p taskid log) (runtime : Str) : ∃ fs',
    d.runtimePush localFileoperations fs taskid runtime = (0, fs') ∧
      Logged fs' p taskid (log ++ runtime) := by
  have hr := h.resolve_runtime taskid
  rcases hlog with hfile | ⟨hnone, hlog⟩
  · exact ⟨_, Local.push_append hr hfile runtime,
      .inl (Fs.node_set fs (Fs.ne_nil_of_node_file hfile) _)⟩
  · refine ⟨_, Local.push_append_new hr hnone runtime, .inl ?_⟩
    rw [Fs.node_set fs (Fs.ne_nil_of_node_none hnone), hlog, List.nil_append]

end Calls

/-! ## A new node -/

/-- An initialised manager with nothing in its areas. -/
structure Blank (d : Datamanager) (fs : Fs) (p : Path) : Prop extends Layout d fs p where
  isInit : d.isInit = true
  taskEngine : d.taskEngine = ∅
  taskExtfiles : d.taskExtfiles = ∅
  empty : ∀ c ∈ areas, ∀ q ≠ [], fs.node (p ++ c :: q) = none

section Init

variable {fs fs' : Fs} {p : Path} {path : Str}

theorem Blank.flat {d : Datamanager} (h : Blank d fs p) : Flat fs p := by
  intro c hdir
  rw [Fs.IsDir, h.empty (lit "engine") (by decide) [c] (List.cons_ne_nil _ _)] at hdir
  cases hdir

/-- A tree whose working directory is there. -/
def Rooted (fs : Fs) : Prop := fs.WellFormed ∧ fs.IsDir fs.cwd

theorem Rooted.mkdir (h : Rooted fs) (s : Str) : Rooted (fs.mkdir s).2 := by
  have hgrows := Fs.grows_mkdir fs s
  refine ⟨h.1.mkdir (Fs.isDir_start h.2 _), ?_⟩
  rw [hgrows.cwd]
  exact hgrows.node _ _ h.2

theorem Rooted.sameTree (h : Rooted fs) (hs : fs.SameTree fs') : Rooted fs' := by
  refine ⟨h.1.sameTree hs, ?_⟩
  rw [Fs.IsDir, hs.node, hs.cwd]
  exact h.2

theorem rooted_init (h : Rooted fs) (d : Datamanager) (path : Str) (isNewRoot : Bool) :
    Rooted (d.init localFileoperations fs path isNewRoot).2.2 := by
  have hopen {fs : Fs} (h : Rooted fs) :
      Rooted (localFileoperations.opendir fs path { directory := true }).2 :=
    h.sameTree (Fs.sameTree_openFile fs path rfl)
  have hmk {fs : Fs} (h : Rooted fs) (s : Str) : Rooted (localFileoperations.mkdir fs s).2 :=
    h.mkdir s
  have hclose {fs : Fs} (h : Rooted fs) (fd : ℤ) : Rooted (localFileoperations.closedir fs fd).2 :=
    h.sameTree (Local.sameTree_closedir fs fd)
  unfold Datamanager.init
  dsimp only
  split_ifs
  · exact hmk h path
  · exact hopen (hmk h path)
  · exact hclose (hmk (hmk (hmk (hopen (hmk h path)) _) _) _) _
  · exact hopen h
  · exact hclose (hopen h) _

/-- **`init` of a new root** leaves a manager with nothing in its areas. -/
theorem init_blank (d : Datamanager) (h : Rooted fs) (h₀ : 0 ∉ path)
    (hend : Fs.stripSlashes path = path) (hr : fs.resolve path = some p)
    (hp : ∀ q, fs.node (p ++ q) = none) :
    ∃ fs', d.init localFileoperations fs path true = (0, ⟨path, true, ∅, ∅⟩, fs') ∧
      Blank ⟨path, true, ∅, ∅⟩ fs' p := by
  obtain ⟨fs', hinit, hroot⟩ := init_root d h₀ hend hr hp
  have hwf : fs'.WellFormed := by
    have hrooted := rooted_init h d path true
    rw [hinit] at hrooted
    exact hrooted.1
  have hmade {c : Str} (hc : c ∈ areas) : c ∈ [lit "binary", lit "engine", lit "runtime"] := by
    revert c
    decide
  refine ⟨fs', hinit, ⟨h₀, hroot.resolve, hroot.isDir, fun c hc => ?_, hwf⟩, rfl, rfl, rfl,
    fun c _ q hq => ?_⟩
  · rw [Fs.IsDir, hroot.child, if_pos (hmade hc)]
  · -- by induction from the first name below the area
    induction q using List.reverseRecOn with
    | nil => exact absurd rfl hq
    | append_singleton q c' ih =>
      by_cases hq0 : q = []
      · rw [hq0]
        exact hroot.below c c'
      · have hbelow := hwf.node_below (ih hq0) c'
        rwa [List.append_assoc, List.cons_append] at hbelow

theorem newNode_blank : Blank newNode.dManager newNode.fs [lit "data"] := by
  have hrooted : Rooted ⟨∅, ∅, []⟩ := by
    refine ⟨fun q hq => ?_, rfl⟩
    by_cases hq0 : q = []
    · rw [hq0]
      rfl
    · rw [Fs.node, if_neg hq0] at hq
      exact absurd rfl hq
  have hr : Fs.resolve ⟨∅, ∅, []⟩ (lit "/data") = some [lit "data"] := by decide
  obtain ⟨fs', hinit, hblank⟩ := init_blank Datamanager.new hrooted (by decide) (by decide) hr
    fun q => rfl
  unfold newNode
  rw [hinit]
  exact hblank

end Init

end Jxtd.Storage
