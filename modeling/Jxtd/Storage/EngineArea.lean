import Jxtd.Storage.Local
import Jxtd.Storage.Taskdep

/-!
# The engine area

The directory of the engines on the local file system. An engine file is an entry of it as long as
the id and the name have no slash and no zero byte.

* `EngineArea`: the directory is there.
* **`EngineArea.resolve_enginePath`**: where an engine file is.
* `enginePush_new`, `enginePush_old`, `enginePull_file`, `engineRemove_file`: the three operations.
* `anonymousFile`: the file of an engine that is bound under its task id.
-/

namespace Jxtd.Storage

open Lib Posix Taskdep

theorem clean_decimal (n : ℕ) : Clean (decimal n) := by
  constructor <;> intro h <;> have := digit_of_mem_decimal h <;> simp [slash] at this

theorem clean_engineFile {mid name : Str} (hm : Clean mid) (hn : Clean name) :
    Clean (Datamanager.engineFile mid name) :=
  have hpre : Clean (lit "JXTDENGINE_") := by decide
  have hsep : Clean (lit "_") := by decide
  (((hpre.append hm).append hsep).append hn).append (by decide)

theorem clean_of_engineFile {mid name : Str} (h : Clean (Datamanager.engineFile mid name)) :
    Clean mid ∧ Clean name := by
  obtain ⟨h, -⟩ := h.of_append
  obtain ⟨h, hname⟩ := h.of_append
  obtain ⟨h, -⟩ := h.of_append
  exact ⟨h.of_append.2, hname⟩

theorem plain_engineFile (mid name : Str) : Fs.Plain (Datamanager.engineFile mid name) :=
  Fs.plain_of_head (by decide : (0x4a : UInt8) ≠ 0x2e)

/-! ## The directory -/

/-- The engine area of a manager is a directory, and its path has no zero byte. -/
structure EngineArea (d : Datamanager) (fs : Fs) (dir : Path) : Prop where
  root : 0 ∉ d.rootPath
  resolve : fs.resolve (d.rootPath ++ lit "/engine") = some dir
  isDir : fs.IsDir dir

variable {d : Datamanager} {fs fs' : Fs} {dir p : Path} {mid name : Str}

/-- **Where an engine file is.** -/
theorem EngineArea.resolve_enginePath (h : EngineArea d fs dir) (hm : Clean mid) (hn : Clean name) :
    fs.resolve (d.enginePath mid name) = some (dir ++ [Datamanager.engineFile mid name]) := by
  have hc := clean_engineFile hm hn
  have hpath : d.enginePath mid name =
      (d.rootPath ++ lit "/engine") ++ slash :: Datamanager.engineFile mid name := by
    rw [Datamanager.enginePath, List.append_assoc, List.append_assoc]
    rfl
  have h0 : 0 ∉ d.rootPath ++ lit "/engine" := by
    rw [List.mem_append, not_or]
    exact ⟨h.root, by decide⟩
  rw [hpath]
  exact Fs.resolve_child h.resolve h.isDir h0 hc.1 hc.2 (plain_engineFile mid name)

theorem EngineArea.keepsDirs (h : EngineArea d fs dir) (hk : fs.KeepsDirs fs') {d' : Datamanager}
    (hroot : d'.rootPath = d.rootPath) : EngineArea d' fs' dir :=
  ⟨hroot ▸ h.root, hroot ▸ hk.resolve h.resolve, hk.isDir _ h.isDir⟩

/-! ## The operations -/

theorem enginePush_new (hr : fs.resolve (d.enginePath mid name) = some p) (hp : fs.node p = none)
    (engine : Str) :
    d.enginePush localFileoperations fs mid name engine = (0, fs.set p (.file engine)) :=
  Local.push_new hr hp engine

theorem enginePush_old (h : ∀ p, fs.resolve (d.enginePath mid name) = some p → fs.node p ≠ none)
    (engine : Str) : d.enginePush localFileoperations fs mid name engine = (-1, fs) :=
  Local.push_old h engine

theorem enginePull_file {data : Str} (hr : fs.resolve (d.enginePath mid name) = some p)
    (hp : fs.node p = some (.file data)) (hlen : data.length < 2 ^ 31) :
    d.enginePull localFileoperations fs mid name = .ok (data, fs) :=
  Local.pull_file hr hp hlen

theorem engineRemove_file {data : Str} (hr : fs.resolve (d.enginePath mid name) = some p)
    (hp : fs.node p = some (.file data)) :
    d.engineRemove localFileoperations fs mid name = fs.del p := by
  show (Fs.unlink _ _).2 = _
  rw [Fs.unlink, hr]
  simp only [hp]

theorem engineRemove_other (hr : fs.resolve (d.enginePath mid name) = some p)
    (hp : ∀ data, fs.node p ≠ some (.file data)) :
    d.engineRemove localFileoperations fs mid name = fs := by
  show (Fs.unlink _ _).2 = _
  rw [Fs.unlink, hr]
  dsimp only
  split
  · rename_i data hdata
    exact absurd hdata (hp data)
  · rfl

/-! ## Anonymous engines -/

/-- The file of an engine that came without a name. -/
def anonymousFile (taskid : UInt64) : Str :=
  Datamanager.engineFile anonymousMid (decimal taskid.toNat)

theorem anonymousFile_injective : Function.Injective anonymousFile := by
  intro t t' h
  unfold anonymousFile Datamanager.engineFile at h
  exact UInt64.toNat_inj.mp
    (decimal_injective (List.append_cancel_left (List.append_cancel_right h)))

theorem EngineArea.resolve_anonymous (h : EngineArea d fs dir) (t : UInt64) :
    fs.resolve (d.enginePath anonymousMid (decimal t.toNat)) = some (dir ++ [anonymousFile t]) :=
  h.resolve_enginePath (by decide) (clean_decimal _)

theorem anonymous_ne {t t' : UInt64} (h : t ≠ t') (dir : Path) :
    dir ++ [anonymousFile t] ≠ dir ++ [anonymousFile t'] := by
  intro he
  exact h (anonymousFile_injective (List.singleton_inj.mp (List.append_cancel_left he)))

/-! ## A new node -/

/-- An initialised manager with nothing bound and an empty engine area. -/
structure Fresh (d : Datamanager) (fs : Fs) (dir : Path) : Prop where
  isInit : d.isInit = true
  taskEngine : d.taskEngine = ∅
  taskExtfiles : d.taskExtfiles = ∅
  area : EngineArea d fs dir
  empty : ∀ name, fs.node (dir ++ [name]) = none

/-- A root while its directories are made. -/
structure Root (fs : Fs) (path : Str) (p : Path) (made : List Str) : Prop where
  resolve : fs.resolve path = some p
  isDir : fs.IsDir p
  child : ∀ c, fs.node (p ++ [c]) = if c ∈ made then some .dir else none
  below : ∀ c c', fs.node (p ++ [c, c']) = none

/-- One more directory below the root. -/
theorem Root.mkdir {path c : Str} {made : List Str} (h : Root fs path p made) (h₀ : 0 ∉ path)
    (hclean : Clean c) (hplain : Fs.Plain c) (hc : c ∉ made) :
    ∃ fs', fs.mkdir (path ++ slash :: c) = (0, fs') ∧ Root fs' path p (c :: made) := by
  have hnone : fs.node (p ++ [c]) = none := by rw [h.child, if_neg hc]
  have hgrows := Fs.grows_set hnone .dir
  refine ⟨_, Fs.mkdir_child h.resolve h.isDir h₀ hclean.1 hclean.2 hplain hnone,
    hgrows.keepsDirs.resolve h.resolve, hgrows.node _ _ h.isDir, fun c' => ?_, fun c' c'' => ?_⟩
  · rcases eq_or_ne c' c with rfl | hne
    · rw [Fs.node_set _ (by simp), if_pos List.mem_cons_self]
    · rw [Fs.node_set_ne _ (by simpa using hne), h.child]
      simp [hne]
  · rw [Fs.node_set_ne _ (by simp), h.below]

theorem Root.sameTree {path : Str} {made : List Str} (h : Root fs path p made)
    (hs : fs.SameTree fs') : Root fs' path p made :=
  ⟨hs.grows.keepsDirs.resolve h.resolve, (hs.node p).trans h.isDir,
    fun c => (hs.node _).trans (h.child c), fun c c' => (hs.node _).trans (h.below c c')⟩

theorem Root.fresh {path : Str} {made : List Str} (h : Root fs path p made) (h₀ : 0 ∉ path)
    (he : lit "engine" ∈ made) : Fresh ⟨path, true, ∅, ∅⟩ fs (p ++ [lit "engine"]) := by
  have hdir : fs.IsDir (p ++ [lit "engine"]) := by rw [Fs.IsDir, h.child, if_pos he]
  refine ⟨rfl, rfl, rfl, ⟨h₀, ?_, hdir⟩, fun name => ?_⟩
  · exact Fs.resolve_child h.resolve h.isDir h₀ (by decide) (by decide) (by decide)
  · rw [List.append_assoc]
    exact h.below _ _

/-- **`init` of a new root** makes its three directories. -/
theorem init_root (d : Datamanager) {path : Str} (h₀ : 0 ∉ path)
    (hend : Fs.stripSlashes path = path) (hr : fs.resolve path = some p)
    (hp : ∀ q, fs.node (p ++ q) = none) :
    ∃ fs', d.init localFileoperations fs path true = (0, ⟨path, true, ∅, ∅⟩, fs') ∧
      Root fs' path p [lit "binary", lit "engine", lit "runtime"] := by
  have hp0 : fs.node p = none := by simpa using hp []
  have hpne := Fs.ne_nil_of_node_none hp0
  have hdir : (fs.set p .dir).node p = some .dir := Fs.node_set fs hpne _
  have hroot : Root (fs.set p .dir) path p [] :=
    ⟨(Fs.grows_set hp0 .dir).keepsDirs.resolve hr, hdir,
      fun c => by rw [Fs.node_set_ne _ (by simp), hp, if_neg List.not_mem_nil],
      fun c c' => by rw [Fs.node_set_ne _ (by simp), hp]⟩
  have hopen : Local.opendir (fs.set p .dir) path { directory := true } =
      (fs.set p .dir).allocate p { directory := true } := by
    rw [Local.opendir, Fs.openFile, hroot.resolve]
    simp only [hdir]
    rfl
  obtain ⟨fs₁, hmk₁, hroot₁⟩ := (hroot.sameTree (Fs.sameTree_allocate _ p { directory := true })).mkdir
    h₀ (c := lit "runtime") (by decide) (by decide) (by decide)
  obtain ⟨fs₂, hmk₂, hroot₂⟩ := hroot₁.mkdir h₀ (c := lit "engine") (by decide) (by decide) (by decide)
  obtain ⟨fs₃, hmk₃, hroot₃⟩ := hroot₂.mkdir h₀ (c := lit "binary") (by decide) (by decide) (by decide)
  have hroot₄ := hroot₃.sameTree (Local.sameTree_closedir fs₃
    ((fs.set p .dir).allocate p { directory := true }).1)
  refine ⟨_, ?_, hroot₄⟩
  have hmk₀ : localFileoperations.mkdir fs path = (0, fs.set p .dir) := Fs.mkdir_new h₀ hend hr hp0
  have hopen' : localFileoperations.opendir (fs.set p .dir) path { directory := true } = _ := hopen
  have hmk₁' : localFileoperations.mkdir _ (path ++ lit "/runtime") = _ := hmk₁
  have hmk₂' : localFileoperations.mkdir _ (path ++ lit "/engine") = _ := hmk₂
  have hmk₃' : localFileoperations.mkdir _ (path ++ lit "/binary") = _ := hmk₃
  rw [Datamanager.init, if_pos rfl]
  simp only [hmk₀, hopen', hmk₁', hmk₂', hmk₃']
  rw [if_neg (by decide), if_neg (Fs.allocate_fst_ne _ _ _)]
  rfl

theorem init_fresh (d : Datamanager) {path : Str} (h₀ : 0 ∉ path)
    (hend : Fs.stripSlashes path = path) (hr : fs.resolve path = some p)
    (hp : ∀ q, fs.node (p ++ q) = none) :
    ∃ fs', d.init localFileoperations fs path true = (0, ⟨path, true, ∅, ∅⟩, fs') ∧
      Fresh ⟨path, true, ∅, ∅⟩ fs' (p ++ [lit "engine"]) := by
  obtain ⟨fs', hinit, hroot⟩ := init_root d h₀ hend hr hp
  exact ⟨fs', hinit, hroot.fresh h₀ (by decide)⟩

/-- A node that has just been initialised at `/data`. -/
def newNode : State Fs :=
  let (_, d, fs) := Datamanager.new.init localFileoperations ⟨∅, ∅, []⟩ (lit "/data") true
  ⟨d, fs⟩

theorem newNode_fresh : Fresh newNode.dManager newNode.fs [lit "data", lit "engine"] := by
  have hr : Fs.resolve ⟨∅, ∅, []⟩ (lit "/data") = some [lit "data"] := by decide
  obtain ⟨fs', hinit, hfresh⟩ := init_fresh Datamanager.new (by decide) (by decide) hr fun q => rfl
  unfold newNode
  rw [hinit]
  exact hfresh

end Jxtd.Storage
