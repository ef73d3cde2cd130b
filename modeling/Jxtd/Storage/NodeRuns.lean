import Jxtd.Storage.BinaryArea

/-!
# Runs of a storage node

What one request of either server does to the areas, read off the request.

* `NodeEvent.runtime`, `NodeEvent.binary`: what a request pushes into the runtime or binary area.
* `WithinPath`: what a push of a binary can change, under any path.
* `Node`: the layout of a node, whose root leads no binary among the engines.
* **`Node.step_cases`**: everything a request can do to the files.
* `Node.run`: the layout after every run.
-/

namespace Jxtd.Storage

open Lib Posix Taskdep Datatrans

/-- The task and the data of a push of runtime data. -/
def NodeEvent.runtime : NodeEvent → Option (UInt64 × Str)
  | .taskdep _ _ => none
  | .datatrans direction master =>
    if master.type = Datatype.endpoint.toUInt32 ∧ direction ≠ 0 then
      some (master.taskid.toUInt64, master.binary)
    else none

/-- The task and the data of a push of a binary. -/
def NodeEvent.binary : NodeEvent → Option (UInt64 × Str)
  | .taskdep _ _ => none
  | .datatrans direction master =>
    if master.type = Datatype.binary.toUInt32 ∧ direction ≠ 0 then
      some (master.taskid.toUInt64, master.binary)
    else none

/-! ## A push under any path -/

/-- Nothing changes but what is where a path and its parts before a slash lead. -/
structure WithinPath (p : Path) (path : Str) (fs fs' : Fs) : Prop where
  keeps : fs.KeepsDirs fs'
  wf : fs'.WellFormed
  dirs : ∀ q, (∀ b ∈ searched path, binaryTarget p b ≠ q) → fs'.IsDir q → fs.IsDir q
  node : ∀ q, (∀ b, b = path ∨ b ∈ searched path → binaryTarget p b ≠ q) → fs'.node q = fs.node q

/-- No part of a path before a slash leads to an engine. -/
def SparesEngines (p : Path) (path : Str) : Prop :=
  ∀ b ∈ searched path, ∀ c, binaryTarget p b ≠ p ++ [lit "engine", c]

/-- No part of a path leads to the runtime data of a task. -/
def SparesRuntime (p : Path) (path : Str) (taskid : UInt64) : Prop :=
  ∀ b, b = path ∨ b ∈ searched path → binaryTarget p b ≠ p ++ [lit "runtime", runtimeFile taskid]

/-- A path that stays in the area leads to no other. -/
theorem StaysAlong.sparesEngines {p : Path} {path : Str} (h : StaysAlong p path) :
    SparesEngines p path := by
  intro b hb c heq
  have hother : lit "binary" ≠ lit "engine" := by decide
  exact (h.2 b hb).not_below hother ⟨[], by rw [List.append_nil, heq]⟩

theorem StaysAlong.sparesRuntime {p : Path} {path : Str} (h : StaysAlong p path)
    (taskid : UInt64) : SparesRuntime p path taskid := by
  intro b hb heq
  have hstays : Stays p b := by
    rcases hb with rfl | hb
    · exact h.1
    · exact h.2 b hb
  have hother : lit "binary" ≠ lit "runtime" := by decide
  exact hstays.not_below hother ⟨[], by rw [List.append_nil, heq]⟩

section WithinPath

variable {d : Datamanager} {fs fs' fs'' : Fs} {p q : Path} {b path : Str}

theorem WithinPath.trans (h : WithinPath p path fs fs') (h' : WithinPath p path fs' fs'') :
    WithinPath p path fs fs'' :=
  ⟨h.keeps.trans h'.keeps, h'.wf, fun q hq hdir => h.dirs q hq (h'.dirs q hq hdir),
    fun q hq => (h'.node q hq).trans (h.node q hq)⟩

theorem Makes.withinPath (h : Makes p path fs fs') : WithinPath p path fs fs' := by
  refine ⟨h.grows.keepsDirs, h.wf, fun q hq hdir => ?_,
    fun q hq => h.node_ne fun b hb => hq b (.inr hb)⟩
  rwa [Fs.IsDir, h.node_ne hq] at hdir

theorem Layout.newFile_withinPath (h : Layout d fs p) (path data : Str) :
    WithinPath p path fs (Datamanager.pushData localFileoperations
      (fs.openFile (d.binaryPath path) exclusive).2
      (fs.openFile (d.binaryPath path) exclusive).1 data).2 := by
  by_cases hold : ∀ q, fs.resolve (d.binaryPath path) = some q → fs.node q ≠ none
  · rw [Local.push_old hold]
    exact (Makes.refl h.wf).withinPath
  · push Not at hold
    obtain ⟨q, hr, hnone⟩ := hold
    have hq : binaryTarget p path = q := (h.resolve_binaryTarget hr).symm
    have hnodir : ¬ fs.IsDir q := by simp [Fs.IsDir, hnone]
    rw [Local.push_new hr hnone]
    refine ⟨Fs.keepsDirs_set_file hnodir data, ?_, fun q' _ hdir => ?_, fun q' hq' => ?_⟩
    · rw [binaryPath_eq] at hr
      exact h.wf_set binary_mem hr hnodir _
    · by_cases heq : q' = q
      · rw [heq, Fs.IsDir, Fs.node_set fs (Fs.ne_nil_of_node_none hnone)] at hdir
        cases hdir
      · rwa [Fs.IsDir, Fs.node_set_ne fs heq] at hdir
    · exact Fs.node_set_ne fs (fun heq => hq' path (.inl rfl) (hq.trans heq.symm)) _

/-- **A push of a binary** changes nothing but what is where its path and parts of it lead. -/
theorem Layout.binaryPush_withinPath (h : Layout d fs p) (path data : Str) :
    WithinPath p path fs (d.binaryPush localFileoperations fs path data).2 := by
  have hmade := makes_makeDirectories h path
  rw [d.binaryPush_eq localFileoperations]
  exact hmade.withinPath.trans ((h.makes hmade).newFile_withinPath path data)

end WithinPath

/-- The layout of a node. -/
structure Node (p : Path) (st : State Fs) : Prop where
  layout : Layout st.dManager st.fs p
  flat : Flat st.fs p
  root : SparesEngines p st.dManager.rootPath

section Step

variable {p : Path} {st : State Fs} {x y : State Fs × List Event} {endpoint : Endpoint}

/-- What a request does to the files. -/
inductive Effect (p : Path) (d : Datamanager) (fs fs' : Fs) (e : NodeEvent) : Prop
  | runtime (taskid : UInt64) (data : Str) (he : e.runtime = some (taskid, data))
    (hb : e.binary = none)
    (hfs : fs' = (d.runtimePush localFileoperations fs taskid data).2)
  | binary (taskid : UInt64) (data : Str) (he : e.binary = some (taskid, data))
    (hr : e.runtime = none)
    (hfs : fs' = (d.binaryPush localFileoperations fs d.rootPath data).2)
  | other (hr : e.runtime = none) (hb : e.binary = none)
    (hfs : FilesWithin (p ++ [lit "engine"]) fs fs')

theorem Node.accept (h : Node p st) (t : UInt64) (e : Engine) :
    FilesWithin (p ++ [lit "engine"]) st.fs (accept localFileoperations st t e).fs := by
  rw [fs_accept]
  split_ifs
  · exact h.layout.enginePush h.flat ..
  · exact .of_sameTree _ (.refl st.fs)

theorem Node.release (h : Node p st) (t : UInt64) :
    FilesWithin (p ++ [lit "engine"]) st.fs (release localFileoperations st t).fs := by
  rw [fs_release]
  split
  · exact .of_sameTree _ (.refl st.fs)
  · split_ifs
    · exact h.layout.engineRemove h.flat ..
    · exact .of_sameTree _ (.refl st.fs)

theorem Node.taskdep (h : Node p st) (endpoint : Endpoint) (req : Request) (random : UInt64) :
    (process localFileoperations endpoint random st req).2.dManager.rootPath =
        st.dManager.rootPath ∧
      FilesWithin (p ++ [lit "engine"]) st.fs
        (process localFileoperations endpoint random st req).2.fs := by
  have hdoes := process_does localFileoperations endpoint random st req
  cases heff : (Event.mk req (process localFileoperations endpoint random st req).1).effect with
  | none =>
    rw [hdoes.none heff]
    exact ⟨rfl, .of_sameTree _ (.refl st.fs)⟩
  | acquire t e =>
    rw [(hdoes.acquire heff).2]
    exact ⟨rootPath_accept t e, h.accept t e⟩
  | release t =>
    rw [hdoes.release heff]
    exact ⟨rootPath_release t, h.release t⟩

/-- **Everything that a request can do to the files.** -/
theorem Node.step_cases (h : Node p x.1) {e : NodeEvent} (he : nodeStep endpoint x e = .ok y) :
    y.1.dManager.rootPath = x.1.dManager.rootPath ∧
      Effect p x.1.dManager x.1.fs y.1.fs e := by
  cases e with
  | taskdep req random =>
    cases he
    obtain ⟨hroot, hfs⟩ := h.taskdep endpoint req random
    exact ⟨hroot, .other rfl rfl hfs⟩
  | datatrans direction master =>
    obtain ⟨out, hout, heq⟩ := bind_eq_ok.mp he
    cases heq
    refine ⟨rfl, ?_⟩
    have hpull {answer : Except Fault (Datatransfer.Dtsrc × Fs)}
        (hsame : ∀ x', answer = .ok x' → x.1.fs.SameTree x'.2)
        (hok : (answer >>= fun x' => .ok (some x'.1, x'.2)) = .ok out) : x.1.fs.SameTree out.2 := by
      obtain ⟨x', hx', heq⟩ := bind_eq_ok.mp hok
      cases heq
      exact hsame x' hx'
    have hengine : Datatype.engine.toUInt32 ≠ Datatype.endpoint.toUInt32 := by decide
    have hengine' : Datatype.engine.toUInt32 ≠ Datatype.binary.toUInt32 := by decide
    have hendpoint : Datatype.endpoint.toUInt32 ≠ Datatype.binary.toUInt32 := by decide
    unfold processOne at hout
    split_ifs at hout with htype hdir htype' hdir htype'' hdir
    · refine .other ?_ ?_ (.of_sameTree _ (hpull (fun x hx => sameTree_enginePull hx) hout))
      · simp [NodeEvent.runtime, hdir]
      · simp [NodeEvent.binary, hdir]
    · cases hout
      refine .other ?_ ?_ (h.layout.enginePush h.flat ..)
      · simp [NodeEvent.runtime, htype, hengine]
      · simp [NodeEvent.binary, htype, hengine']
    · refine .other ?_ ?_ (.of_sameTree _ (hpull (fun x hx => sameTree_runtimePull hx) hout))
      · simp [NodeEvent.runtime, hdir]
      · simp [NodeEvent.binary, hdir]
    · cases hout
      refine .runtime master.taskid.toUInt64 master.binary ?_ ?_ rfl
      · simp [NodeEvent.runtime, htype', hdir]
      · simp [NodeEvent.binary, htype', hendpoint]
    · refine .other ?_ ?_ (.of_sameTree _ (hpull (fun x hx => sameTree_binaryPull hx) hout))
      · simp [NodeEvent.runtime, hdir]
      · simp [NodeEvent.binary, hdir]
    · cases hout
      refine .binary master.taskid.toUInt64 master.binary ?_ ?_ rfl
      · simp [NodeEvent.binary, htype'', hdir]
      · simp [NodeEvent.runtime, htype']
    · cases hout
      refine .other ?_ ?_ (.of_sameTree _ (.refl _))
      · simp [NodeEvent.runtime, htype']
      · simp [NodeEvent.binary, htype'']

/-! ## Runs -/

theorem Flat.filesWithin {a : Path} {fs fs' : Fs} (h : Flat fs p) (hw : FilesWithin a fs fs') :
    Flat fs' p := fun c hdir => h c (hw.dirs _ hdir)

theorem Flat.withinPath {fs fs' : Fs} {path : Str} (h : Flat fs p)
    (hpath : SparesEngines p path) (hw : WithinPath p path fs fs') : Flat fs' p :=
  fun c hdir => h c (hw.dirs _ (fun b hb => hpath b hb c) hdir)

theorem Node.step (h : Node p x.1) {e : NodeEvent} (he : nodeStep endpoint x e = .ok y) :
    Node p y.1 := by
  obtain ⟨hroot, heff⟩ := h.step_cases he
  have hroot' : SparesEngines p y.1.dManager.rootPath := hroot ▸ h.root
  cases heff with
  | runtime taskid data _ _ hfs =>
    have hw := h.layout.runtimePush taskid data
    rw [← hfs] at hw
    exact ⟨h.layout.keepsDirs hw.keeps (hw.wf h.layout.wf) hroot, h.flat.filesWithin hw, hroot'⟩
  | binary taskid data _ _ hfs =>
    have hw := h.layout.binaryPush_withinPath x.1.dManager.rootPath data
    rw [← hfs] at hw
    exact ⟨h.layout.keepsDirs hw.keeps hw.wf hroot, h.flat.withinPath h.root hw, hroot'⟩
  | other _ _ hw =>
    exact ⟨h.layout.keepsDirs hw.keeps (hw.wf h.layout.wf) hroot, h.flat.filesWithin hw, hroot'⟩

theorem Node.run (h : Node p x.1) {events : List NodeEvent}
    (hrun : run (nodeStep endpoint) x events = .ok y) : Node p y.1 :=
  run_invariant (I := fun x => Node p x.1) (fun _ _ _ h he => h.step he) h hrun

theorem Blank.node (h : Blank st.dManager st.fs p)
    (hroot : SparesEngines p st.dManager.rootPath) : Node p st :=
  ⟨h.toLayout, h.flat, hroot⟩

end Step

theorem newNode_stays : StaysAlong [lit "data"] newNode.dManager.rootPath :=
  Inner.staysAlong ⟨by decide, by decide⟩ _

end Jxtd.Storage
