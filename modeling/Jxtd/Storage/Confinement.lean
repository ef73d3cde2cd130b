import Jxtd.Storage.NodeRuns

/-!
# Confinement of the areas

The paths that the manager hands to the file operations are strings put together from what requests
bring. Nothing looks at them before the file system does.

* `watched`: the local file operations, with the path of everything that is opened, made or removed.
* `BinaryStays`: the names of a path, followed one after the other, end in the binary area.
* **`areas_confined`**: what the binary operations touch for such paths, and what the engine
  operations of a node touch for all ids and names, is in the area.
* `areas_escaped`: a path with `..`, and a root with it.
-/

namespace Jxtd.Storage

open Lib Posix

/-! ## Watching the file operations -/

/-- A call on a path is noted with where the path leads, if it succeeds. -/
def watch (s : Fs × List Path) (path : Str) (out : ℤ × Fs) : ℤ × Fs × List Path :=
  (out.1, out.2, if out.1 = -1 then s.2 else s.2 ++ (s.1.resolve path).toList)

/-- The local file operations, watched. -/
def watched : Operations (Fs × List Path) where
  openFile s path flags := watch s path (localFileoperations.openFile s.1 path flags)
  close s fd := ((Local.close s.1 fd).1, (Local.close s.1 fd).2, s.2)
  write s fd data := ((s.1.write fd data).1, (s.1.write fd data).2, s.2)
  read s fd count := ((s.1.read fd count).1, (s.1.read fd count).2, s.2)
  remove s path := watch s path (localFileoperations.remove s.1 path)
  opendir s path flags := watch s path (localFileoperations.opendir s.1 path flags)
  mkdir s path := watch s (Fs.stripSlashes (cstr path)) (localFileoperations.mkdir s.1 path)
  closedir s fd := ((Local.closedir s.1 fd).1, (Local.closedir s.1 fd).2, s.2)
  fsize s fd := (s.1.fsize fd, s)

/-- Everything that a call opens, makes or removes is below a directory. -/
def Confined (a : Path) (d : Datamanager) (fs : Fs) (op : AreaOp) : Prop :=
  ∀ answer st', areaStep watched ⟨d, fs, []⟩ op = .ok (answer, st') → ∀ q ∈ st'.fs.2, a <+: q

section Watch

variable {s s' : Fs × List Path} {path data : Str} {out : ℤ × Fs} {q : Path} {fd : ℤ}

theorem mem_watch (h : q ∈ (watch s path out).2.2) : q ∈ s.2 ∨ s.1.resolve path = some q := by
  unfold watch at h
  dsimp only at h
  split_ifs at h
  · exact .inl h
  · rcases List.mem_append.mp h with hold | hnew
    · exact .inl hold
    · exact .inr (Option.mem_toList.mp hnew)

/-- Only the call at the beginning of a pull is noted. -/
theorem pullData_watched (h : Datamanager.pullData watched s fd = .ok (data, s')) : s'.2 = s.2 := by
  unfold Datamanager.pullData watched at h
  dsimp only at h
  split_ifs at h
  · cases h
    rfl
  · cases h
    rfl
  · split at h
    · rename_i heq
      cases h
      exact (congrArg (fun x => x.2.2) heq).symm
    · rename_i heq
      cases h
      exact (congrArg (fun x => x.2.2) heq).symm

theorem pushData_watched (s : Fs × List Path) (fd : ℤ) (data : Str) :
    (Datamanager.pushData watched s fd data).2.2 = s.2 := by
  unfold Datamanager.pushData
  split_ifs
  · rfl
  · dsimp only
    split_ifs <;> rfl

/-- What a pull notes is where its path leads. -/
theorem mem_pull {fs : Fs} (h : Datamanager.pullData watched (watched.openFile (fs, []) path {}).2
    (watched.openFile (fs, []) path {}).1 = .ok (data, s')) (hq : q ∈ s'.2) :
    fs.resolve path = some q := by
  rw [pullData_watched h] at hq
  exact (mem_watch hq).resolve_left List.not_mem_nil

theorem mem_push {flags : OpenFlags} (hq : q ∈ (Datamanager.pushData watched
    (watched.openFile s path flags).2 (watched.openFile s path flags).1 data).2.2) :
    q ∈ s.2 ∨ s.1.resolve path = some q := by
  rw [pushData_watched] at hq
  exact mem_watch hq

end Watch

/-! ## The binary area -/

/-- The condition on a call: for a push also on the directories of its path. -/
def BinaryStays (p : Path) : AreaOp → Prop
  | .binaryPull path | .binaryRemove path => Stays p path
  | .binaryPush path _ => StaysAlong p path
  | _ => False

section Binary

variable {d : Datamanager} {fs : Fs} {p q : Path} {b path : Str}

/-- What the loops of `binary_push` touch. -/
theorem watched_makeDirectories (h : Layout d fs p) (hstays : ∀ b ∈ searched path, Stays p b) :
    Layout d (d.makeDirectories watched (fs, []) path).1 p ∧
      ∀ q ∈ (d.makeDirectories watched (fs, []) path).2, p ++ [lit "binary"] <+: q := by
  suffices hkeeps : Layout d (d.makeDirectories watched (fs, []) path).1 p ∧
      ∀ q ∈ (d.makeDirectories watched (fs, []) path).2, q ∈ [] ∨ p ++ [lit "binary"] <+: q from
    ⟨hkeeps.1, fun q hq => (hkeeps.2 q hq).resolve_left List.not_mem_nil⟩
  refine d.makeDirectories_along
    (R := fun s s' => Layout d s.1 p →
      Layout d s'.1 p ∧ ∀ q ∈ s'.2, q ∈ s.2 ∨ p ++ [lit "binary"] <+: q)
    (fun _ h => ⟨h, fun _ hq => .inl hq⟩) ?_ path ?_ ?_ ?_ (fs, []) h
  · intro a b c h₁ h₂ h
    refine ⟨(h₂ (h₁ h).1).1, fun q hq => ?_⟩
    rcases (h₂ (h₁ h).1).2 q hq with hmid | hin
    · exact (h₁ h).2 q hmid
    · exact .inr hin
  · intro s b hb h
    have hm : Makes p path s.1 (s.1.openFile (d.binaryPath b) { directory := true }).2 :=
      .of_sameTree h.wf (Fs.sameTree_openFile s.1 _ rfl)
    refine ⟨h.makes hm, fun q hq => (mem_watch hq).imp_right fun hr => ?_⟩
    rw [h.resolve_binaryTarget hr]
    exact hstays b (mem_searched.mpr hb)
  · intro s b hb h
    refine ⟨h.makes (h.makes_mkdir hb rfl), fun q hq => (mem_watch hq).imp_right fun hr => ?_⟩
    rw [← Fs.resolve_stripSlashes hr, h.target_binary]
    exact hstays b (mem_searched.mpr hb)
  · intro s b hb h
    have htarget := binaryTarget_concat_slash p b
    refine ⟨h.makes (h.makes_mkdir hb htarget), fun q hq => (mem_watch hq).imp_right fun hr => ?_⟩
    rw [← Fs.resolve_stripSlashes hr, h.target_binary, htarget]
    exact hstays b (mem_searched.mpr hb)

/-- **The binary operations stay in their area** for the paths that do. -/
theorem Layout.confined_binary (h : Layout d fs p) {op : AreaOp} (hop : BinaryStays p op) :
    Confined (p ++ [lit "binary"]) d fs op := by
  intro answer st' hstep q hq
  cases op with
  | binaryPull path =>
    obtain ⟨x, hpull, heq⟩ := map_eq_ok.mp hstep
    cases heq
    rw [h.resolve_binaryTarget (mem_pull hpull hq)]
    exact hop
  | binaryPush path binary =>
    cases hstep
    obtain ⟨hl, hmade⟩ := watched_makeDirectories h hop.2
    rcases mem_push hq with hmem | hr
    · exact hmade q hmem
    · rw [hl.resolve_binaryTarget hr]
      exact hop.1
  | binaryRemove path =>
    cases hstep
    rcases mem_watch hq with hmem | hr
    · cases hmem
    · rw [h.resolve_binaryTarget hr]
      exact hop
  | init path isNewRoot => exact hop.elim
  | runtimePull taskid => exact hop.elim
  | runtimePush taskid runtime => exact hop.elim
  | runtimeRemove taskid => exact hop.elim
  | enginePull mid name => exact hop.elim
  | enginePush mid name engine => exact hop.elim
  | engineRemove mid name => exact hop.elim

/-- A pull of another path that finds something, finds it elsewhere. -/
theorem Layout.binaryPull_elsewhere (h : Layout d fs p) (hpath : ¬ Stays p path)
    (hr : fs.resolve (d.binaryPath path) = some q) : ¬ p ++ [lit "binary"] <+: q := by
  rw [h.resolve_binaryTarget hr]
  exact hpath

end Binary

/-! ## The engine area -/

/-- The engine operations. -/
def EngineOp : AreaOp → Prop
  | .enginePull _ _ | .enginePush _ _ _ | .engineRemove _ _ => True
  | _ => False

/-- **The engine operations stay in their area**, for all ids and names. -/
theorem Layout.confined_engine {d : Datamanager} {fs : Fs} {p : Path} (h : Layout d fs p)
    (hflat : Flat fs p) {op : AreaOp} (hop : EngineOp op) :
    Confined (p ++ [lit "engine"]) d fs op := by
  intro answer st' hstep q hq
  cases op with
  | enginePull mid name =>
    obtain ⟨x, hpull, heq⟩ := map_eq_ok.mp hstep
    cases heq
    exact h.engine_within hflat q (mem_pull hpull hq)
  | enginePush mid name engine =>
    cases hstep
    exact h.engine_within hflat q ((mem_push hq).resolve_left List.not_mem_nil)
  | engineRemove mid name =>
    cases hstep
    exact h.engine_within hflat q ((mem_watch hq).resolve_left List.not_mem_nil)
  | init path isNewRoot => exact hop.elim
  | runtimePull taskid => exact hop.elim
  | runtimePush taskid runtime => exact hop.elim
  | runtimeRemove taskid => exact hop.elim
  | binaryPull path => exact hop.elim
  | binaryPush path binary => exact hop.elim
  | binaryRemove path => exact hop.elim

/-! ## Every state of a node -/

/-- **Confinement.** In every state that the two servers reach, the binary operations stay in their
area for the paths that do, and the engine operations in theirs for all ids and names. -/
theorem areas_confined {endpoint : Taskdep.Endpoint} {st : State Fs} {p : Path} (h : Node p st)
    {events : List NodeEvent} {x : State Fs × List Event}
    (hrun : run (nodeStep endpoint) (st, []) events = .ok x) :
    (∀ op, BinaryStays p op → Confined (p ++ [lit "binary"]) x.1.dManager x.1.fs op) ∧
      ∀ op, EngineOp op → Confined (p ++ [lit "engine"]) x.1.dManager x.1.fs op := by
  have hx : Node p x.1 := Node.run h hrun
  exact ⟨fun op hop => hx.layout.confined_binary hop,
    fun op hop => hx.layout.confined_engine hx.flat hop⟩

/-- A binary and an engine, after a push of runtime data. -/
theorem areas_confined_newNode : ∃ x, run (nodeStep Taskdep.Endpoint.new) (newNode, [])
      [.datatrans 1 { Datatransfer.Adtsrc.new with
        type := Datatrans.Datatype.endpoint.toUInt32, taskid := 5 }] = .ok x ∧
    Confined [lit "data", lit "binary"] x.1.dManager x.1.fs (.binaryPush (lit "a/../b") []) ∧
    Confined [lit "data", lit "engine"] x.1.dManager x.1.fs (.enginePush (lit "../..") [] []) := by
  refine ⟨_, rfl, ?_⟩
  have hstays : BinaryStays [lit "data"] (.binaryPush (lit "a/../b") []) :=
    ⟨by decide, by decide +kernel⟩
  have hrun : run (nodeStep Taskdep.Endpoint.new) (newNode, [])
      [.datatrans 1 { Datatransfer.Adtsrc.new with
        type := Datatrans.Datatype.endpoint.toUInt32, taskid := 5 }] = .ok _ := rfl
  have hconfined := areas_confined (newNode_blank.node newNode_stays.sparesEngines) hrun
  exact ⟨hconfined.1 _ hstays, hconfined.2 _ trivial⟩

theorem not_confined {a q : Path} {d : Datamanager} {fs : Fs} {op : AreaOp} {noted : List Path}
    (h : (areaStep watched ⟨d, fs, []⟩ op).map (fun x => x.2.fs.2) = .ok noted) (hq : q ∈ noted)
    (hout : ¬ a <+: q) : ¬ Confined a d fs op := by
  obtain ⟨x, hx, rfl⟩ := map_eq_ok.mp h
  intro hconfined
  exact hout (hconfined x.1 x.2 hx q hq)

/-- A new node with the root `../engine/JXTDENGINE_a/r`. -/
def upNode : State Fs :=
  let fs := ((Fs.mk ∅ ∅ [lit "w"]).set [lit "w"] .dir).set [lit "engine"] .dir
  let fs := fs.set [lit "engine", lit "JXTDENGINE_a"] .dir
  let x := Datamanager.new.init localFileoperations fs (lit "../engine/JXTDENGINE_a/r") true
  ⟨x.2.1, x.2.2⟩

/-- **Paths with `..` lead out of the areas.** A binary is pushed beside its area. After a push of a
binary to a node whose root begins with `..`, an engine is. -/
theorem areas_escaped :
    ¬ Confined [lit "data", lit "binary"] newNode.dManager newNode.fs
      (.binaryPush (lit "../x") [0x01]) ∧
    ∃ x, run (nodeStep Taskdep.Endpoint.new) (upNode, []) [.datatrans 1
        { Datatransfer.Adtsrc.new with type := Datatrans.Datatype.binary.toUInt32 }] = .ok x ∧
      ¬ Confined [lit "engine", lit "JXTDENGINE_a", lit "r", lit "engine"] x.1.dManager x.1.fs
        (.enginePush (lit "a/../../x") (lit "y") [0x02]) := by
  have hbinary : (areaStep watched ⟨newNode.dManager, newNode.fs, []⟩
      (.binaryPush (lit "../x") [0x01])).map (fun x => x.2.fs.2) =
        .ok [[lit "data"], [lit "data", lit "x"]] := by
    decide +kernel
  refine ⟨not_confined hbinary (List.mem_cons_of_mem _ List.mem_cons_self) (by decide), _, rfl, ?_⟩
  have hnoted : [lit "engine", lit "JXTDENGINE_a", lit "r", lit "x_y.so"] ∈
      [[lit "engine", lit "JXTDENGINE_a", lit "r", lit "x_y.so"]] := List.mem_cons_self
  refine not_confined ?_ hnoted (by decide)
  decide +kernel

end Jxtd.Storage
