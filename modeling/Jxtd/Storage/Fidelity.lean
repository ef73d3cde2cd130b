import Jxtd.Lib.Except
import Jxtd.Lib.Run
import Jxtd.Storage.Datatrans
import Jxtd.Storage.TaskState

/-!
# Engines across the two storage servers

The taskdep server and the datatransfer server work on one manager under one lock. A request of the
first and one source of a request of the second are the steps of the node.

* `NodeEvent`, `nodeStep`: the steps.
* `keeps_processOne`: what the datatransfer server leaves alone.
* `FileFree`: the condition at the negotiation.
* **`engine_fidelity`**: the engine of a negotiation is what an `EnginePull` for its task returns.
* `push_shadows`: it is not when the file was there before.
-/

namespace Jxtd.Storage

open Lib Posix Taskdep

/-! ## What the datatransfer server leaves alone -/

section Frame

variable {d : Datamanager} {fs : Fs}

theorem grows_openParent (d : Datamanager) (fs : Fs) (path : Str) :
    fs.Grows (d.openParent localFileoperations fs path).2.2 :=
  d.openParent_rel (R := Fs.Grows) Fs.Grows.trans (fun fs s => (Fs.sameTree_openFile fs s rfl).grows) fs path

theorem grows_makeParents (d : Datamanager) (fs : Fs) (path substr : Str) :
    fs.Grows (d.makeParents localFileoperations fs path substr) :=
  d.makeParents_rel (R := Fs.Grows) Fs.Grows.refl Fs.Grows.trans Fs.grows_mkdir fs path substr

theorem grows_binaryPush (d : Datamanager) (fs : Fs) (path binary : Str) :
    fs.Grows (d.binaryPush localFileoperations fs path binary).2 := by
  unfold Datamanager.binaryPush
  refine Fs.Grows.trans ?_ (Local.grows_push _ _ binary)
  split
  · exact .refl fs
  · rename_i pos _
    have hopen := grows_openParent d fs (path.take pos)
    dsimp only
    split_ifs
    · exact (hopen.trans (Fs.grows_mkdir _ _)).trans (grows_makeParents ..)
    · exact hopen.trans (grows_makeParents ..)

/-- The directories and one node are left as they are. -/
structure Keeps (q : Path) (fs fs' : Fs) : Prop where
  dirs : fs.KeepsDirs fs'
  node : ∀ n, fs.node q = some n → fs'.node q = some n

theorem keeps_of_grows {q : Path} {fs fs' : Fs} (h : fs.Grows fs') : Keeps q fs fs' :=
  ⟨h.keepsDirs, fun n => h.node q n⟩

/-- The name of a file of runtime data. -/
def runtimeFile (taskid : UInt64) : Str := lit "Task_" ++ decimal taskid.toNat

theorem clean_runtimeFile (taskid : UInt64) : Clean (runtimeFile taskid) :=
  Clean.append (by decide) (clean_decimal taskid.toNat)

theorem plain_runtimeFile (taskid : UInt64) : Fs.Plain (runtimeFile taskid) :=
  Fs.plain_of_head (by decide : (0x54 : UInt8) ≠ 0x2e)

theorem runtimeFile_ne (taskid t : UInt64) : runtimeFile taskid ≠ anonymousFile t := by
  intro h
  have hhead : (runtimeFile taskid).head? = (anonymousFile t).head? := congrArg List.head? h
  exact absurd hhead (by decide : some (0x54 : UInt8) ≠ some 0x4a)

/-- The path of runtime data leads to no file of another name. -/
theorem resolve_runtimePath_ne (h₀ : 0 ∉ d.rootPath) {taskid : UInt64} {f : Str}
    (hf : runtimeFile taskid ≠ f) (dir : Path) :
    fs.resolve (d.runtimePath taskid) ≠ some (dir ++ [f]) := by
  have hpath : d.runtimePath taskid = (d.rootPath ++ lit "/runtime") ++
      slash :: runtimeFile taskid := by
    rw [Datamanager.runtimePath, List.append_assoc, List.append_assoc]
    rfl
  have hnul : 0 ∉ (d.rootPath ++ lit "/runtime") ++ slash :: runtimeFile taskid := by
    simp only [List.mem_append, List.mem_cons, not_or]
    exact ⟨⟨h₀, by decide⟩, by decide, (clean_runtimeFile taskid).1⟩
  intro hr
  rw [hpath] at hr
  obtain ⟨q, hq⟩ := Fs.resolve_child_inv hnul (clean_runtimeFile taskid).2
    (plain_runtimeFile taskid) hr
  exact hf (List.singleton_inj.mp (List.append_inj' hq rfl).2).symm

/-- Runtime data is appended to one file. -/
theorem keeps_runtimePush {q : Path} {taskid : UInt64}
    (hne : fs.resolve (d.runtimePath taskid) ≠ some q) (runtime : Str) :
    Keeps q fs (d.runtimePush localFileoperations fs taskid runtime).2 := by
  have hframe := Local.push_append_frame fs (d.runtimePath taskid) runtime
  change (d.runtimePush localFileoperations fs taskid runtime).2 = fs ∨ ∃ p content, _ ∧ _ ∧
    (d.runtimePush localFileoperations fs taskid runtime).2 = _ at hframe
  rcases hframe with h | ⟨p, content, hr, hdir, h⟩
  · rw [h]
    exact keeps_of_grows (.refl fs)
  · have hqp : q ≠ p := fun heq => hne (heq ▸ hr)
    rw [h]
    exact ⟨Fs.keepsDirs_set_file hdir _, fun n hn => by rwa [Fs.node_set_ne _ hqp]⟩

theorem sameTree_pullDeps {relative : Str} {engs : List Engine} {fs : Fs}
    {out : List (Datatransfer.Adtsrc × Str) × Fs}
    (h : Datatrans.pullDeps localFileoperations d relative fs engs = .ok out) :
    fs.SameTree out.2 := by
  induction engs generalizing fs out with
  | nil =>
    cases h
    exact .refl fs
  | cons eng engs ih =>
    obtain ⟨x, hx, h⟩ := bind_eq_ok.mp h
    obtain ⟨y, hy, h⟩ := bind_eq_ok.mp h
    have hrest := ih hy
    cases h
    exact (Local.sameTree_pull hx).trans hrest

theorem sameTree_enginePull {master : Datatransfer.Adtsrc} {out : Datatransfer.Dtsrc × Fs}
    (h : Datatrans.enginePull localFileoperations d fs master = .ok out) : fs.SameTree out.2 := by
  unfold Datatrans.enginePull at h
  dsimp only at h
  split_ifs at h
  · obtain ⟨x, hx, h⟩ := bind_eq_ok.mp h
    cases h
    exact Local.sameTree_pull hx
  · split at h
    · cases h
      exact .refl fs
    · obtain ⟨x, hx, h⟩ := bind_eq_ok.mp h
      obtain ⟨y, hy, h⟩ := bind_eq_ok.mp h
      cases h
      exact (Local.sameTree_pull hx).trans (sameTree_pullDeps hy)

theorem sameTree_runtimePull {master : Datatransfer.Adtsrc} {out : Datatransfer.Dtsrc × Fs}
    (h : Datatrans.runtimePull localFileoperations d fs master = .ok out) : fs.SameTree out.2 := by
  obtain ⟨x, hx, h⟩ := bind_eq_ok.mp h
  cases h
  exact Local.sameTree_pull hx

theorem sameTree_binaryPull {master : Datatransfer.Adtsrc} {out : Datatransfer.Dtsrc × Fs}
    (h : Datatrans.binaryPull localFileoperations d fs master = .ok out) : fs.SameTree out.2 := by
  obtain ⟨x, hx, h⟩ := bind_eq_ok.mp h
  cases h
  exact Local.sameTree_pull hx

/-- **The datatransfer server changes files of runtime data only.** -/
theorem keeps_processOne {q : Path} {direction : UInt32} {master : Datatransfer.Adtsrc}
    {out : Option Datatransfer.Dtsrc × Fs}
    (hruntime : fs.resolve (d.runtimePath master.taskid.toUInt64) = some q →
      direction ≠ 0 → master.type ≠ Datatrans.Datatype.endpoint.toUInt32)
    (h : Datatrans.processOne localFileoperations d direction fs master = .ok out) :
    Keeps q fs out.2 := by
  have hpull {answer : Except Fault (Datatransfer.Dtsrc × Fs)}
      (hsame : ∀ x, answer = .ok x → fs.SameTree x.2)
      (hok : (answer >>= fun x => .ok (some x.1, x.2)) = .ok out) : Keeps q fs out.2 := by
    obtain ⟨x, hx, heq⟩ := bind_eq_ok.mp hok
    cases heq
    exact keeps_of_grows (hsame x hx).grows
  unfold Datatrans.processOne at h
  split_ifs at h with _ _ htype hdirection
  · exact hpull (fun x hx => sameTree_enginePull hx) h
  · cases h
    exact keeps_of_grows (Local.grows_push ..)
  · exact hpull (fun x hx => sameTree_runtimePull hx) h
  · cases h
    exact keeps_runtimePush (fun hr => hruntime hr hdirection htype) _
  · exact hpull (fun x hx => sameTree_binaryPull hx) h
  · cases h
    exact keeps_of_grows (grows_binaryPush ..)
  · cases h
    exact keeps_of_grows (.refl fs)

end Frame

/-! ## Steps and runs -/

/-- A request of the taskdep server, with the number that `random_uint64_t` gives, or one source of
a request of the datatransfer server. -/
inductive NodeEvent
  | taskdep (req : Request) (random : UInt64)
  | datatrans (direction : UInt32) (master : Datatransfer.Adtsrc)

/-- One step of the node; the taskdep requests are kept with their replies. -/
def nodeStep (endpoint : Endpoint) (x : State Fs × List Event) :
    NodeEvent → Except Fault (State Fs × List Event)
  | .taskdep req random => .ok (serveOne localFileoperations endpoint x (req, random))
  | .datatrans direction master => do
    let (_, fs) ← Datatrans.processOne localFileoperations x.1.dManager direction x.1.fs master
    .ok ({ x.1 with fs := fs }, x.2)

/-- When a free id `t` is negotiated with a binary, its anonymous file is not there, or holds this
binary. -/
def FileFree (t : UInt64) (st : State Fs) : NodeEvent → Prop
  | .taskdep req _ => ∀ engine, req.taskid = t → req.msg = MsgType.neogiate.toUInt32 →
      req.engine = some engine → engine.binary ≠ [] → st.dManager.taskExist t = false →
      (st.fs.resolve (st.dManager.enginePath anonymousMid (decimal t.toNat))).bind st.fs.node ∈
        [none, some (.file engine.binary)]
  | .datatrans _ _ => True

/-- The states that a node reaches, in runs all of whose steps meet the condition for `t`. -/
inductive NodeRun (endpoint : Endpoint) (t : UInt64) (st : State Fs) :
    State Fs × List Event → Prop
  | start : NodeRun endpoint t st (st, [])
  | step {x y : State Fs × List Event} (h : NodeRun endpoint t st x) (e : NodeEvent)
    (hfree : FileFree t x.1 e) (he : nodeStep endpoint x e = .ok y) : NodeRun endpoint t st y

section Fidelity

variable {endpoint : Endpoint} {t : UInt64} {st : State Fs} {dir : Path}
  {x y : State Fs × List Event}

theorem grows_accept (st : State Fs) (t : UInt64) (e : Engine) :
    st.fs.Grows (accept localFileoperations st t e).fs := by
  rw [fs_accept]
  split_ifs
  · exact Local.grows_push ..
  · exact .refl st.fs

/-- A release removes no directory. -/
theorem keepsDirs_release (st : State Fs) (t : UInt64) :
    st.fs.KeepsDirs (release localFileoperations st t).fs := by
  rw [fs_release]
  split
  · exact .refl st.fs
  · split_ifs
    · exact Fs.keepsDirs_unlink _ _
    · exact .refl st.fs

/-- A release removes at most the anonymous file of its own task. -/
theorem node_release {t : UInt64} {q : Path} (h : ∀ engine, st.dManager.getTaskEngine t = some engine →
      engine.1.1 = anonymousMid →
      st.fs.resolve (st.dManager.enginePath anonymousMid (decimal t.toNat)) ≠ some q) :
    (release localFileoperations st t).fs.node q = st.fs.node q := by
  rw [fs_release]
  split
  · rfl
  · rename_i engine hengine
    split_ifs with hmid
    · exact Fs.node_unlink_ne (h engine hengine hmid)
    · rfl

/-- What holds of task `t` along a run. -/
structure Stored (t : UInt64) (dir : Path) (x : State Fs × List Event) : Prop where
  tables : Tables x.1.dManager x.2
  area : EngineArea x.1.dManager x.1.fs dir
  file : ∀ e, holders x.2 t = some e → e.binary ≠ [] →
    x.1.fs.node (dir ++ [anonymousFile t]) = some (.file e.binary)

/-- The negotiation of `t` stores its binary. -/
theorem Stored.accept (h : Stored t dir x) {e : Engine} (hb : e.binary ≠ [])
    (hfree : (x.1.fs.resolve (x.1.dManager.enginePath anonymousMid (decimal t.toNat))).bind
      x.1.fs.node ∈ [none, some (.file e.binary)]) :
    (accept localFileoperations x.1 t e).fs.node (dir ++ [anonymousFile t]) =
      some (.file e.binary) := by
  have hr := h.area.resolve_anonymous t
  rw [hr, Option.bind_some, List.mem_pair] at hfree
  rw [fs_accept, if_pos hb]
  rcases hfree with hnone | hfile
  · rw [enginePush_new hr hnone]
    exact Fs.node_set _ (Fs.ne_nil_of_node_none hnone) _
  · rw [enginePush_old (by simp [hr, hfile])]
    exact hfile

theorem Stored.taskdep (h : Stored t dir x) {req : Request} {random : UInt64}
    (hfree : FileFree t x.1 (.taskdep req random)) :
    Stored t dir (serveOne localFileoperations endpoint x (req, random)) := by
  have hdoes := process_does localFileoperations endpoint random x.1 req
  have hlog := holders_concat x.2
    ⟨req, (Storage.process localFileoperations endpoint random x.1 req).1⟩
  suffices hmain : EngineArea (serveOne localFileoperations endpoint x (req, random)).1.dManager
      (serveOne localFileoperations endpoint x (req, random)).1.fs dir ∧ ∀ e,
      holders (serveOne localFileoperations endpoint x (req, random)).2 t = some e →
      e.binary ≠ [] → (serveOne localFileoperations endpoint x (req, random)).1.fs.node
        (dir ++ [anonymousFile t]) = some (.file e.binary) from
    ⟨h.tables.step hdoes, hmain.1, hmain.2⟩
  change EngineArea (process localFileoperations endpoint random x.1 req).2.dManager
    (process localFileoperations endpoint random x.1 req).2.fs dir ∧ ∀ e,
    holders (x.2 ++ [⟨req, (process localFileoperations endpoint random x.1 req).1⟩]) t = some e →
    e.binary ≠ [] → (process localFileoperations endpoint random x.1 req).2.fs.node
      (dir ++ [anonymousFile t]) = some (.file e.binary)
  rw [hlog]
  cases heff : (Event.mk req (process localFileoperations endpoint random x.1 req).1).effect with
  | none =>
    rw [hdoes.none heff]
    exact ⟨h.area, h.file⟩
  | acquire t' g =>
    obtain ⟨hexist, hout⟩ := hdoes.acquire heff
    rw [hout]
    refine ⟨h.area.keepsDirs (grows_accept x.1 t' g).keepsDirs (rootPath_accept t' g),
      fun e he hb => ?_⟩
    rcases eq_or_ne t t' with rfl | hne
    · obtain rfl : g = e := by simpa using he
      obtain ⟨⟨htaskid, r, hr, hmsg, -⟩, hengine⟩ := Event.effect_acquire_iff.mp heff
      exact h.accept hb (hfree g htaskid (process_neogiate hr hmsg).1 hengine hb hexist)
    · rw [Lease.step_acquire_ne _ hne] at he
      exact (grows_accept x.1 t' g).node _ _ (h.file e he hb)
  | release t' =>
    rw [hdoes.release heff]
    refine ⟨h.area.keepsDirs (keepsDirs_release x.1 t') (rootPath_release t'), fun e he hb => ?_⟩
    rcases eq_or_ne t t' with rfl | hne
    · simp at he
    · rw [Lease.step_release_ne _ hne] at he
      have hother : x.1.fs.resolve (x.1.dManager.enginePath anonymousMid (decimal t'.toNat)) ≠
          some (dir ++ [anonymousFile t]) := by
        rw [h.area.resolve_anonymous t', Ne, Option.some_inj]
        exact (anonymous_ne hne dir).symm
      rw [node_release fun _ _ _ => hother]
      exact h.file e he hb

theorem Stored.datatrans (h : Stored t dir x) {direction : UInt32}
    {master : Datatransfer.Adtsrc} (he : nodeStep endpoint x (.datatrans direction master) = .ok y) :
    Stored t dir y := by
  obtain ⟨out, hout, heq⟩ := bind_eq_ok.mp he
  have hkeeps : Keeps (dir ++ [anonymousFile t]) x.1.fs out.2 := keeps_processOne
    (fun hr => absurd hr (resolve_runtimePath_ne h.area.root (runtimeFile_ne _ t) dir)) hout
  cases heq
  exact ⟨h.tables, h.area.keepsDirs hkeeps.dirs rfl, fun e hh hb => hkeeps.node _ (h.file e hh hb)⟩

theorem NodeRun.stored (h : NodeRun endpoint t st x) (hstart : Stored t dir (st, [])) :
    Stored t dir x := by
  induction h with
  | start => exact hstart
  | step _ e hfree he ih =>
    cases e with
    | taskdep req random =>
      cases he
      exact ih.taskdep hfree
    | datatrans direction master => exact ih.datatrans he

/-! ## The pull -/

theorem exists_pullDeps {d : Datamanager} {relative : Str} {engs : List Engine} {fs : Fs}
    (h : Local.Small fs) :
    ∃ out, Datatrans.pullDeps localFileoperations d relative fs engs = .ok out := by
  induction engs generalizing fs with
  | nil => exact ⟨_, rfl⟩
  | cons eng engs ih =>
    obtain ⟨fs', hpull⟩ := h.pull (d.enginePath eng.id eng.name)
    obtain ⟨out, hout⟩ := ih (h.sameTree (Local.sameTree_pull hpull))
    exact ⟨_, bind_eq_ok.mpr ⟨_, hpull, bind_eq_ok.mpr ⟨_, hout, rfl⟩⟩⟩

theorem toUInt64_toUInt32 (hlt : t.toNat < 2 ^ 32) : t.toUInt32.toUInt64 = t := by
  rw [← UInt64.toNat_inj, UInt32.toNat_toUInt64, UInt64.toNat_toUInt32, Nat.mod_eq_of_lt hlt]

theorem toUInt32_ne_zero (hpos : t ≠ 0) (hlt : t.toNat < 2 ^ 32) : t.toUInt32 ≠ 0 := by
  intro h
  rw [← toUInt64_toUInt32 hlt, h] at hpos
  exact hpos rfl

/-- An `EnginePull` for a bound task whose engine is stored. -/
theorem enginePull_bound {d : Datamanager} {fs : Fs} (hsmall : Local.Small fs)
    {master : Datatransfer.Adtsrc} (h0 : master.taskid ≠ 0) {mid name : Str} {deps : List Engine}
    (hbound : d.getTaskEngine master.taskid.toUInt64 = some ((mid, name), deps)) {p : Path}
    {data : Str} (hr : fs.resolve (d.enginePath mid name) = some p)
    (hp : fs.node p = some (.file data)) :
    ∃ dtsrc fs', Datatrans.enginePull localFileoperations d fs master = .ok (dtsrc, fs') ∧
      dtsrc.master.binary = data := by
  have hpull : d.enginePull localFileoperations fs mid name = .ok (data, fs) :=
    enginePull_file hr hp (hsmall p data hp)
  have hdeps : ∃ out, Datatrans.pullDeps localFileoperations d
      (lit "./" ++ Datamanager.engineFile mid name) fs deps = .ok out := exists_pullDeps hsmall
  obtain ⟨out, hout⟩ := hdeps
  unfold Datatrans.enginePull
  dsimp only
  rw [if_neg h0, hbound]
  exact ⟨_, _, bind_eq_ok.mpr ⟨_, hpull, bind_eq_ok.mpr ⟨out, hout, rfl⟩⟩, rfl⟩

/-- **Engine fidelity.** In every run of the two servers from a state in which nothing is bound: if
a negotiation of `t` with a binary is in force, all files are shorter than `2 ^ 31` bytes and
`0 < t < 2 ^ 32`, an `EnginePull` for `t` returns this binary. -/
theorem engine_fidelity (hengine : st.dManager.taskEngine = ∅)
    (hextfiles : st.dManager.taskExtfiles = ∅) (harea : EngineArea st.dManager st.fs dir)
    (hrun : NodeRun endpoint t st x) (hpos : t ≠ 0) (hlt : t.toNat < 2 ^ 32) {e : Engine}
    (hbound : holders x.2 t = some e) (hbinary : e.binary ≠ []) (hsmall : Local.Small x.1.fs)
    {master : Datatransfer.Adtsrc} (hmaster : master.taskid = t.toUInt32) :
    ∃ dtsrc fs, Datatrans.enginePull localFileoperations x.1.dManager x.1.fs master =
      .ok (dtsrc, fs) ∧ dtsrc.master.binary = e.binary := by
  have htables : Tables st.dManager [] := tables_nil hengine hextfiles
  have hstored := hrun.stored ⟨htables, harea, fun e he => by cases he⟩
  have hget : x.1.dManager.getTaskEngine master.taskid.toUInt64 =
      some ((anonymousMid, decimal t.toNat), e.deps) := by
    rw [hmaster, toUInt64_toUInt32 hlt, congrFun hstored.tables.engine t, hbound, Option.map_some,
      engineKey, if_pos hbinary]
  exact enginePull_bound hsmall (hmaster ▸ toUInt32_ne_zero hpos hlt) hget
    (hstored.area.resolve_anonymous t) (hstored.file e hbound hbinary)

end Fidelity

/-- The first negotiation of a new node. -/
theorem engine_fidelity_newNode : ∃ dtsrc fs,
    Datatrans.enginePull localFileoperations
      (serveOne localFileoperations Endpoint.new (newNode, []) (oneByteRequest, 9)).1.dManager
      (serveOne localFileoperations Endpoint.new (newNode, []) (oneByteRequest, 9)).1.fs
      { Datatransfer.Adtsrc.new with taskid := 5 } = .ok (dtsrc, fs) ∧
    dtsrc.master.binary = [0x7f] := by
  have hfree : FileFree 5 newNode (.taskdep oneByteRequest 9) :=
    fun _ _ _ _ _ _ => List.mem_cons.mpr (.inl rfl)
  have hrun := (NodeRun.start : NodeRun Endpoint.new 5 newNode (newNode, [])).step
    (.taskdep oneByteRequest 9) hfree rfl
  exact engine_fidelity newNode_fresh.taskEngine newNode_fresh.taskExtfiles newNode_fresh.area hrun
    (by decide) (by decide) rfl (by decide) (Local.small_of_entries rfl) rfl

/-- **A file that was pushed before stays.** The negotiation of task `5` with one binary is answered
`succeed` and an `EnginePull` for it returns the other. -/
theorem push_shadows : ∃ x e dtsrc fs,
    run (nodeStep Endpoint.new) (newNode, [])
      [.datatrans 1 { Datatransfer.Adtsrc.new with
        engineattr := (lit "0000aaaa", lit "5"), binary := [0x00] }, .taskdep oneByteRequest 9] =
      .ok x ∧
    holders x.2 5 = some e ∧ e.binary = [0x7f] ∧
    Datatrans.enginePull localFileoperations x.1.dManager x.1.fs
      { Datatransfer.Adtsrc.new with taskid := 5 } = .ok (dtsrc, fs) ∧
    dtsrc.master.binary = [0x00] ∧ dtsrc.master.binary ≠ e.binary :=
  ⟨_, _, _, _, rfl, rfl, rfl, rfl, rfl, by decide⟩

end Jxtd.Storage
