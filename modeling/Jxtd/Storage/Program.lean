import Jxtd.Storage.Areas
import Jxtd.Storage.Fidelity
import Jxtd.Storage.Fs.Scheduler

/-!
# The program of a storage node

`storage/bin/main.cc`. The manager is initialised first, and after that its backend is chosen: a
backend that is found makes the manager forget its root.

* `localService`, `Backend`: the manager with the scheduler that it makes.
* `backendChoose`: `Datamanager::backend_choose`, on the scheduler and without it.
* `start`: what `main` does before it starts the servers.
* **`backend_local`**: whatever backends are chosen, the files are those of the local service.
* **`unanswered_iff`**: when the taskdep server answers no request at all.
* **`stores_nothing`**: what the datatransfer server then keeps.
-/

namespace Jxtd.Storage

open Lib Posix

/-! ## The scheduler of a manager -/

/-- `Get_local_fileoperations` as callbacks, with `rest` for those that the areas do not use. -/
def localService (rest : Fs.Operations Posix.Fs) : Fs.Operations Posix.Fs :=
  { rest with
    init := none
    openFile := some fun filename flags _ fs => localFileoperations.openFile fs filename flags
    close := some fun fd fs => localFileoperations.close fs fd
    write := some fun fd buf fs => localFileoperations.write fs fd buf
    read := some fun fd count fs =>
      match localFileoperations.read fs fd count with
      | (none, fs) => ((-1, []), fs)
      | (some data, fs) => ((data.length, data), fs)
    remove := some fun filepath fs => localFileoperations.remove fs filepath
    opendir := some fun filename flags _ fs => localFileoperations.opendir fs filename flags
    mkdir := some fun filepath _ fs => localFileoperations.mkdir fs filepath
    closedir := some fun fd fs => localFileoperations.closedir fs fd
    fsize := some fun fd fs => localFileoperations.fsize fs fd
    destroy := none }

/-- The calls of a manager on its scheduler, with the modes of `open` and of `mkdir`. A service that
is deleted fails. -/
def dispatch (s : Fs.Scheduler Posix.Fs) : Operations Posix.Fs where
  openFile fs filename flags := (s.openFile filename flags 0o660 fs).getD (-1, fs)
  close fs fd := (s.close fd fs).getD (-1, fs)
  write fs fd buf := (s.write fd buf fs).getD (-1, fs)
  read fs fd count :=
    let ((n, data), fs) := (s.read fd count fs).getD ((-1, []), fs)
    (if n = -1 then none else some data, fs)
  remove fs filepath := (s.remove filepath fs).getD (-1, fs)
  opendir fs filepath flags := (s.opendir filepath flags 0o770 fs).getD (-1, fs)
  mkdir fs filepath := (s.mkdir filepath 0o770 fs).getD (-1, fs)
  closedir fs fd := (s.closedir fd fs).getD (-1, fs)
  fsize fs fd := (s.fsize fd fs).getD (-1, fs)

/-- The names of the file systems. -/
def serviceNameId : List (Str × ℤ) := [(lit "local", 1)]

/-- A manager with its scheduler, on the files. -/
structure Backend where
  dManager : Datamanager
  scheduler : Fs.Scheduler Posix.Fs
  fs : Posix.Fs

/-- `strategy_choose(Policy::Single, id)` -/
def single (s : Fs.Scheduler Posix.Fs) (id : ℤ) : Fs.Scheduler Posix.Fs :=
  s.strategyChoose .Single id .All [] 0

namespace Backend

/-- The constructor. -/
def new (rest : Fs.Operations Posix.Fs) (fs : Posix.Fs) : Backend :=
  let (_, scheduler) := Fs.Scheduler.registerService {} 1 (localService rest) (lit "local")
  let (scheduler, fs) := Fs.Scheduler.enableService (scheduler, fs) [1]
  ⟨Datamanager.new, single scheduler 1, fs⟩

/-- `backend_choose` -/
def backendChoose (b : Backend) (filesystem : Str) : ℤ × Backend :=
  match serviceNameId.lookup filesystem with
  | none => (-1, b)
  | some id =>
    let b := { b with scheduler := single b.scheduler id }
    match b.scheduler.currentService with
    | none => (-1, { b with scheduler := single b.scheduler 1 })
    | some _ => (0, { b with dManager := { b.dManager with rootPath := [], isInit := false } })

/-- The manager without its scheduler. -/
def state (b : Backend) : State Posix.Fs := ⟨b.dManager, b.fs⟩

end Backend

/-- A call of a function of the manager. -/
inductive Call
  | area (op : AreaOp)
  | backendChoose (filesystem : Str)

/-- One call; the answers are kept. -/
def Backend.step (x : Backend × List Answer) : Call → Except Fault (Backend × List Answer)
  | .area op =>
    (areaStep (dispatch x.1.scheduler) x.1.state op).map fun y =>
      ({ x.1 with dManager := y.2.dManager, fs := y.2.fs }, x.2 ++ [y.1])
  | .backendChoose filesystem =>
    let (n, b) := x.1.backendChoose filesystem
    .ok (b, x.2 ++ [.code n])

/-! ## The manager without its scheduler -/

/-- What `backend_choose` does when the local service is the only one. -/
def Datamanager.backendChoose (d : Datamanager) (filesystem : Str) : ℤ × Datamanager :=
  if filesystem = lit "local" then (0, { d with rootPath := [], isInit := false }) else (-1, d)

/-- One call on the local files; the answers are kept. -/
def localStep (x : State Posix.Fs × List Answer) : Call → Except Fault (State Posix.Fs × List Answer)
  | .area op => areaRun localFileoperations x op
  | .backendChoose filesystem =>
    let (n, d) := x.1.dManager.backendChoose filesystem
    .ok (⟨d, x.1.fs⟩, x.2 ++ [.code n])

section Scheduler

variable {rest : Fs.Operations Posix.Fs} {s : Fs.Scheduler Posix.Fs}

/-- The local service is the only one, and the current one. -/
structure Serves (rest : Fs.Operations Posix.Fs) (s : Fs.Scheduler Posix.Fs) : Prop where
  heap : s.heap 0 = some ⟨true, lit "local", 0, localService rest⟩
  services : s.services.lookup 1 = some 0
  current : s.currentService = some 0

/-- The local service is chosen where it is enabled. -/
theorem serves_single (hheap : s.heap 0 = some ⟨true, lit "local", 0, localService rest⟩)
    (hservices : s.services.lookup 1 = some 0) : Serves rest (single s 1) := by
  refine ⟨hheap, hservices, ?_⟩
  have hfind : s.findService 1 = some (0, ⟨true, lit "local", 0, localService rest⟩) :=
    Fs.findService_eq_some.mpr ⟨hservices, hheap⟩
  have hchoose : (single s 1).currentService =
      ((s.findService 1).filter fun found => found.2.status).map Prod.fst := rfl
  rw [hchoose, hfind]
  rfl

theorem Serves.new (rest : Fs.Operations Posix.Fs) (fs : Posix.Fs) :
    Serves rest (Backend.new rest fs).scheduler := by
  apply serves_single
  · rfl
  · rfl

theorem state_new (rest : Fs.Operations Posix.Fs) (fs : Posix.Fs) :
    (Backend.new rest fs).state = ⟨Datamanager.new, fs⟩ := rfl

/-- A call goes to the callback of the local service. -/
theorem Serves.operate (h : Serves rest s) {α : Type}
    (operator : Fs.Operations Posix.Fs → Option (Posix.Fs → α × Posix.Fs)) (failure : α)
    (fs : Posix.Fs) :
    s.operate operator failure fs = some (((operator (localService rest)).map fun call =>
      call fs).getD (failure, fs)) := by
  rw [Fs.Scheduler.operate, h.current]
  dsimp only
  rw [h.heap, Option.map_some]
  cases operator (localService rest) with
  | none => rfl
  | some call => rfl

/-- **The scheduler passes every call on to the local files.** -/
theorem Serves.dispatch (h : Serves rest s) : dispatch s = localFileoperations := by
  have hread : (Storage.dispatch s).read = localFileoperations.read := by
    funext fs fd count
    simp only [Storage.dispatch, Fs.Scheduler.read, h.operate, localService, Option.map_some,
      Option.getD_some]
    obtain ⟨data, fs'⟩ := localFileoperations.read fs fd count
    cases data with
    | none => rfl
    | some data =>
      have hlen : (data.length : ℤ) ≠ -1 := by omega
      simp [hlen]
  calc Storage.dispatch s
      = { localFileoperations with read := (Storage.dispatch s).read } := by
        simp only [Storage.dispatch, Fs.Scheduler.openFile, Fs.Scheduler.close,
          Fs.Scheduler.write, Fs.Scheduler.remove, Fs.Scheduler.opendir, Fs.Scheduler.mkdir,
          Fs.Scheduler.closedir, Fs.Scheduler.fsize, h.operate]
        rfl
    _ = localFileoperations := by rw [hread]

/-- `backend_choose` keeps the local service, and its answer is that of the name. -/
theorem Serves.backendChoose {b : Backend} (h : Serves rest b.scheduler) (filesystem : Str) :
    Serves rest (b.backendChoose filesystem).2.scheduler ∧
      (b.backendChoose filesystem).1 = (b.dManager.backendChoose filesystem).1 ∧
      (b.backendChoose filesystem).2.state =
        ⟨(b.dManager.backendChoose filesystem).2, b.fs⟩ := by
  have hsingle := serves_single h.heap h.services
  have hlookup : serviceNameId.lookup filesystem =
      if filesystem = lit "local" then some 1 else none := by
    rw [serviceNameId, List.lookup_cons, List.lookup_nil]
    split_ifs with hname
    · rw [hname]
      rfl
    · rw [beq_eq_false_iff_ne.mpr hname]
  rw [Backend.backendChoose, Datamanager.backendChoose, hlookup]
  split_ifs with hname
  · dsimp only
    rw [hsingle.current]
    exact ⟨hsingle, rfl, rfl⟩
  · exact ⟨h, rfl, rfl⟩

end Scheduler

/-- **The files of a manager are the local ones.** In every sequence of calls on a new manager,
also where backends are chosen, the answers and the files are those of the local operations. -/
theorem backend_local (rest : Fs.Operations Posix.Fs) (fs : Posix.Fs) (calls : List Call) :
    (run Backend.step (Backend.new rest fs, []) calls).map (fun x => (x.1.state, x.2)) =
      run localStep (⟨Datamanager.new, fs⟩, []) calls := by
  refine run_map (I := fun x => Serves rest x.1.scheduler) (fun x e h => ?_)
    (fun x e y h he => ?_) (Serves.new rest fs) calls
  · cases e with
    | area op =>
      rw [Backend.step, localStep, areaRun, h.dispatch]
      cases areaStep localFileoperations x.1.state op <;> rfl
    | backendChoose filesystem =>
      obtain ⟨-, hn, hstate⟩ := h.backendChoose filesystem
      have hstep : Backend.step x (.backendChoose filesystem) =
          .ok ((x.1.backendChoose filesystem).2, x.2 ++ [.code (x.1.backendChoose filesystem).1]) :=
        rfl
      have hlocal : localStep (x.1.state, x.2) (.backendChoose filesystem) =
          .ok (⟨(x.1.dManager.backendChoose filesystem).2, x.1.fs⟩,
            x.2 ++ [.code (x.1.dManager.backendChoose filesystem).1]) := rfl
      rw [hstep, hlocal, Except.map, hn, hstate]
  · cases e with
    | area op =>
      rw [Backend.step] at he
      cases harea : areaStep (Storage.dispatch x.1.scheduler) x.1.state op with
      | error f =>
        rw [harea] at he
        cases he
      | ok z =>
        rw [harea] at he
        cases he
        exact h
    | backendChoose filesystem =>
      cases he
      exact (h.backendChoose filesystem).1

/-! ## What main starts -/

/-- The flags of the storage area. -/
structure Flags where
  storPath : Str
  storCreat : Bool
  storBackend : Str

/-- The manager when `main` starts the servers. -/
def startNode (rest : Fs.Operations Posix.Fs) (flags : Flags) (fs : Posix.Fs) : Backend :=
  let b := Backend.new rest fs
  let (_, d, fs) := b.dManager.init (dispatch b.scheduler) b.fs flags.storPath flags.storCreat
  (Backend.backendChoose { b with dManager := d, fs := fs } flags.storBackend).2

/-- The manager has no root: it is reset by the choice of its backend, or never was initialised. -/
def Rootless (flags : Flags) (fs : Posix.Fs) : Prop :=
  flags.storBackend = lit "local" ∨
    (Datamanager.new.init localFileoperations fs flags.storPath flags.storCreat).1 = -1

section Start

variable {rest : Fs.Operations Posix.Fs} {flags : Flags} {fs : Posix.Fs}

theorem state_startNode (rest : Fs.Operations Posix.Fs) (flags : Flags) (fs : Posix.Fs) :
    (startNode rest flags fs).state =
      let out := Datamanager.new.init localFileoperations fs flags.storPath flags.storCreat
      ⟨(out.2.1.backendChoose flags.storBackend).2, out.2.2⟩ := by
  have hserves := Serves.new rest fs
  have hnew := state_new rest fs
  rw [startNode]
  generalize Backend.new rest fs = b at hserves hnew
  have hd : b.dManager = Datamanager.new := congrArg State.dManager hnew
  have hfs : b.fs = fs := congrArg State.fs hnew
  rw [hserves.dispatch, hd, hfs]
  let b' : Backend := { b with
    dManager := (Datamanager.new.init localFileoperations fs flags.storPath flags.storCreat).2.1
    fs := (Datamanager.new.init localFileoperations fs flags.storPath flags.storCreat).2.2 }
  have hb' : Serves rest b'.scheduler := hserves
  exact (hb'.backendChoose flags.storBackend).2.2

/-- The first `init` sets the root, or leaves the manager as it was made. -/
theorem init_new (fs : Posix.Fs) (path : Str) (isNewRoot : Bool) :
    let out := Datamanager.new.init localFileoperations fs path isNewRoot
    out.1 = -1 ∧ out.2.1 = Datamanager.new ∨ out.1 = 0 ∧ out.2.1 = ⟨path, true, ∅, ∅⟩ := by
  unfold Datamanager.init
  dsimp only
  split_ifs
  · exact .inl ⟨rfl, rfl⟩
  · exact .inl ⟨rfl, rfl⟩
  · exact .inr ⟨rfl, rfl⟩
  · exact .inl ⟨rfl, rfl⟩
  · exact .inr ⟨rfl, rfl⟩

/-- `main` sets the root of the manager, or leaves it as it was made. -/
theorem dManager_startNode (rest : Fs.Operations Posix.Fs) (flags : Flags) (fs : Posix.Fs) :
    Rootless flags fs ∧ (startNode rest flags fs).dManager = Datamanager.new ∨
      ¬ Rootless flags fs ∧
        (startNode rest flags fs).dManager = ⟨flags.storPath, true, ∅, ∅⟩ := by
  have hstate : (startNode rest flags fs).dManager = _ :=
    congrArg State.dManager (state_startNode rest flags fs)
  rw [hstate]
  dsimp only
  unfold Datamanager.backendChoose Rootless
  rcases init_new fs flags.storPath flags.storCreat with ⟨hn, hd⟩ | ⟨hn, hd⟩
  · left
    rw [hd]
    refine ⟨.inr hn, ?_⟩
    split_ifs
    · rfl
    · rfl
  · rw [hd, hn]
    split_ifs with hlocal
    · exact .inl ⟨.inl hlocal, rfl⟩
    · exact .inr ⟨not_or.mpr ⟨hlocal, by decide⟩, rfl⟩

end Start

/-! ## The taskdep server -/

/-- The manager is as it was made, and no request was answered. -/
structure Silent (x : State Posix.Fs × List Event) : Prop where
  dManager : x.1.dManager = Datamanager.new
  replies : ∀ e ∈ x.2, e.reply = none

section Silent

variable {rest : Fs.Operations Posix.Fs} {flags : Flags} {fs : Posix.Fs}
  {endpoint : Taskdep.Endpoint} {x y : State Posix.Fs × List Event}

theorem Silent.start (h : Rootless flags fs) : Silent ((startNode rest flags fs).state, []) := by
  rcases dManager_startNode rest flags fs with ⟨-, hd⟩ | ⟨hroot, -⟩
  · exact ⟨hd, by simp⟩
  · exact absurd h hroot

/-- A manager that is not initialised answers nothing and changes nothing. -/
theorem Silent.process (h : Silent x) (req : Taskdep.Request) (random : UInt64) :
    process localFileoperations endpoint random x.1 req = (none, x.1) := by
  rw [Storage.process, h.dManager]
  rfl

theorem Silent.step (h : Silent x) {e : NodeEvent} (he : nodeStep endpoint x e = .ok y) :
    Silent y := by
  cases e with
  | taskdep req random =>
    cases he
    have hprocess : Storage.process localFileoperations endpoint random x.1 req = (none, x.1) :=
      h.process req random
    refine ⟨?_, fun e he => ?_⟩
    · change (Storage.process localFileoperations endpoint random x.1 req).2.dManager = _
      rw [hprocess]
      exact h.dManager
    · rcases List.mem_append.mp he with he | he
      · exact h.replies e he
      · rw [List.mem_singleton.mp he]
        exact congrArg Prod.fst hprocess
  | datatrans direction master =>
    obtain ⟨out, -, hout⟩ := bind_eq_ok.mp he
    cases hout
    exact ⟨h.dManager, h.replies⟩

/-- The release of task `0`. -/
def releaseRequest : Taskdep.Request :=
  (Taskdep.Request.new.setType .management .storage .terminate).setObjectManagement
    Taskdep.Endpoint.new

/-- **When a storage node is silent.** Exactly where `main` names the backend that there is, or the
`init` before it fails, no run of the node answers a request of the taskdep protocol. -/
theorem unanswered_iff (rest : Fs.Operations Posix.Fs) (endpoint : Taskdep.Endpoint) (flags : Flags)
    (fs : Posix.Fs) :
    (∀ events x, run (nodeStep endpoint) ((startNode rest flags fs).state, []) events = .ok x →
      ∀ e ∈ x.2, e.reply = none) ↔ Rootless flags fs := by
  constructor
  · intro hsilent
    by_contra hroot
    obtain ⟨h, -⟩ | ⟨-, hd⟩ := dManager_startNode rest flags fs
    · exact hroot h
    · have hreply := hsilent [.taskdep releaseRequest 0] _ rfl _ (List.mem_append_right _
        List.mem_cons_self)
      have hinit : (startNode rest flags fs).state.dManager.isInit = true := by
        rw [Backend.state, hd]
      rw [show (process localFileoperations endpoint 0 (startNode rest flags fs).state
        releaseRequest).1 = some _ by rw [Storage.process, hinit]; rfl] at hreply
      cases hreply
  · intro hroot events x hrun
    have hx : Silent x := run_invariant (fun x y e h he => h.step he) (Silent.start hroot) hrun
    exact hx.replies

end Silent

/-! ## The datatransfer server -/

section Area

variable {fs : Posix.Fs} {s : Str}

/-- No file is or can be made under a path. -/
def Fileless (fs : Posix.Fs) (s : Str) : Prop := ∀ p, fs.resolve s = some p → fs.IsDir p

/-- A path through a directory of the root that is not there. -/
theorem fileless_below {c : Str} (hclean : Clean c) (hplain : Fs.Plain c) (hdir : ¬ fs.IsDir [c])
    (name : Str) : Fileless fs (slash :: c ++ slash :: name) := by
  intro p hp
  obtain ⟨hne, hwalk⟩ := Option.ite_none_left_eq_some.mp hp
  have hcstr : cstr (slash :: c ++ slash :: name) = slash :: c ++ slash :: cstr name := by
    have hc : ∀ b ∈ slash :: c, (fun b => decide (b ≠ 0)) b = true := by
      intro b hb
      rcases List.mem_cons.mp hb with rfl | hb
      · rfl
      · exact decide_eq_true fun h₀ => hclean.1 (h₀ ▸ hb)
    rw [cstr, List.takeWhile_append_of_pos hc, List.takeWhile_cons_of_pos (by decide)]
    rfl
  rw [hcstr, components_append, components, if_pos rfl, components_of_notMem hclean.2] at hwalk
  have hroot : fs.IsDir [] := rfl
  have hstart : fs.start (slash :: c ++ slash :: cstr name) = [] := rfl
  rw [hstart, List.cons_append, Fs.walk, if_pos hroot, if_pos (.inl rfl), List.singleton_append,
    Fs.walk_plain hplain hroot] at hwalk
  obtain ⟨n, ns, hname⟩ := List.exists_cons_of_ne_nil (components_ne_nil (cstr name))
  rw [hname, Fs.walk, List.nil_append, if_neg hdir] at hwalk
  cases hwalk

/-- A path that ends in a slash. -/
theorem fileless_slash (fs : Posix.Fs) : Fileless fs (lit "/binary/") := by
  intro p hp
  have hwalk : fs.walk [] [[], lit "binary", []] = some p := hp
  have hroot : fs.IsDir [] := rfl
  rw [Fs.walk, if_pos hroot, if_pos (.inl rfl), Fs.walk_plain (by decide) hroot, List.nil_append,
    Fs.walk] at hwalk
  obtain ⟨hdir, hend⟩ := Option.ite_none_right_eq_some.mp hwalk
  rw [if_pos (.inl rfl)] at hend
  cases hend
  exact hdir

theorem Fileless.contents (h : Fileless fs s) : fs.contents s = none := by
  rw [Fs.contents]
  cases hr : fs.resolve s with
  | none => rfl
  | some p =>
    have hdir : fs.node p = some .dir := h p hr
    simp [hdir]

theorem Fileless.pull (h : Fileless fs s) : ∃ fs',
    Datamanager.pullData localFileoperations (fs.openFile s {}).2 (fs.openFile s {}).1 =
      .ok ([], fs') ∧ fs.SameTree fs' := by
  obtain ⟨fs', hpull⟩ := @Local.pull_contents fs s (by simp [h.contents])
  rw [h.contents] at hpull
  exact ⟨fs', hpull, Local.sameTree_pull hpull⟩

theorem Fileless.push (h : Fileless fs s) (data : Str) :
    (Datamanager.pushData localFileoperations (fs.openFile s exclusive).2
      (fs.openFile s exclusive).1 data).2 = fs := by
  rw [Local.push_old]
  intro p hp
  rw [show fs.node p = some .dir from h p hp]
  exact Option.some_ne_none _

theorem Fileless.append (h : Fileless fs s) (data : Str) :
    (Datamanager.pushData localFileoperations (fs.openFile s appending).2
      (fs.openFile s appending).1 data).2 = fs := by
  rcases Local.push_append_frame fs s data with hsame | ⟨p, content, hr, hdir, -⟩
  · exact hsame
  · exact absurd (h p hr) hdir

end Area

/-- The directories are not there that a manager without a root would use. -/
structure Bare (fs : Posix.Fs) : Prop where
  runtime : ¬ fs.IsDir [lit "runtime"]
  engine : ¬ fs.IsDir [lit "engine"]

section Bare

variable {rest : Fs.Operations Posix.Fs} {flags : Flags} {fs fs' : Posix.Fs}
  {endpoint : Taskdep.Endpoint} {x y : State Posix.Fs × List Event}

theorem Bare.sameTree (h : Bare fs) (hs : fs.SameTree fs') : Bare fs' := by
  constructor
  · rw [Fs.IsDir, hs.node]
    exact h.runtime
  · rw [Fs.IsDir, hs.node]
    exact h.engine

theorem Bare.runtimePath (h : Bare fs) (taskid : UInt64) :
    Fileless fs (Datamanager.new.runtimePath taskid) :=
  fileless_below (by decide) (by decide) h.runtime (runtimeFile taskid)

theorem Bare.enginePath (h : Bare fs) (mid name : Str) :
    Fileless fs (Datamanager.new.enginePath mid name) :=
  fileless_below (by decide) (by decide) h.engine (Datamanager.engineFile mid name)

/-- What a source of a request gets and leaves when there is no place for it. -/
def Lost (fs : Posix.Fs) (out : Except Fault (Option Datatransfer.Dtsrc × Posix.Fs)) : Prop :=
  ∃ answer fs', out = .ok (answer, fs') ∧ fs.SameTree fs' ∧
    ∀ dtsrc ∈ answer, dtsrc.master.binary = [] ∧ dtsrc.deps = []

/-- **Every source is lost**: a pull is answered without data, and a push leaves the files as they
are. -/
theorem Bare.processOne (h : Bare fs) (direction : UInt32) (master : Datatransfer.Adtsrc) :
    Lost fs (Datatrans.processOne localFileoperations Datamanager.new direction fs master) := by
  have hempty {dtsrc : Datatransfer.Dtsrc} (hb : dtsrc.master.binary = []) (hd : dtsrc.deps = []) :
      ∀ d ∈ some dtsrc, d.master.binary = [] ∧ d.deps = [] := by
    rintro d ⟨⟩
    exact ⟨hb, hd⟩
  have hpushed (out : Posix.Fs) (hout : out = fs) : Lost fs (.ok (none, out)) :=
    ⟨none, out, rfl, hout ▸ .refl fs, by simp⟩
  unfold Datatrans.processOne
  dsimp only
  split_ifs
  · rw [Datatrans.enginePull]
    dsimp only
    split_ifs
    · obtain ⟨fs', hpull, hsame⟩ := (h.enginePath master.engineattr.1 master.engineattr.2).pull
      have hpull' : Datamanager.new.enginePull localFileoperations fs master.engineattr.1
        master.engineattr.2 = .ok ([], fs') := hpull
      rw [hpull']
      exact ⟨_, fs', rfl, hsame, hempty rfl rfl⟩
    · exact ⟨_, fs, rfl, .refl fs, hempty rfl rfl⟩
  · exact hpushed _ ((h.enginePath master.engineattr.1 master.engineattr.2).push master.binary)
  · obtain ⟨fs', hpull, hsame⟩ := (h.runtimePath master.taskid.toUInt64).pull
    have hpull' : Datamanager.new.runtimePull localFileoperations fs master.taskid.toUInt64 =
      .ok ([], fs') := hpull
    rw [Datatrans.runtimePull, hpull']
    exact ⟨_, fs', rfl, hsame, hempty rfl rfl⟩
  · exact hpushed _ ((h.runtimePath master.taskid.toUInt64).append master.binary)
  · obtain ⟨fs', hpull, hsame⟩ := (fileless_slash fs).pull
    have hpull' : Datamanager.new.binaryPull localFileoperations fs Datamanager.new.rootPath =
      .ok ([], fs') := hpull
    rw [Datatrans.binaryPull, hpull']
    exact ⟨_, fs', rfl, hsame, hempty rfl rfl⟩
  · exact hpushed _ ((fileless_slash fs).push master.binary)
  · exact hpushed fs rfl

/-- A run of a node without a root does not end, and the files stay as they were. -/
theorem Silent.run (h : Silent x) (hbare : Bare x.1.fs) (events : List NodeEvent) :
    ∃ y, run (nodeStep endpoint) x events = .ok y ∧ Silent y ∧ x.1.fs.SameTree y.1.fs := by
  induction events generalizing x with
  | nil => exact ⟨x, rfl, h, .refl x.1.fs⟩
  | cons e events ih =>
    have hstep : ∃ y, nodeStep endpoint x e = .ok y ∧ x.1.fs.SameTree y.1.fs := by
      cases e with
      | taskdep req random =>
        refine ⟨_, rfl, ?_⟩
        change x.1.fs.SameTree (Storage.process localFileoperations endpoint random x.1 req).2.fs
        rw [h.process]
        exact .refl x.1.fs
      | datatrans direction master =>
        obtain ⟨answer, fs', hout, hsame, -⟩ := hbare.processOne direction master
        rw [nodeStep, h.dManager, hout]
        exact ⟨_, rfl, hsame⟩
    obtain ⟨y, hy, hsame⟩ := hstep
    obtain ⟨z, hz, hsilent, hrest⟩ := ih (h.step hy) (hbare.sameTree hsame)
    exact ⟨z, by rw [run_cons_ok hy, hz], hsilent, hsame.trans hrest⟩

/-- **A silent node stores nothing.** Where `main` leaves the manager without a root, and `/runtime`
and `/engine` are no directories, every run of the node leaves the files as they were when it
started, and every source of a datatransfer request is then lost. -/
theorem stores_nothing (hroot : Rootless flags fs) (hbare : Bare (startNode rest flags fs).fs)
    (events : List NodeEvent) :
    ∃ x, run (nodeStep endpoint) ((startNode rest flags fs).state, []) events = .ok x ∧
      (startNode rest flags fs).fs.SameTree x.1.fs ∧ ∀ direction master, Lost x.1.fs
        (Datatrans.processOne localFileoperations x.1.dManager direction x.1.fs master) := by
  obtain ⟨x, hx, hsilent, hsame⟩ := @Silent.run endpoint _ (Silent.start hroot) hbare events
  refine ⟨x, hx, hsame, fun direction master => ?_⟩
  rw [hsilent.dManager]
  exact (hbare.sameTree hsame).processOne direction master

/-- A node at `/data`, with the backend that is the default. -/
def localFlags : Flags := ⟨lit "/data", true, lit "local"⟩

theorem bare_startNode : Bare (startNode {} localFlags ⟨∅, ∅, []⟩).fs :=
  ⟨by decide, by decide⟩

/-- Data that is pushed for task `5` is lost. -/
theorem stores_nothing_localFlags : ∃ x,
    run (nodeStep Taskdep.Endpoint.new) ((startNode {} localFlags ⟨∅, ∅, []⟩).state, [])
      [.datatrans 1 { Datatransfer.Adtsrc.new with type := 1, taskid := 5, binary := [0x01] }] =
        .ok x ∧
    (startNode {} localFlags ⟨∅, ∅, []⟩).fs.SameTree x.1.fs ∧ ∀ direction master, Lost x.1.fs
      (Datatrans.processOne localFileoperations x.1.dManager direction x.1.fs master) :=
  stores_nothing (.inl rfl) bare_startNode _

end Bare

end Jxtd.Storage
