import Jxtd.Computation.Infer.Taskmanager
import Jxtd.Lib.Adjacency

/-!
# The taskdep server of the cluster

One request of the management at a time. A deployment registers the task first and looks at its
trigger and its dependencies afterwards.

* `deploy`, `process`: the branches of the handler.
* `registered`: the manager after a deployment, with the row of the new task.
* **`Effect`**, **`process_effect`**: everything that one request can do to the manager.
-/

namespace Jxtd.Computation

open Lib Taskdep Infer

/-- `DrccpServerManager`, by the names of the servers that are loaded. -/
structure DrccpServerManager where
  servers : List Str

/-- `DrccpServerManager::submit`: the request whose dump is the payload, when the server is known. -/
def DrccpServerManager.submit (manager : DrccpServerManager) (name : Str) (req : SubmitRequest) :
    Option SubmitRequest :=
  if name ∈ manager.servers then some req else none

/-- `Taskmanager::submit`; nothing for a null pointer. -/
def submit (manager : DrccpServerManager) (name : Str) (tm : Taskmanager) (taskid : UInt64) :
    Except Fault (Option SubmitRequest) :=
  match tm.submit taskid with
  | .error f => .error f
  | .ok (.submitted req) => .ok (manager.submit name req)
  | .ok _ => .ok none

/-- What a request leads to: the reply, the submission that is started, and the manager. -/
structure Outcome where
  reply : Option Response
  started : Option SubmitRequest
  manager : Taskmanager

/-- `remove_task(taskid, false)` after a deployment that failed. -/
def undo (tm : Taskmanager) (taskid : UInt64) (resp : Response) (status : DeployStatus) :
    Except Fault (Response × Option SubmitRequest × Taskmanager) :=
  match tm.removeTask taskid false with
  | .error f => .error f
  | .ok (tm, _) => .ok (resp.setDeployStatus status, none, tm)

/-- A task that is registered, by its trigger. -/
def trigger (manager : DrccpServerManager) (name : Str) (tm : Taskmanager) (taskid : UInt64)
    (attr : Attr) (resp : Response) :
    Except Fault (Response × Option SubmitRequest × Taskmanager) :=
  if attr.trigger = Trigger.create.toUInt32 then
    match submit manager name tm taskid with
    | .error f => .error f
    | .ok (some sub) =>
      .ok ((resp.setDeployStatus .succeed).setDeployTaskstatus .triggered, some sub, tm)
    | .ok none => undo tm taskid resp .err
  else if attr.trigger = Trigger.deps.toUInt32 then
    match tm.addDeps taskid attr.deps with
    | .error f => .error f
    | .ok (judge, tm) =>
      if judge = -1 then undo tm taskid resp .depsbroken
      else .ok ((resp.setDeployStatus .succeed).setDeployTaskstatus .deployed, none, tm)
  else .ok ((resp.setDeployStatus .succeed).setDeployTaskstatus .deployed, none, tm)

/-- The call of `deploy_task` in the branch `deploy`. -/
def register (tm : Taskmanager) (taskid : UInt64) (datasource : Datasource) (attr : Attr) :
    ℤ × Taskmanager :=
  let src := datasource.src
  let dest := datasource.dest
  let inputData := if src.type = lit "data" then src.input else []
  let inputPath := if src.type = lit "data" then [] else src.input
  let outputPath := if attr.virtstorage then [] else dest.output
  match attr.period with
  | none =>
    tm.deployTask taskid inputPath inputData outputPath dest.directorypolicy dest.emptypolicy
      0 0 0 []
  | some period =>
    tm.deployTask taskid inputPath inputData outputPath dest.directorypolicy dest.emptypolicy
      period.interval period.resultpolicy period.triggerpolicy period.backupid

/-- The branch `deploy`. -/
def deploy (manager : DrccpServerManager) (name : Str) (tm : Taskmanager) (taskid : UInt64)
    (datasource : Datasource) (attr : Attr) (resp : Response) :
    Except Fault (Response × Option SubmitRequest × Taskmanager) :=
  if datasource.src.type ≠ lit "data" ∧ datasource.src.type ≠ lit "endpoint" then
    .ok (resp.setDeployStatus .illegal, none, tm)
  else
    let (judge, tm) := register tm taskid datasource attr
    if judge = -1 then .ok (resp.setDeployStatus .illegal, none, tm)
    else trigger manager name tm taskid attr resp

/-- The handler; without a reply the manager is as before. -/
def process (endpoint : Endpoint) (manager : DrccpServerManager) (name : Str) (tm : Taskmanager)
    (req : Request) : Except Fault Outcome :=
  let finish (management : Endpoint) (resp : Response) : Response :=
    ((resp.setTaskid req.taskid).setObjectManagement management).setObjectCluster endpoint
  match req.object.management with
  | none => .ok ⟨none, none, tm⟩
  | some management =>
    if req.src ≠ AddrType.management.toUInt32 ∨ req.dest ≠ AddrType.cluster.toUInt32 then
      .ok ⟨none, none, tm⟩
    else if req.msg = MsgType.deploy.toUInt32 then
      match req.attr, req.datasource with
      | some attr, some datasource =>
        match deploy manager name tm req.taskid datasource attr
          (Response.new.setType .cluster .management .deploy) with
        | .error f => .error f
        | .ok (resp, started, tm) => .ok ⟨some (finish management resp), started, tm⟩
      | _, _ => .ok ⟨none, none, tm⟩
    else if req.msg = MsgType.terminate.toUInt32 then
      match tm.removeTask req.taskid false with
      | .error f => .error f
      | .ok (tm, _) =>
        .ok ⟨some (finish management (Response.new.setType .cluster .management .terminate)), none,
          tm⟩
    else if req.msg = MsgType.trigger.toUInt32 then
      match submit manager name tm req.taskid with
      | .error f => .error f
      | .ok started =>
        .ok ⟨some (finish management (Response.new.setType .cluster .management .trigger)), started,
          tm⟩
    else .ok ⟨none, none, tm⟩

/-! ## A new task -/

/-- A new task, with its row of the matrix. -/
def registered (tm : Taskmanager) (taskid : UInt64) (info : Taskinfo) (row : List Bool) :
    Taskmanager :=
  { tm with tasks := tm.tasks.insert taskid info, edges := grow tm.edges row }

variable {tm : Taskmanager} {taskid : UInt64} {info : Taskinfo} {row : List Bool}

theorem size_insert (h : taskid ∉ tm.tasks) (info : Taskinfo) :
    (tm.tasks.insert taskid info).entries.length = tm.size + 1 := by
  rw [AList.entries_insert_of_notMem h, List.length_cons]
  rfl

theorem register_old (h : taskid ∈ tm.tasks) (datasource : Datasource) (attr : Attr) :
    register tm taskid datasource attr = (-1, tm) := by
  unfold register
  cases attr.period with
  | none => exact if_pos h
  | some period => exact if_pos h

theorem register_new (h : taskid ∉ tm.tasks) (datasource : Datasource) (attr : Attr) :
    ∃ info, info.depPos = tm.size ∧ register tm taskid datasource attr =
      (0, registered tm taskid info (List.replicate (tm.size + 1) false)) := by
  have hdeploy (ip d op : Str) (dp ep p rp tp : UInt32) (b : List UInt32) :
      ∃ info, info.depPos = tm.size ∧ tm.deployTask taskid ip d op dp ep p rp tp b =
        (0, registered tm taskid info (List.replicate (tm.size + 1) false)) := by
    refine ⟨⟨tm.size, ip, d, op, dp, ep, p, b, rp, tp⟩, rfl, ?_⟩
    rw [Taskmanager.deployTask, if_neg h]
    dsimp only
    rw [size_insert h]
    rfl
  unfold register
  cases attr.period with
  | none => exact hdeploy ..
  | some period => exact hdeploy ..

/-- The manager without a task. -/
def removed (tm : Taskmanager) (taskid : UInt64) (info : Taskinfo) : Taskmanager :=
  { tm with tasks := tm.tasks.erase taskid, edges := shrink tm.edges info.depPos }

theorem eraseTask_square {n : ℕ} (hsq : Square (n + 1) tm.edges) (hpos : info.depPos < n + 1)
    (taskid : UInt64) : tm.eraseTask taskid info = .ok (removed tm taskid info) := by
  have hall : (tm.edges.eraseIdx info.depPos).all
      fun single_edge => info.depPos < single_edge.length := by
    rw [List.all_eq_true]
    intro r hr
    rw [decide_eq_true_eq, hsq.cols r (List.mem_of_mem_eraseIdx hr)]
    exact hpos
  rw [Taskmanager.eraseTask, if_pos (hsq.rows ▸ hpos)]
  dsimp only
  rw [if_pos hall]
  rfl

theorem of_eraseTask {tm' : Taskmanager} (h : tm.eraseTask taskid info = .ok tm') :
    info.depPos < tm.edges.length ∧ tm' = removed tm taskid info := by
  unfold Taskmanager.eraseTask at h
  dsimp only at h
  split_ifs at h with hlt hall
  cases h
  exact ⟨hlt, rfl⟩

/-- **A failed deployment is undone exactly**: the last row goes, and with it all that was set. -/
theorem removeTask_registered (hsq : Square tm.size tm.edges) (h : taskid ∉ tm.tasks)
    (hpos : info.depPos = tm.size) (hrow : row.length = tm.size + 1) :
    (registered tm taskid info row).removeTask taskid false = .ok (tm, none) := by
  have hlookup : (registered tm taskid info row).tasks.lookup taskid = some info :=
    AList.lookup_insert _
  have hsq' : Square (tm.size + 1) (registered tm taskid info row).edges := hsq.grow hrow
  have hremoved : removed (registered tm taskid info row) taskid info = tm := by
    have herase : (tm.tasks.insert taskid info).erase taskid = tm.tasks := by
      apply AList.ext
      show List.kerase taskid (tm.tasks.insert taskid info).entries = tm.tasks.entries
      rw [AList.entries_insert_of_notMem h]
      exact List.eraseP_cons_of_pos (by simp)
    show { tm with
      tasks := (tm.tasks.insert taskid info).erase taskid
      edges := shrink (grow tm.edges row) info.depPos } = tm
    rw [herase, hpos, shrink_grow hsq]
  have hlt : info.depPos < tm.size + 1 := by omega
  have herase := eraseTask_square hsq' hlt taskid
  rw [hremoved] at herase
  rw [Taskmanager.removeTask, hlookup]
  simp only [herase]
  rfl

theorem undo_registered (hsq : Square tm.size tm.edges) (h : taskid ∉ tm.tasks)
    (hpos : info.depPos = tm.size) (hrow : row.length = tm.size + 1) (resp : Response)
    (status : DeployStatus) : undo (registered tm taskid info row) taskid resp status =
      .ok (resp.setDeployStatus status, none, tm) := by
  rw [undo, removeTask_registered hsq h hpos hrow]

/-! ## The dependencies of a new task -/

/-- One more dependency in the row of the new task. -/
theorem setEdge_registered (hsq : Square tm.size tm.edges) {j : ℕ} {edges : List (List Bool)}
    (h : setEdge (registered tm taskid info row).edges tm.size j = .ok edges) :
    j < row.length ∧ { registered tm taskid info row with edges := edges } =
      registered tm taskid info (row.set j true) := by
  have hlen : (tm.edges.map fun r => r ++ [false]).length = tm.size := by simp [hsq.rows]
  have hget : (registered tm taskid info row).edges[tm.size]? = some row := by
    show (grow tm.edges row)[tm.size]? = some row
    rw [grow, List.getElem?_append_right hlen.le, hlen]
    simp
  unfold setEdge at h
  rw [hget] at h
  dsimp only at h
  split_ifs at h with hj
  cases h
  refine ⟨hj, ?_⟩
  have hset : (grow tm.edges row).set tm.size (row.set j true) = grow tm.edges (row.set j true) := by
    rw [grow, List.set_append_right _ _ hlen.le, hlen]
    simp [grow]
  show { registered tm taskid info row with
    edges := (grow tm.edges row).set tm.size (row.set j true) } = _
  rw [hset]
  rfl

/-- The row that the loop of `add_deps` leaves: a true entry was there or is the position of a
dependency, and if all dependencies are known, the position of each is true. -/
theorem addDepsLoop_registered (hsq : Square tm.size tm.edges) {deps : List UInt64} {judge : ℤ}
    {tm' : Taskmanager} (hrow : row.length = tm.size + 1)
    (h : (registered tm taskid info row).addDepsLoop tm.size deps = .ok (judge, tm')) :
    ∃ row', tm' = registered tm taskid info row' ∧ row'.length = tm.size + 1 ∧
      (∀ j : ℕ, row[j]?.getD false = true → row'[j]?.getD false = true) ∧
      (∀ j : ℕ, row'[j]?.getD false = true → row[j]?.getD false = true ∨
        ∃ d ∈ deps, ∃ it, (tm.tasks.insert taskid info).lookup d = some it ∧ it.depPos = j) ∧
      ((judge = -1 ∧ ∃ d ∈ deps, (tm.tasks.insert taskid info).lookup d = none) ∨
        judge = 0 ∧ ∀ d ∈ deps, ∃ it, (tm.tasks.insert taskid info).lookup d = some it ∧
          row'[it.depPos]?.getD false = true) := by
  induction deps generalizing row with
  | nil =>
    cases h
    exact ⟨row, rfl, hrow, fun _ hj => hj, fun _ hj => .inl hj, .inr ⟨rfl, by simp⟩⟩
  | cons dep deps ih =>
    rw [Taskmanager.addDepsLoop] at h
    cases hdep : (tm.tasks.insert taskid info).lookup dep with
    | none =>
      rw [show (registered tm taskid info row).tasks.lookup dep = none from hdep] at h
      cases h
      exact ⟨row, rfl, hrow, fun _ hj => hj, fun _ hj => .inl hj,
        .inl ⟨rfl, dep, List.mem_cons_self, hdep⟩⟩
    | some it =>
      rw [show (registered tm taskid info row).tasks.lookup dep = some it from hdep] at h
      dsimp only at h
      split at h
      · cases h
      · rename_i edges hedges
        obtain ⟨hlt, heq⟩ := setEdge_registered hsq hedges
        rw [heq] at h
        have hself : (row.set it.depPos true)[it.depPos]?.getD false = true := by
          rw [List.getElem?_set_self hlt]
          rfl
        obtain ⟨row', htm', hlen, hkeep, honly, hdeps⟩ := ih (by rwa [List.length_set]) h
        refine ⟨row', htm', hlen, fun j hj => hkeep j ?_, fun j hj => ?_, ?_⟩
        · rcases eq_or_ne it.depPos j with rfl | hne
          · exact hself
          · rwa [List.getElem?_set_ne hne]
        · rcases honly j hj with hset | ⟨d, hd, hit⟩
          · rcases eq_or_ne it.depPos j with rfl | hne
            · exact .inr ⟨dep, List.mem_cons_self, it, hdep, rfl⟩
            · rw [List.getElem?_set_ne hne] at hset
              exact .inl hset
          · exact .inr ⟨d, List.mem_cons_of_mem _ hd, hit⟩
        · rcases hdeps with ⟨hjudge, d, hd, hnone⟩ | ⟨hjudge, hall⟩
          · exact .inl ⟨hjudge, d, List.mem_cons_of_mem _ hd, hnone⟩
          · refine .inr ⟨hjudge, List.forall_mem_cons.mpr ⟨⟨it, hdep, hkeep _ hself⟩, hall⟩⟩

/-! ## The effect of one request -/

/-- The row of a new task: the positions of the tasks it waits for. -/
structure DepsRow (tm : Taskmanager) (taskid : UInt64) (info : Taskinfo) (attr : Attr)
    (row : List Bool) : Prop where
  length : row.length = tm.size + 1
  only : ∀ j : ℕ, row[j]?.getD false = true → attr.trigger = Trigger.deps.toUInt32 ∧
    ∃ d ∈ attr.deps, ∃ it, (tm.tasks.insert taskid info).lookup d = some it ∧ it.depPos = j
  all : attr.trigger = Trigger.deps.toUInt32 → ∀ d ∈ attr.deps, ∃ it,
    (tm.tasks.insert taskid info).lookup d = some it ∧ row[it.depPos]?.getD false = true

/-- A reply to a deployment with this status. -/
def HasStatus (resp : Response) (status : DeployStatus) : Prop :=
  ∃ deploy, resp.deploy = some deploy ∧ deploy.status = status.toUInt32

/-- A new task that waits for none. -/
theorem depsRow_false (tm : Taskmanager) (taskid : UInt64) (info : Taskinfo) {attr : Attr}
    (h : attr.trigger ≠ Trigger.deps.toUInt32) :
    DepsRow tm taskid info attr (List.replicate (tm.size + 1) false) := by
  refine ⟨List.length_replicate .., fun j hj => ?_, fun htrigger => absurd htrigger h⟩
  rw [List.getElem?_replicate] at hj
  split_ifs at hj
  · cases hj
  · cases hj

/-- What a trigger makes of a task that has just been registered: it is undone, or it stays with a
row of dependencies. -/
theorem trigger_registered (hsq : Square tm.size tm.edges) (hnew : taskid ∉ tm.tasks)
    (hpos : info.depPos = tm.size) {manager : DrccpServerManager} {name : Str} {attr : Attr}
    {resp resp' : Response} {started : Option SubmitRequest} {tm' : Taskmanager}
    (h : trigger manager name
      (registered tm taskid info (List.replicate (tm.size + 1) false)) taskid attr resp =
        .ok (resp', started, tm')) :
    (tm' = tm ∧ (attr.trigger = Trigger.deps.toUInt32 →
      ∃ d ∈ attr.deps, (tm.tasks.insert taskid info).lookup d = none)) ∨
    ∃ row, tm' = registered tm taskid info row ∧ DepsRow tm taskid info attr row ∧
      HasStatus resp' .succeed := by
  have hlen : (List.replicate (tm.size + 1) false).length = tm.size + 1 := List.length_replicate ..
  unfold trigger at h
  split_ifs at h with hcreate hdeps
  · have hno : attr.trigger ≠ Trigger.deps.toUInt32 := by
      rw [hcreate]
      decide
    split at h
    · cases h
    · cases h
      exact .inr ⟨_, rfl, depsRow_false tm taskid info hno, _, rfl, rfl⟩
    · rw [undo_registered hsq hnew hpos hlen] at h
      cases h
      exact .inl ⟨rfl, fun htrigger => absurd htrigger hno⟩
  · rw [Taskmanager.addDeps, show (registered tm taskid info _).tasks.lookup taskid = some info from
      AList.lookup_insert _] at h
    dsimp only at h
    rw [hpos] at h
    split at h
    · cases h
    · rename_i judge tm₁ hadd
      obtain ⟨row, rfl, hrow, -, honly, hall⟩ := addDepsLoop_registered hsq hlen hadd
      split_ifs at h with hjudge
      · rw [undo_registered hsq hnew hpos hrow] at h
        cases h
        refine .inl ⟨rfl, fun _ => ?_⟩
        rcases hall with ⟨-, hnone⟩ | ⟨h0, -⟩
        · exact hnone
        · omega
      · cases h
        refine .inr ⟨row, rfl, ⟨hrow, fun j hj => ⟨hdeps, ?_⟩, fun _ => ?_⟩, _, rfl, rfl⟩
        · refine (honly j hj).resolve_left fun hfalse => ?_
          rw [List.getElem?_replicate] at hfalse
          split_ifs at hfalse
          · cases hfalse
          · cases hfalse
        · rcases hall with ⟨h0, -⟩ | ⟨-, hall⟩
          · exact absurd h0 hjudge
          · exact hall
  · cases h
    exact .inr ⟨_, rfl, depsRow_false tm taskid info hdeps, _, rfl, rfl⟩

/-- A removal, with or without the request to the storage. -/
theorem of_removeTask {send : Bool} {out : Taskmanager × Option Request}
    (h : tm.removeTask taskid send = .ok out) : out.1 = tm ∨
      ∃ info, tm.tasks.lookup taskid = some info ∧ info.depPos < tm.edges.length ∧
        out.1 = removed tm taskid info := by
  unfold Taskmanager.removeTask at h
  split at h
  · cases h
    exact .inl rfl
  · rename_i info hinfo
    split at h
    · cases h
    · rename_i tm' herase
      cases h
      obtain ⟨hlt, hremoved⟩ := of_eraseTask herase
      exact .inr ⟨info, hinfo, hlt, hremoved⟩

/-- The checks of a deployment before the task is registered. -/
structure Registers (req : Request) (attr : Attr) : Prop where
  management : req.object.management ≠ none
  src : req.src = AddrType.management.toUInt32
  dest : req.dest = AddrType.cluster.toUInt32
  msg : req.msg = MsgType.deploy.toUInt32
  attr : req.attr = some attr
  datasource : ∃ datasource, req.datasource = some datasource ∧
    (datasource.src.type = lit "data" ∨ datasource.src.type = lit "endpoint")

/-- Everything that one request can do to the manager. -/
inductive Effect (tm : Taskmanager) (req : Request) (out : Outcome) : Prop
  /-- Nothing; a deployment that waits for its dependencies has one that is unknown. -/
  | same (manager : out.manager = tm)
    (broken : ∀ attr, Registers req attr → req.taskid ∉ tm.tasks →
      attr.trigger = Trigger.deps.toUInt32 → ∃ d ∈ attr.deps, d ∉ tm.tasks ∧ d ≠ req.taskid)
  /-- The task is removed. -/
  | removed (info : Taskinfo) (lookup : tm.tasks.lookup req.taskid = some info)
    (pos : info.depPos < tm.edges.length) (manager : out.manager = Computation.removed tm req.taskid info)
    (reply : ∀ resp, out.reply = some resp → resp.deploy = none)
    (msg : req.msg ≠ MsgType.deploy.toUInt32)
  /-- The task is deployed. -/
  | registered (attr : Attr) (info : Taskinfo) (row : List Bool) (checks : Registers req attr)
    (new : req.taskid ∉ tm.tasks) (pos : info.depPos = tm.size)
    (manager : out.manager = Computation.registered tm req.taskid info row)
    (deps : DepsRow tm req.taskid info attr row)
    (reply : ∀ resp, out.reply = some resp → HasStatus resp .succeed)

theorem deploy_effect (hsq : Square tm.size tm.edges) {manager : DrccpServerManager} {name : Str}
    {datasource : Datasource} {attr : Attr} {resp resp' : Response}
    {started : Option SubmitRequest} {tm' : Taskmanager}
    (h : deploy manager name tm taskid datasource attr resp = .ok (resp', started, tm')) :
    (tm' = tm ∧ (datasource.src.type = lit "data" ∨ datasource.src.type = lit "endpoint" →
      taskid ∉ tm.tasks → attr.trigger = Trigger.deps.toUInt32 →
        ∃ d ∈ attr.deps, d ∉ tm.tasks ∧ d ≠ taskid)) ∨
    (datasource.src.type = lit "data" ∨ datasource.src.type = lit "endpoint") ∧
      taskid ∉ tm.tasks ∧ ∃ info row, info.depPos = tm.size ∧
        tm' = registered tm taskid info row ∧ DepsRow tm taskid info attr row ∧
        HasStatus resp' .succeed := by
  unfold deploy at h
  split_ifs at h with htype
  · cases h
    exact .inl ⟨rfl, fun hok => absurd hok (not_or.mpr htype)⟩
  · have hok : datasource.src.type = lit "data" ∨ datasource.src.type = lit "endpoint" := by
      by_contra hno
      exact htype (not_or.mp hno)
    by_cases hold : taskid ∈ tm.tasks
    · rw [register_old hold] at h
      cases h
      exact .inl ⟨rfl, fun _ hnew => absurd hold hnew⟩
    · obtain ⟨info, hpos, hregister⟩ := register_new hold datasource attr
      rw [hregister] at h
      have htrigger : trigger manager name
          (registered tm taskid info (List.replicate (tm.size + 1) false)) taskid attr resp =
            .ok (resp', started, tm') := h
      rcases trigger_registered hsq hold hpos htrigger with ⟨hsame, hbroken⟩ | ⟨row, hrow⟩
      · refine .inl ⟨hsame, fun _ _ hdeps => ?_⟩
        obtain ⟨d, hd, hnone⟩ := hbroken hdeps
        have hne : d ≠ taskid := by
          rintro rfl
          rw [AList.lookup_insert] at hnone
          cases hnone
        rw [AList.lookup_insert_ne hne] at hnone
        exact ⟨d, hd, fun hmem => by simpa [hnone] using AList.lookup_isSome.mpr hmem, hne⟩
      · exact .inr ⟨hok, hold, info, row, hpos, hrow⟩

/-- **Everything that one request can do to the manager.** -/
theorem process_effect (hsq : Square tm.size tm.edges) {endpoint : Endpoint}
    {manager : DrccpServerManager} {name : Str} {req : Request} {out : Outcome}
    (h : process endpoint manager name tm req = .ok out) : Effect tm req out := by
  unfold process at h
  dsimp only at h
  split at h
  · rename_i hmanagement
    cases h
    exact .same rfl fun attr hreg => absurd hmanagement hreg.management
  rename_i management hmanagement
  split_ifs at h with haddr hdeploy hterminate htrigger
  · cases h
    refine .same rfl fun attr hreg => ?_
    rcases haddr with hsrc | hdest
    · exact absurd hreg.src hsrc
    · exact absurd hreg.dest hdest
  · have hsrc : req.src = AddrType.management.toUInt32 := by
      by_contra hne
      exact haddr (.inl hne)
    have hdest : req.dest = AddrType.cluster.toUInt32 := by
      by_contra hne
      exact haddr (.inr hne)
    split at h
    · rename_i attr datasource hattr hdatasource
      have hattr' {a : Attr} (hreg : Registers req a) : a = attr :=
        Option.some.inj (hreg.attr.symm.trans hattr)
      split at h
      · cases h
      · rename_i resp started tm' hout
        cases h
        rcases deploy_effect hsq hout with ⟨rfl, hbroken⟩ | ⟨htype, hnew, info, row, hpos, rfl, hrow, hstatus⟩
        · refine .same rfl fun a hreg hnew hdeps => ?_
          obtain rfl := hattr' hreg
          obtain ⟨ds, hds, htype⟩ := hreg.datasource
          obtain rfl : datasource = ds := Option.some.inj (hdatasource.symm.trans hds)
          exact hbroken htype hnew hdeps
        · refine .registered attr info row ⟨by simp [hmanagement], hsrc, hdest, hdeploy, hattr,
            datasource, hdatasource, htype⟩ hnew hpos rfl hrow fun resp' hresp' => ?_
          cases hresp'
          exact hstatus
    · rename_i hnone
      cases h
      refine .same rfl fun a hreg => ?_
      obtain ⟨ds, hds, -⟩ := hreg.datasource
      exact absurd hds (hnone a ds hreg.attr)
  · split at h
    · cases h
    · rename_i tm' sent hout
      cases h
      rcases of_removeTask hout with hsame | ⟨info, hinfo, hlt, hremoved⟩
      · exact .same hsame fun a hreg => absurd hreg.msg hdeploy
      · refine .removed info hinfo hlt hremoved (fun resp hresp => ?_) hdeploy
        cases hresp
        rfl
  · split at h
    · cases h
    · cases h
      exact .same rfl fun a hreg => absurd hreg.msg hdeploy
  · cases h
    exact .same rfl fun attr hreg => absurd hreg.msg hdeploy

end Jxtd.Computation
