import Jxtd.Computation.Infer.TaskDirectory

/-!
# From the negotiation to the engine

A task on its way through the three programs: the storage is negotiated with, the cluster is sent the
deployment, and some node processes the payload that it submits.

* `pullDtsrcs_bound`: the answer to the pull of a task that is bound to an engine in a file.
* `callBack_bound`: the names and the library that the node then has.
* `submit_deployed_source`: what the cluster submits for a task.
* **`deployed_engine_runs`**: the engine that was negotiated runs on the data that was deployed.
* **`endpoint_never_read`**: no engine ever gets what is behind an endpoint.
-/

namespace Jxtd.Infer

open Lib Posix Taskdep Jxtd.Computation Jxtd.Storage
open Datatransfer (Adtsrc Dtsrc)
open Storage.Datamanager (engineFile)

/-! ## The pull -/

section Pull

variable {adm : Datamanager} {sfs client : Fs} {req : SubmitRequest} {mid name data : Str} {p : Path}
  {src token : Str}

/-- The answer for an engine without dependencies. -/
def engineAnswer (req : SubmitRequest) (mid name data : Str) : Dtsrc :=
  ⟨{ Adtsrc.new with
    taskid := req.taskid, type := Datatrans.Datatype.engine.toUInt32, engineattr := (mid, name),
    binary := data }, []⟩

/-- **The answer to the pull** has the key of the task and the contents of its file. -/
theorem pullDtsrcs_bound (h0 : req.taskid ≠ 0)
    (hbound : adm.getTaskEngine req.taskid.toUInt64 = some ((mid, name), []))
    (hr : sfs.resolve (adm.enginePath mid name) = some p) (hp : sfs.node p = some (.file data))
    (hlen : data.length < 2 ^ 31) :
    pullDtsrcs src token req (some (adm, sfs)) = [engineAnswer req mid name data] := by
  have hfile := enginePull_file hr hp hlen
  have hpull : Datatrans.enginePull localFileoperations adm sfs (engineRecord req) =
      .ok (engineAnswer req mid name data, sfs) := by
    have hid : (engineRecord req).taskid ≠ 0 := h0
    have hget : adm.getTaskEngine (engineRecord req).taskid.toUInt64 = some ((mid, name), []) :=
      hbound
    unfold Datatrans.enginePull
    dsimp only
    rw [if_neg hid, hget]
    dsimp only
    rw [hfile]
    rfl
  have hone : Datatrans.processOne localFileoperations adm 0 sfs (engineRecord req) =
      .ok (some (engineAnswer req mid name data), sfs) := by
    rw [Datatrans.processOne, if_pos rfl, if_pos rfl, hpull]
    rfl
  have hmasters : (engineRequest src token req).adtsrcs = [engineRecord req] := rfl
  have hdirection : (engineRequest src token req).direction = 0 := rfl
  rw [pullDtsrcs, Datatrans.process, hmasters, Datatrans.processAll, hdirection, hone]
  rfl

/-- **The node has the engine**: its one name, and its library with the contents. -/
theorem callBack_bound (hclient : Accepts client req.taskid.toNat (engineFile mid name))
    (hid : mid ≠ []) (hname : name ≠ []) (hcid : Clean mid) (hcname : Clean name)
    (hdata : data ≠ []) :
    ∃ st, callBack ⟨[], [], client⟩ [engineAnswer req mid name data] = some st ∧
      st.masterMidName = [(mid, name)] ∧ library req.taskid st (mid, name) = some data := by
  have hsame : SamePath (engineAnswer req mid name data) := fun dep hdep =>
    absurd hdep List.not_mem_nil
  have hkey : Accepts client req.taskid.toNat (engineFile (mid, name).1 (mid, name).2) := hclient
  obtain ⟨names, client', hdispose, content, hmem, hnode⟩ :=
    hkey.respDispose hsame rfl rfl hid hname hdata hcid hcname []
  obtain rfl : content = data := List.mem_singleton.mp hmem
  have hdisposed := respDispose_complete hclient.ready hsame ⟨hid, hname, hdata⟩ hdispose
  have hcwd := cwd_respDispose hdispose
  have htype : (engineAnswer req mid name content).master.type = 0x0 := rfl
  refine ⟨⟨[], names, client'⟩, ?_, hdisposed.names, ?_⟩
  · rw [callBack, if_pos htype, hdispose]
    rfl
  · have hpath : libraryPath req.taskid (mid, name) =
        taskPre req.taskid.toNat ++ slash :: engineFile mid name := by
      simp [libraryPath, taskPre, engineFile, lit, slash]
    have hclean := clean_engineFile hcid hcname
    have hdir : taskDir client' req.taskid.toNat = taskDir client req.taskid.toNat := by
      rw [taskDir, taskDir, hcwd]
    have hr : client'.resolve (libraryPath req.taskid (mid, name)) =
        some (taskDir client req.taskid.toNat ++ [engineFile mid name]) := by
      rw [hpath, ← hdir]
      refine Fs.resolve_child (hdisposed.ready.resolve_taskPre _) ?_ (notMem_taskPre _) hclean.1
        hclean.2 (plain_engineFile _ _)
      rw [hdir]
      exact hdisposed.isDir
    exact Fs.contents_eq hr hnode

end Pull

/-! ## The submission -/

section Submission

variable {endpoint : Endpoint} {manager : DrccpServerManager} {name : Str} {tm : Taskmanager}
  {req : Request} {out : Outcome} {sub : SubmitRequest} {datasource : Datasource}

/-- What `submit` sends is the task as it was deployed. -/
theorem submit_lookup {t : UInt64} (h : Computation.submit manager name tm t = .ok (some sub)) :
    ∃ info, tm.tasks.lookup t = some info ∧ sub.taskid = t.toUInt32 ∧
      sub.inputPath = info.inputPath ∧ sub.inputData = info.inputData := by
  unfold Computation.submit Taskmanager.submit at h
  cases hlookup : tm.tasks.lookup t with
  | none =>
    rw [hlookup] at h
    cases h
  | some info =>
    rw [hlookup] at h
    cases hrow : tm.edges[info.depPos]? with
    | none =>
      simp only [hrow] at h
      cases h
    | some row =>
      simp only [hrow] at h
      by_cases hany : row.any id = true
      · rw [if_pos hany] at h
        cases h
      · rw [if_neg hany] at h
        unfold DrccpServerManager.submit at h
        by_cases hname : name ∈ manager.servers
        · simp only [if_pos hname] at h
          cases h
          exact ⟨info, rfl, rfl, rfl, rfl⟩
        · simp only [if_neg hname] at h
          cases h

/-- A task keeps its data, or the path to them. -/
theorem register_source {t : UInt64} (hnew : t ∉ tm.tasks) (datasource : Datasource) (attr : Attr) :
    ∃ info, (register tm t datasource attr).2.tasks.lookup t = some info ∧
      info.inputPath = (if datasource.src.type = lit "data" then [] else datasource.src.input) ∧
      info.inputData = if datasource.src.type = lit "data" then datasource.src.input else [] := by
  unfold register
  dsimp only
  cases attr.period with
  | none =>
    dsimp only
    rw [Taskmanager.deployTask, if_neg hnew]
    exact ⟨_, AList.lookup_insert _, rfl, rfl⟩
  | some period =>
    dsimp only
    rw [Taskmanager.deployTask, if_neg hnew]
    exact ⟨_, AList.lookup_insert _, rfl, rfl⟩

/-- A trigger that starts the task submits it. -/
theorem submit_of_trigger {t : UInt64} {attr : Attr} {resp resp' : Response} {tm' : Taskmanager}
    (h : trigger manager name tm t attr resp = .ok (resp', some sub, tm')) :
    Computation.submit manager name tm t = .ok (some sub) := by
  have hundo {tm : Taskmanager} {resp : Response} {status : DeployStatus} :
      undo tm t resp status ≠ .ok (resp', some sub, tm') := by
    intro hundo
    unfold undo at hundo
    split at hundo
    · cases hundo
    · cases hundo
  unfold trigger at h
  split_ifs at h
  · cases hsubmit : Computation.submit manager name tm t with
    | error f =>
      rw [hsubmit] at h
      cases h
    | ok started =>
      rw [hsubmit] at h
      cases started with
      | none => exact absurd h hundo
      | some sub' =>
        cases h
        rfl
  · split at h
    · cases h
    · split_ifs at h
      · exact absurd h hundo
      · cases h
  · cases h

/-- A deployment that starts the task has registered it. -/
theorem submit_of_deploy {t : UInt64} {attr : Attr} {resp resp' : Response} {tm' : Taskmanager}
    (h : deploy manager name tm t datasource attr resp = .ok (resp', some sub, tm')) :
    t ∉ tm.tasks ∧
      Computation.submit manager name (register tm t datasource attr).2 t = .ok (some sub) := by
  unfold deploy at h
  by_cases htype : datasource.src.type ≠ lit "data" ∧ datasource.src.type ≠ lit "endpoint"
  · rw [if_pos htype] at h
    cases h
  · rw [if_neg htype] at h
    by_cases hmem : t ∈ tm.tasks
    · rw [register_old hmem] at h
      cases h
    · obtain ⟨info, -, hregister⟩ := register_new hmem datasource attr
      rw [hregister] at h ⊢
      exact ⟨hmem, submit_of_trigger h⟩

/-- **The submission of a deployment** that starts a task. -/
theorem submit_deployed_source (h : Computation.process endpoint manager name tm req = .ok out)
    (hstarted : out.started = some sub) (hmsg : req.msg = MsgType.deploy.toUInt32)
    (hsource : req.datasource = some datasource) :
    sub.taskid = req.taskid.toUInt32 ∧
      sub.inputPath = (if datasource.src.type = lit "data" then [] else datasource.src.input) ∧
      sub.inputData = if datasource.src.type = lit "data" then datasource.src.input else [] := by
  unfold Computation.process at h
  rw [hsource] at h
  dsimp only at h
  split at h
  · cases h
    cases hstarted
  split_ifs at h
  · cases h
    cases hstarted
  · split at h
    · rename_i attr datasource' hattr heq
      cases heq
      cases hdeploy : deploy manager name tm req.taskid datasource attr
        (Response.new.setType .cluster .management .deploy) with
      | error f =>
        rw [hdeploy] at h
        cases h
      | ok x =>
        obtain ⟨resp, started, tm'⟩ := x
        rw [hdeploy] at h
        cases h
        cases hstarted
        obtain ⟨hnew, hsubmit⟩ := submit_of_deploy hdeploy
        obtain ⟨info, hlookup, htaskid, hpath, hinput⟩ := submit_lookup hsubmit
        obtain ⟨info', hlookup', hpath', hinput'⟩ := register_source hnew datasource attr
        cases hlookup.symm.trans hlookup'
        exact ⟨htaskid, hpath.trans hpath', hinput.trans hinput'⟩
    · cases h
      cases hstarted

end Submission

/-! ## The whole way -/

section Way

variable {codec : SubmitCodec} {src token binary : Str}
  {runEngine : Option Str → Str × Str → Str → Except Fault (Option Str)}

/-- What a node answers to a payload whose engine has run. -/
def engineResult (codec : SubmitCodec) (sub : SubmitRequest) (fs : Fs) :
    Except Fault (Option Str) → Except PayloadFault (Str × Fs)
  | .error f => .error (.fault f)
  | .ok output => .ok (codec.dumpResponse (payloadResponse sub output), fs)

/-- **The engine that was negotiated runs on the data that was deployed.** The storage has granted
the task with an engine of its own and no dependencies, in a run in which nothing else is under the
name of its file; the cluster has accepted the deployment with inline data and has submitted the task;
the node that gets the payload can write into the directory of the task. Then the engine runs with the
negotiated binary as its library and the deployed data as its input, and its output is the answer. -/
theorem deployed_engine_runs {storageEndpoint endpoint : Endpoint} {t : UInt64} {st : State Fs}
    {x : State Fs × List Event} {dir : Path} {e : Engine} {manager : DrccpServerManager} {name : Str}
    {tm : Taskmanager} {req : Request} {out : Outcome} {sub : SubmitRequest}
    {datasource : Datasource} {client : Fs}
    (hfresh : Fresh st.dManager st.fs dir) (hrun : NodeRun storageEndpoint t st x) (hpos : t ≠ 0)
    (hlt : t.toNat < 2 ^ 32) (hgranted : holders x.2 t = some e) (hbinary : e.binary ≠ [])
    (hsize : e.binary.length < 2 ^ 31) (hdeps : e.deps = [])
    (hdeploy : Computation.process endpoint manager name tm req = .ok out)
    (hstarted : out.started = some sub) (hmsg : req.msg = MsgType.deploy.toUInt32)
    (htaskid : req.taskid = t) (hsource : req.datasource = some datasource)
    (hdata : datasource.src.type = lit "data")
    (hclient : Accepts client t.toNat (anonymousFile t))
    (hparse : codec.parseRequest binary = sub) :
    ∃ fs', payloadStep codec runEngine src token client ⟨binary, some (x.1.dManager, x.1.fs)⟩ =
      engineResult codec sub fs' (runEngine (some e.binary) (anonymousMid, decimal t.toNat)
        datasource.src.input) := by
  obtain ⟨hsub, hpath, hinput⟩ := submit_deployed_source hdeploy hstarted hmsg hsource
  rw [htaskid] at hsub
  rw [if_pos hdata] at hpath hinput
  have htables : Tables st.dManager [] := tables_nil hfresh.taskEngine hfresh.taskExtfiles
  have hstored := hrun.stored ⟨htables, hfresh.area, fun e he => by cases he⟩
  have hbound : x.1.dManager.getTaskEngine sub.taskid.toUInt64 =
      some ((anonymousMid, decimal t.toNat), []) := by
    rw [hsub, toUInt64_toUInt32 hlt, congrFun hstored.tables.engine t, hgranted, Option.map_some,
      engineKey, if_pos hbinary, hdeps]
  have hnat : sub.taskid.toNat = t.toNat := by
    rw [hsub, UInt64.toNat_toUInt32, Nat.mod_eq_of_lt hlt]
  have hpull : pullDtsrcs src token sub (some (x.1.dManager, x.1.fs)) =
      [engineAnswer sub anonymousMid (decimal t.toNat) e.binary] :=
    pullDtsrcs_bound (hsub ▸ toUInt32_ne_zero hpos hlt) hbound (hstored.area.resolve_anonymous t)
      (hstored.file e hgranted hbinary) hsize
  have haccepts : Accepts client sub.taskid.toNat (engineFile anonymousMid (decimal t.toNat)) :=
    hnat.symm ▸ hclient
  obtain ⟨st', hcallBack, hnames, hlibrary⟩ := callBack_bound haccepts (by decide)
    (decimal_ne_nil t.toNat) (by decide) (clean_decimal t.toNat) hbinary
  have hread : readInput sub = .ok (some datasource.src.input) := by
    rw [readInput, if_pos hpath, hinput]
  refine ⟨st'.fs.removeAll (removedPath sub.taskid), ?_⟩
  unfold payloadStep
  simp only [hparse, hread, hpull, hcallBack, hnames, hlibrary]
  cases runEngine (some e.binary) (anonymousMid, decimal t.toNat) datasource.src.input with
  | error f => rfl
  | ok output => rfl

/-- The deployment of task `5` with one byte of data, which starts it. -/
def startRequest : Request :=
  let req := ((Request.new.setType .management .cluster .deploy).setTaskid 5).setObjectManagement
    Endpoint.new
  let req := (req.setDatasource ⟨[0x01], lit "data"⟩ ⟨[], 0, 0⟩).2
  (req.setAttrMaster Trigger.create.toUInt32 false).2

/-- An engine that puts its library before its input. -/
def libraryEngine (library : Option Str) (_midName : Str × Str) (input : Str) :
    Except Fault (Option Str) := .ok (library.map fun data => data ++ input)

/-- The submission of `startRequest`. -/
def startedRequest : SubmitRequest := ⟨5, [], [0x01], [], 0, 0, 0⟩

/-- The storage after the negotiation of task `5`. -/
def grantedNode : State Fs × List Event :=
  serveOne localFileoperations Endpoint.new (newNode, []) (oneByteRequest, 9)

theorem grantedNode_run : NodeRun Endpoint.new 5 newNode grantedNode := by
  have hfree : FileFree 5 newNode (.taskdep oneByteRequest 9) :=
    fun _ _ _ _ _ _ => List.mem_cons.mpr (.inl rfl)
  exact NodeRun.start.step (.taskdep oneByteRequest 9) hfree rfl

/-- Task `5` on its way: the answer to the payload has both bytes. -/
theorem deployed_engine_runs_five : ∃ fs',
    payloadStep wireCodec libraryEngine [] [] ⟨∅, ∅, []⟩
      ⟨wireCodec.dumpRequest startedRequest,
        some (grantedNode.1.dManager, grantedNode.1.fs)⟩ =
    engineResult wireCodec startedRequest fs' (.ok (some [0x7f, 0x01])) := by
  have hgranted : holders grantedNode.2 5 = some { Engine.new with binary := [0x7f] } := rfl
  have hdeploy : ∃ out, Computation.process Endpoint.new ⟨[lit "c"]⟩ (lit "c") .new startRequest =
      .ok out ∧ out.started = some startedRequest := ⟨_, rfl, rfl⟩
  obtain ⟨out, hdeploy, hstarted⟩ := hdeploy
  have hclient : Accepts ⟨∅, ∅, []⟩ (5 : UInt64).toNat (anonymousFile 5) :=
    ready_empty.accepts rfl _
  have hparse : wireCodec.parseRequest (wireCodec.dumpRequest startedRequest) = startedRequest := by
    decide
  have hsource : startRequest.datasource = some ⟨⟨[0x01], lit "data"⟩, ⟨[], 0, 0⟩⟩ := rfl
  have hout : libraryEngine (some [0x7f]) (anonymousMid, decimal (5 : UInt64).toNat) [0x01] =
      .ok (some [0x7f, 0x01]) := rfl
  obtain ⟨fs', hstep⟩ := @deployed_engine_runs wireCodec [] [] _ libraryEngine _ _ _ _ _ _ _ _ _ _ _
    _ _ _ _ newNode_fresh grantedNode_run (by decide) (by decide) hgranted (by decide) (by decide)
    rfl hdeploy hstarted rfl rfl hsource rfl hclient hparse
  exact ⟨fs', hstep.trans (congrArg (engineResult wireCodec startedRequest fs') hout)⟩

/-- **What is behind an endpoint is never read.** For a task that was deployed with an endpoint as
its source, the payload has the same outcome with all engines that agree on the empty input; and where
the protocol of the endpoint is none that is known, the answer is empty, and the cluster neither
removes the task nor tells the storage. -/
theorem endpoint_never_read {endpoint : Endpoint} {manager : DrccpServerManager} {name : Str}
    {tm : Taskmanager} {req : Request} {out : Outcome} {sub : SubmitRequest}
    {datasource : Datasource}
    {runEngine' : Option Str → Str × Str → Str → Except Fault (Option Str)}
    (hdeploy : Computation.process endpoint manager name tm req = .ok out)
    (hstarted : out.started = some sub) (hmsg : req.msg = MsgType.deploy.toUInt32)
    (hsource : req.datasource = some datasource) (htype : datasource.src.type = lit "endpoint")
    (hparse : codec.parseRequest binary = sub)
    (hengines : ∀ library midName, runEngine library midName [] = runEngine' library midName [])
    (client : Fs) (storage : Option (Datamanager × Fs)) :
    payloadStep codec runEngine src token client ⟨binary, storage⟩ =
      payloadStep codec runEngine' src token client ⟨binary, storage⟩ ∧
    (datasource.src.input ≠ [] →
      protocolOf datasource.src.input ∉ [lit "jxtd", lit "http", lit "https"] →
      payloadStep codec runEngine src token client ⟨binary, storage⟩ = .ok ([], client) ∧
      ∀ tm, onClientReceiveResult codec tm [] = .ok (tm, none)) := by
  obtain ⟨-, hpath, hinput⟩ := submit_deployed_source hdeploy hstarted hmsg hsource
  have hne : datasource.src.type ≠ lit "data" := by
    rw [htype]
    decide
  rw [if_neg hne] at hpath hinput
  have hread : ∀ input, readInput sub = .ok (some input) → input = [] := by
    intro input h
    unfold readInput at h
    split_ifs at h
    · cases h
      exact hinput
    · cases h
      rfl
    · cases h
  refine ⟨?_, fun hnil hprotocol => ⟨?_, fun tm => if_pos rfl⟩⟩
  · unfold payloadStep
    simp only [hparse]
    cases h : readInput sub with
    | error f => rfl
    | ok input =>
      cases input with
      | none => rfl
      | some input =>
        obtain rfl := hread input h
        simp only [hengines]
  · simp only [List.mem_cons, List.not_mem_nil, or_false, not_or] at hprotocol
    have h : readInput sub = .ok none := by
      rw [readInput, hpath, if_neg hnil, if_neg hprotocol.1, if_neg (not_or.mpr hprotocol.2)]
    unfold payloadStep
    simp only [hparse, h]

/-- The deployment of task `5` with an endpoint. -/
def endpointRequest : Request :=
  let req := ((Request.new.setType .management .cluster .deploy).setTaskid 5).setObjectManagement
    Endpoint.new
  let req := (req.setDatasource ⟨lit "rtsp://camera", lit "endpoint"⟩ ⟨[], 0, 0⟩).2
  (req.setAttrMaster Trigger.create.toUInt32 false).2

/-- The submission of `endpointRequest`. -/
def endpointSubmission : SubmitRequest := ⟨5, lit "rtsp://camera", [], [], 0, 0, 0⟩

/-- An engine that is its library. -/
def constantEngine (library : Option Str) (_midName : Str × Str) (_input : Str) :
    Except Fault (Option Str) := .ok library

theorem endpoint_never_read_rtsp :
    payloadStep wireCodec libraryEngine [] [] ⟨∅, ∅, []⟩
        ⟨wireCodec.dumpRequest endpointSubmission, none⟩ =
      payloadStep wireCodec constantEngine [] [] ⟨∅, ∅, []⟩
        ⟨wireCodec.dumpRequest endpointSubmission, none⟩ ∧
    (lit "rtsp://camera" ≠ [] →
      protocolOf (lit "rtsp://camera") ∉ [lit "jxtd", lit "http", lit "https"] →
      payloadStep wireCodec libraryEngine [] [] ⟨∅, ∅, []⟩
        ⟨wireCodec.dumpRequest endpointSubmission, none⟩ = .ok ([], ⟨∅, ∅, []⟩) ∧
      ∀ tm, onClientReceiveResult wireCodec tm [] = .ok (tm, none)) := by
  have hdeploy : ∃ out, Computation.process Endpoint.new ⟨[lit "c"]⟩ (lit "c") .new
      endpointRequest = .ok out ∧ out.started = some endpointSubmission := ⟨_, rfl, rfl⟩
  obtain ⟨out, hdeploy, hstarted⟩ := hdeploy
  have hsource : endpointRequest.datasource =
      some ⟨⟨lit "rtsp://camera", lit "endpoint"⟩, ⟨[], 0, 0⟩⟩ := rfl
  have hparse : wireCodec.parseRequest (wireCodec.dumpRequest endpointSubmission) =
      endpointSubmission := by decide
  have hengines : ∀ library midName,
      libraryEngine library midName [] = constantEngine library midName [] := by
    simp [libraryEngine, constantEngine]
  exact endpoint_never_read hdeploy hstarted rfl hsource rfl hparse hengines _ _

end Way

end Jxtd.Infer
