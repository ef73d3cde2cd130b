import Jxtd.Computation.Cluster
import Jxtd.Computation.Infer.Submission
import Jxtd.Lib.Lease

/-!
# Completions of tasks

The threads of the cluster interleave between the critical sections of the task manager: a deployment
is registered in one section and submitted or undone in later ones, and the `done` of a result is sent
after the section that removes the task. It is sent by a client task with one retry, which writes the
request again where the connection fails before the reply.

* `Deployment`, `Action`: a deployment by its id and its number, and what the cluster does with it.
* `History`: the order in which a deployment is made, removed and completed.
* `Thread`, `advance`, `clusterThreads`: the sections of each handler, in any order.
* **`alone_eq_process`**: a request that nobody interrupts does what `process` does.
* **`completion_once`**: each deployment is completed at most once, up to the retry, and not after
  `terminate`; **`completed_twice`**: one deployment and two `done` messages.
-/

namespace Jxtd.Computation

open Lib Taskdep Infer

/-! ## Histories -/

/-- A deployment of a task: its id, and its number among the deployments of this id. -/
structure Deployment where
  taskid : UInt64
  number : ℕ
  deriving DecidableEq

/-- Why a task is removed: its result has come, `terminate`, or its deployment has failed. -/
inductive Cause
  | result
  | terminate
  | undo
  deriving DecidableEq

inductive Action
  /-- `deploy_task` has returned `0`. -/
  | deployed (d : Deployment)
  /-- `remove_task` has removed the task. -/
  | removed (d : Deployment) (cause : Cause)
  /-- A `done` request was written to the storage; `failed` if the connection has failed before the
  reply. -/
  | sent (d : Deployment) (req : Request) (failed : Bool)

namespace Action

def deployed? : Action → Option Deployment
  | .deployed d => some d
  | _ => none

def sent? : Action → Option Deployment
  | .sent d _ _ => some d
  | _ => none

/-- A `done` message whose connection has not failed. -/
def delivered? : Action → Option Deployment
  | .sent d _ false => some d
  | _ => none

/-- The `done` messages of one deployment: has the connection failed? -/
def sendOf (d : Deployment) : Action → Option Bool
  | .sent d' _ failed => if d' = d then some failed else none
  | _ => none

/-- Is it a `done` message for this id? -/
def isDone (taskid : UInt64) : Action → Bool
  | .sent _ req _ => req.taskid = taskid
  | _ => false

/-- Is it a `done` message for this id whose connection has failed? -/
def isLost (taskid : UInt64) : Action → Bool
  | .sent _ req failed => req.taskid = taskid && failed
  | _ => false

/-- What the action does to the deployed ids. -/
def effect : Action → Lease.Effect UInt64 ℕ
  | .deployed d => .acquire d.taskid d.number
  | .removed d _ => .release d.taskid
  | .sent _ _ _ => .none

end Action

/-- How often `deploy_task` has returned `0` for an id. -/
def deployments (log : List Action) (taskid : UInt64) : ℕ :=
  (log.filterMap Action.deployed?).countP fun d => d.taskid = taskid

/-- The deployment of an id that is in force. -/
def current (log : List Action) : UInt64 → Option ℕ := Lease.holder (log.map Action.effect)

/-- The deployments that a `done` was sent for. -/
def completed (log : List Action) : List Deployment := log.filterMap Action.sent?

/-- The deployments that a `done` was sent for whose connection has not failed. -/
def delivered (log : List Action) : List Deployment := log.filterMap Action.delivered?

/-- The `done` messages for a deployment, in order. -/
def sends (log : List Action) (d : Deployment) : List Bool := log.filterMap (Action.sendOf d)

/-- `retry_max` of the client task of a `done`. -/
def retryMax : ℕ := 1

/-- Deployments are made while the id is free, removed while they are in force, and completed after the
removal for a result; only failed attempts stand before another one. -/
inductive History : List Action → Prop
  | nil : History []
  | deployed {log : List Action} (h : History log) (t : UInt64) (hfree : current log t = none) :
    History (log ++ [.deployed ⟨t, deployments log t + 1⟩])
  | removed {log : List Action} (h : History log) (d : Deployment) (cause : Cause)
    (hforce : current log d.taskid = some d.number) : History (log ++ [.removed d cause])
  | sent {log : List Action} (h : History log) (d : Deployment) (req : Request) (failed : Bool) (k : ℕ)
    (hremoved : .removed d .result ∈ log) (hsends : sends log d = List.replicate k true)
    (hk : k ≤ retryMax) (hid : req.taskid = d.taskid) : History (log ++ [.sent d req failed])

section History

variable {log : List Action} {d : Deployment} {t : UInt64} {n : ℕ}

theorem current_concat (log : List Action) (a : Action) :
    current (log ++ [a]) = Lease.step (current log) a.effect := by
  rw [current, List.map_append]
  exact Lease.holder_concat ..

theorem deployments_concat (log : List Action) (a : Action) (t : UInt64) :
    deployments (log ++ [a]) t = deployments log t + a.deployed?.toList.countP fun d => d.taskid = t := by
  rw [deployments, List.filterMap_append, List.countP_append]
  cases a <;> rfl

theorem deployments_deployed (log : List Action) (d : Deployment) (t : UInt64) :
    deployments (log ++ [.deployed d]) t = deployments log t + if d.taskid = t then 1 else 0 := by
  rw [deployments_concat]
  simp [Action.deployed?, List.countP_cons]

theorem deployments_other (log : List Action) {a : Action} (ha : a.deployed? = none) (t : UInt64) :
    deployments (log ++ [a]) t = deployments log t := by
  rw [deployments_concat, ha]
  rfl

theorem completed_concat (log : List Action) (a : Action) :
    completed (log ++ [a]) = completed log ++ a.sent?.toList := by
  rw [completed, List.filterMap_append]
  cases a <;> rfl

theorem delivered_concat (log : List Action) (a : Action) :
    delivered (log ++ [a]) = delivered log ++ a.delivered?.toList := by
  rw [delivered, List.filterMap_append, List.filterMap_cons, List.filterMap_nil]
  cases a.delivered? <;> rfl

theorem sends_concat (log : List Action) (a : Action) (d : Deployment) :
    sends (log ++ [a]) d = sends log d ++ (a.sendOf d).toList := by
  rw [sends, List.filterMap_append, List.filterMap_cons, List.filterMap_nil]
  cases a.sendOf d <;> rfl

/-- Anything but a `done` of the deployment leaves its attempts. -/
theorem sends_other (log : List Action) {a : Action} (ha : a.sendOf d = none) :
    sends (log ++ [a]) d = sends log d := by
  rw [sends_concat, ha]
  exact List.append_nil _

theorem sendOf_ne {d' : Deployment} {req : Request} {failed : Bool} (hne : d' ≠ d) :
    Action.sendOf d (.sent d' req failed) = none :=
  if_neg hne

theorem sends_sent (log : List Action) (d : Deployment) (req : Request) (failed : Bool) :
    sends (log ++ [.sent d req failed]) d = sends log d ++ [failed] := by
  rw [sends_concat, Action.sendOf, if_pos rfl]
  rfl

/-- An attempt that has not failed is one of the attempts. -/
theorem false_mem_sends (hd : d ∈ delivered log) : false ∈ sends log d := by
  obtain ⟨a, ha, hdelivered⟩ := List.mem_filterMap.mp hd
  refine List.mem_filterMap.mpr ⟨a, ha, ?_⟩
  unfold Action.delivered? at hdelivered
  split at hdelivered
  · cases hdelivered
    exact if_pos rfl
  · cases hdelivered

/-- A deployment with an attempt is completed. -/
theorem mem_completed_of_sends {failed : Bool} (h : failed ∈ sends log d) : d ∈ completed log := by
  obtain ⟨a, ha, hsend⟩ := List.mem_filterMap.mp h
  refine List.mem_filterMap.mpr ⟨a, ha, ?_⟩
  unfold Action.sendOf at hsend
  split at hsend
  · split_ifs at hsend with heq
    exact congrArg some heq
  · cases hsend

/-- The deployment in force is the latest one of its id. -/
theorem History.of_current (h : History log) (hcurrent : current log t = some n) :
    n = deployments log t ∧ .deployed ⟨t, n⟩ ∈ log := by
  induction h generalizing t n with
  | nil => cases hcurrent
  | deployed h t' hfree ih =>
    rw [current_concat] at hcurrent
    rw [deployments_deployed]
    rcases eq_or_ne t t' with rfl | hne
    · cases (Lease.step_acquire ..).symm.trans hcurrent
      exact ⟨by rw [if_pos rfl], List.mem_append_right _ (List.mem_singleton.mpr rfl)⟩
    · rw [Action.effect, Lease.step_acquire_ne _ hne] at hcurrent
      rw [if_neg hne.symm]
      exact ⟨(ih hcurrent).1, List.mem_append_left _ (ih hcurrent).2⟩
  | removed h d cause hforce ih =>
    rw [current_concat] at hcurrent
    rw [deployments_other _ rfl]
    rcases eq_or_ne t d.taskid with rfl | hne
    · rw [Action.effect, Lease.step_release] at hcurrent
      cases hcurrent
    · rw [Action.effect, Lease.step_release_ne _ hne] at hcurrent
      exact ⟨(ih hcurrent).1, List.mem_append_left _ (ih hcurrent).2⟩
  | sent h d req failed k _ _ _ _ ih =>
    rw [current_concat] at hcurrent
    rw [deployments_other _ rfl]
    exact ⟨(ih hcurrent).1, List.mem_append_left _ (ih hcurrent).2⟩

theorem History.number_le (h : History log) (hd : .deployed d ∈ log) :
    d.number ≤ deployments log d.taskid := by
  induction h with
  | nil => cases hd
  | deployed h t hfree ih =>
    rw [deployments_deployed]
    rcases List.mem_append.mp hd with hd | hd
    · exact (ih hd).trans (Nat.le_add_right ..)
    · cases List.mem_singleton.mp hd
      rw [if_pos rfl]
  | removed h d' cause _ ih =>
    rw [deployments_other _ rfl]
    exact ih (by simpa using hd)
  | sent h d' req failed k _ _ _ _ ih =>
    rw [deployments_other _ rfl]
    exact ih (by simpa using hd)

/-- **A deployment that was removed** was made, and is not in force again. -/
theorem History.of_removed (h : History log) {cause : Cause} (hd : .removed d cause ∈ log) :
    .deployed d ∈ log ∧ current log d.taskid ≠ some d.number := by
  induction h with
  | nil => cases hd
  | @deployed log h t hfree ih =>
    have hd : .removed d cause ∈ log := by simpa using hd
    have hle := h.number_le (ih hd).1
    refine ⟨List.mem_append_left _ (ih hd).1, ?_⟩
    rw [current_concat, Action.effect]
    rcases eq_or_ne d.taskid t with rfl | hne
    · rw [Lease.step_acquire, Ne, Option.some_inj]
      exact (Nat.lt_succ_of_le hle).ne'
    · rw [Lease.step_acquire_ne _ hne]
      exact (ih hd).2
  | @removed log h d' cause' hforce ih =>
    rw [current_concat, Action.effect]
    rcases eq_or_ne d.taskid d'.taskid with heq | hne
    · rw [heq, Lease.step_release]
      refine ⟨List.mem_append_left _ ?_, nofun⟩
      rcases List.mem_append.mp hd with hd | hd
      · exact (ih hd).1
      · cases List.mem_singleton.mp hd
        exact (h.of_current hforce).2
    · rw [Lease.step_release_ne _ hne]
      rcases List.mem_append.mp hd with hd | hd
      · exact ⟨List.mem_append_left _ (ih hd).1, (ih hd).2⟩
      · cases List.mem_singleton.mp hd
        exact absurd rfl hne
  | @sent log h d' req failed k _ _ _ _ ih =>
    have hd : .removed d cause ∈ log := by simpa using hd
    rw [current_concat]
    exact ⟨List.mem_append_left _ (ih hd).1, (ih hd).2⟩

/-- **A deployment is removed once.** -/
theorem History.cause_eq (h : History log) {cause cause' : Cause}
    (hd : Action.removed d cause ∈ log) (hd' : Action.removed d cause' ∈ log) : cause = cause' := by
  induction h with
  | nil => cases hd
  | deployed h t hfree ih => exact ih (by simpa using hd) (by simpa using hd')
  | removed h d₁ cause₁ hforce ih =>
    rcases List.mem_append.mp hd with hold | hnew
    · rcases List.mem_append.mp hd' with hold' | hnew'
      · exact ih hold hold'
      · cases List.mem_singleton.mp hnew'
        exact absurd hforce (h.of_removed hold).2
    · cases List.mem_singleton.mp hnew
      rcases List.mem_append.mp hd' with hold' | hnew'
      · exact absurd hforce (h.of_removed hold').2
      · cases List.mem_singleton.mp hnew'
        rfl
  | sent h d' req failed k _ _ _ _ ih => exact ih (by simpa using hd) (by simpa using hd')

/-- A deployment is removed while it is in force. -/
theorem History.in_force (h : History log) {pre post : List Action} {cause : Cause}
    (hlog : log = pre ++ .removed d cause :: post) : current pre d.taskid = some d.number := by
  induction h generalizing post with
  | nil => simp at hlog
  | deployed h t hfree ih =>
    rcases Lease.split_concat hlog with ⟨-, heq, -⟩ | ⟨post', -, hlog⟩
    · cases heq
    · exact ih hlog
  | removed h d' cause' hforce ih =>
    rcases Lease.split_concat hlog with ⟨rfl, heq, -⟩ | ⟨post', -, hlog⟩
    · cases heq
      exact hforce
    · exact ih hlog
  | sent h d' req failed k _ _ _ _ ih =>
    rcases Lease.split_concat hlog with ⟨-, heq, -⟩ | ⟨post', -, hlog⟩
    · cases heq
    · exact ih hlog

/-- A completed deployment was removed before, for its result. -/
theorem History.of_sent (h : History log) {pre post : List Action} {req : Request} {failed : Bool}
    (hlog : log = pre ++ .sent d req failed :: post) :
    .removed d .result ∈ pre ∧ req.taskid = d.taskid := by
  induction h generalizing post with
  | nil => simp at hlog
  | deployed h t hfree ih =>
    rcases Lease.split_concat hlog with ⟨-, heq, -⟩ | ⟨post', -, hlog⟩
    · cases heq
    · exact ih hlog
  | removed h d' cause hforce ih =>
    rcases Lease.split_concat hlog with ⟨-, heq, -⟩ | ⟨post', -, hlog⟩
    · cases heq
    · exact ih hlog
  | sent h d' req' failed' k hremoved _ _ hid ih =>
    rcases Lease.split_concat hlog with ⟨rfl, heq, -⟩ | ⟨post', -, hlog⟩
    · cases heq
      exact ⟨hremoved, hid⟩
    · exact ih hlog

/-- **The attempts for a deployment**: after one that has not failed there is none, and there are no
more than one and the retries. -/
theorem History.sends_eq (h : History log) (d : Deployment) :
    sends log d = [] ∨ ∃ k failed, k ≤ retryMax ∧ sends log d = List.replicate k true ++ [failed] := by
  induction h with
  | nil => exact .inl rfl
  | deployed _ t _ ih =>
    rw [sends_other _ rfl]
    exact ih
  | removed _ d' _ _ ih =>
    rw [sends_other _ rfl]
    exact ih
  | sent _ d' req failed k _ hsends hk _ ih =>
    rcases eq_or_ne d' d with rfl | hne
    · rw [sends_sent, hsends]
      exact .inr ⟨k, failed, hk, rfl⟩
    · rw [sends_other _ (sendOf_ne hne)]
      exact ih

theorem History.nodup_delivered (h : History log) : (delivered log).Nodup := by
  induction h with
  | nil => exact List.nodup_nil
  | deployed _ _ _ ih =>
    rw [delivered_concat]
    simpa [Action.delivered?] using ih
  | removed _ _ _ _ ih =>
    rw [delivered_concat]
    simpa [Action.delivered?] using ih
  | sent _ d req failed k _ hsends _ _ ih =>
    rw [delivered_concat]
    cases failed with
    | true => simpa [Action.delivered?] using ih
    | false =>
      have hfirst : d ∉ delivered _ := fun hd => by
        have hmem := false_mem_sends hd
        rw [hsends] at hmem
        cases (List.mem_replicate.mp hmem).2
      exact List.nodup_append_comm.mp (List.nodup_cons.mpr ⟨hfirst, ih⟩)

theorem History.of_completed (h : History log) (hd : d ∈ completed log) :
    .removed d .result ∈ log := by
  obtain ⟨a, ha, hsent⟩ := List.mem_filterMap.mp hd
  obtain ⟨pre, post, hlog⟩ := List.append_of_mem ha
  cases a with
  | sent d' req failed =>
    cases hsent
    exact hlog ▸ List.mem_append_left _ (h.of_sent hlog).1
  | deployed _ => cases hsent
  | removed _ _ => cases hsent

theorem delivered_subset (log : List Action) : delivered log ⊆ completed log := by
  intro d hd
  obtain ⟨a, ha, hdelivered⟩ := List.mem_filterMap.mp hd
  refine List.mem_filterMap.mpr ⟨a, ha, ?_⟩
  unfold Action.delivered? at hdelivered
  split at hdelivered
  · exact hdelivered
  · cases hdelivered

theorem History.completed_subset (h : History log) :
    completed log ⊆ log.filterMap Action.deployed? :=
  fun _ hd => List.mem_filterMap.mpr ⟨_, (h.of_removed (h.of_completed hd)).1, rfl⟩

/-- The `done` messages for an id are those that have failed and those for its deployments. -/
theorem History.countP_isDone (h : History log) (t : UInt64) : log.countP (Action.isDone t) =
    (delivered log).countP (fun d => d.taskid = t) + log.countP (Action.isLost t) := by
  induction h with
  | nil => rfl
  | deployed _ _ _ ih =>
    rw [List.countP_append, List.countP_append, delivered_concat, List.countP_append, ih]
    rfl
  | removed _ _ _ _ ih =>
    rw [List.countP_append, List.countP_append, delivered_concat, List.countP_append, ih]
    rfl
  | sent _ d req failed k _ _ _ hid ih =>
    rw [List.countP_append, List.countP_append, delivered_concat, List.countP_append, ih]
    cases failed with
    | false =>
      simp only [Action.isDone, Action.isLost, Action.delivered?, Option.toList_some,
        List.countP_singleton, hid, Bool.and_false, Bool.false_eq_true, if_false]
      omega
    | true =>
      simp only [Action.isDone, Action.isLost, Action.delivered?, Option.toList_none,
        List.countP_singleton, List.countP_nil, hid, Bool.and_true]
      omega

/-- **No id is completed more often than it is deployed**, up to the messages that were lost. -/
theorem History.done_le (h : History log) (t : UInt64) :
    log.countP (Action.isDone t) ≤ deployments log t + log.countP (Action.isLost t) := by
  have hsubset : delivered log ⊆ log.filterMap Action.deployed? :=
    List.Subset.trans (delivered_subset log) h.completed_subset
  rw [h.countP_isDone]
  exact Nat.add_le_add_right ((h.nodup_delivered.subperm hsubset).countP_le _) _

end History

/-! ## Threads -/

/-- A thread of the cluster, by what it does next. -/
inductive Thread
  /-- A request that has arrived. -/
  | request (manager : DrccpServerManager) (req : Request)
  /-- The branch `deploy` after `deploy_task`. -/
  | trigger (manager : DrccpServerManager) (management : Endpoint) (taskid : UInt64) (attr : Attr)
  /-- The branch `deploy` after a submission or dependencies that failed. -/
  | undo (management : Endpoint) (taskid : UInt64) (status : DeployStatus)
  /-- The callback of a result that is not empty. -/
  | result (taskid : UInt64)
  /-- `remove_task(taskid, true)` after its critical section, with the retries that are left. -/
  | send (d : Deployment) (retries : ℕ)
  | finished (reply : Option Response) (started : Option SubmitRequest)

/-- The completion that the thread has still to send, with its retries. -/
def Thread.sending : Thread → Option (Deployment × ℕ)
  | .send d retries => some (d, retries)
  | _ => none

/-- How one attempt of a client task goes: the request is written, and the task ends in
`WFT_STATE_SYS_ERROR`. A connection may fail before the request or after it. -/
structure Attempt where
  written : Bool
  failed : Bool

/-- An attempt with a reply. -/
def Attempt.answered : Attempt := ⟨true, false⟩

structure Cluster where
  manager : Taskmanager
  threads : List Thread
  log : List Action

/-- What one section of a thread leaves: the manager, the rest of the thread, what it has done. -/
structure Advance where
  manager : Taskmanager
  thread : Thread
  actions : List Action

section Sections

variable (endpoint : Endpoint) (name : Str) (tm : Taskmanager) (log : List Action)

/-- The critical section of `remove_task`; it removes the latest deployment of the id. -/
def removeSection (taskid : UInt64) (cause : Cause) :
    Except Fault (Taskmanager × List Action) :=
  match tm.tasks.lookup taskid with
  | none => .ok (tm, [])
  | some iter => do
    let tm ← tm.eraseTask taskid iter
    .ok (tm, [.removed ⟨taskid, deployments log taskid⟩ cause])

/-- The end of the handler, after its `switch`. -/
def finish (management : Endpoint) (taskid : UInt64) (resp : Response) : Response :=
  ((resp.setTaskid taskid).setObjectManagement management).setObjectCluster endpoint

def deployResponse : Response := Response.new.setType .cluster .management .deploy

/-- The branch `deploy` up to the end of `deploy_task`. -/
def deploySection (manager : DrccpServerManager) (management : Endpoint) (taskid : UInt64)
    (datasource : Datasource) (attr : Attr) : Advance :=
  let illegal := some (finish endpoint management taskid (deployResponse.setDeployStatus .illegal))
  if datasource.src.type ≠ lit "data" ∧ datasource.src.type ≠ lit "endpoint" then
    ⟨tm, .finished illegal none, []⟩
  else
    let (judge, tm) := register tm taskid datasource attr
    if judge = -1 then ⟨tm, .finished illegal none, []⟩
    else ⟨tm, .trigger manager management taskid attr,
      [.deployed ⟨taskid, deployments log taskid + 1⟩]⟩

/-- The handler up to the end of its first critical section. -/
def requestSection (manager : DrccpServerManager) (req : Request) : Except Fault Advance :=
  match req.object.management with
  | none => .ok ⟨tm, .finished none none, []⟩
  | some management =>
    if req.src ≠ AddrType.management.toUInt32 ∨ req.dest ≠ AddrType.cluster.toUInt32 then
      .ok ⟨tm, .finished none none, []⟩
    else if req.msg = MsgType.deploy.toUInt32 then
      match req.attr, req.datasource with
      | some attr, some datasource =>
        .ok (deploySection endpoint tm log manager management req.taskid datasource attr)
      | _, _ => .ok ⟨tm, .finished none none, []⟩
    else if req.msg = MsgType.terminate.toUInt32 then do
      let (tm, actions) ← removeSection tm log req.taskid .terminate
      let resp := Response.new.setType .cluster .management .terminate
      .ok ⟨tm, .finished (some (finish endpoint management req.taskid resp)) none, actions⟩
    else if req.msg = MsgType.trigger.toUInt32 then do
      let started ← submit manager name tm req.taskid
      let resp := Response.new.setType .cluster .management .trigger
      .ok ⟨tm, .finished (some (finish endpoint management req.taskid resp)) started, []⟩
    else .ok ⟨tm, .finished none none, []⟩

/-- The `switch` over the trigger of a task that is registered. -/
def triggerSection (manager : DrccpServerManager) (management : Endpoint) (taskid : UInt64)
    (attr : Attr) : Except Fault Advance :=
  let succeed (status : DeployTaskstatus) (started : Option SubmitRequest) : Thread :=
    .finished (some (finish endpoint management taskid
      ((deployResponse.setDeployStatus .succeed).setDeployTaskstatus status))) started
  if attr.trigger = Trigger.create.toUInt32 then do
    let started ← submit manager name tm taskid
    if started.isSome then .ok ⟨tm, succeed .triggered started, []⟩
    else .ok ⟨tm, .undo management taskid .err, []⟩
  else if attr.trigger = Trigger.deps.toUInt32 then do
    let (judge, tm) ← tm.addDeps taskid attr.deps
    if judge = -1 then .ok ⟨tm, .undo management taskid .depsbroken, []⟩
    else .ok ⟨tm, succeed .deployed none, []⟩
  else .ok ⟨tm, succeed .deployed none, []⟩

/-- The next section of a thread; a thread that sends makes one attempt. A task that has failed is put
in front of its series again while it has retries, with the same request: no handler changes what
`doneRequest` is made of. -/
def advance (attempt : Attempt) : Thread → Except Fault Advance
  | .request manager req => requestSection endpoint name tm log manager req
  | .trigger manager management taskid attr =>
    triggerSection endpoint name tm manager management taskid attr
  | .undo management taskid status => do
    let (tm, actions) ← removeSection tm log taskid .undo
    .ok ⟨tm, .finished (some (finish endpoint management taskid
      (deployResponse.setDeployStatus status))) none, actions⟩
  | .result taskid => do
    let (tm, actions) ← removeSection tm log taskid .result
    .ok ⟨tm, if actions.isEmpty then .finished none none
      else .send ⟨taskid, deployments log taskid⟩ retryMax, actions⟩
  | .send d retries =>
    match tm.doneRequest d.taskid with
    | none => .ok ⟨tm, .finished none none, []⟩
    | some req =>
      .ok ⟨tm, if attempt.failed ∧ 0 < retries then .send d (retries - 1) else .finished none none,
        if attempt.written then [.sent d req attempt.failed] else []⟩
  | .finished reply started => .ok ⟨tm, .finished reply started, []⟩

end Sections

/-- What happens to the cluster: a request or a result arrives, or a thread goes on. -/
inductive ClusterInput
  | request (manager : DrccpServerManager) (req : Request)
  | result (result : Str)
  | resume (thread : ℕ) (attempt : Attempt)

/-- One step of the cluster. -/
def clusterThreads (codec : SubmitCodec) (endpoint : Endpoint) (name : Str) (x : Cluster) :
    ClusterInput → Except Fault Cluster
  | .request manager req => .ok { x with threads := x.threads ++ [.request manager req] }
  | .result result =>
    if result = [] then .ok x
    else .ok { x with
      threads := x.threads ++ [.result (codec.parseResponse result).taskid.toUInt64] }
  | .resume i attempt =>
    match x.threads[i]? with
    | none => .ok x
    | some thread => do
      let a ← advance endpoint name x.manager x.log attempt thread
      .ok ⟨a.manager, x.threads.set i a.thread, x.log ++ a.actions⟩

/-! ## A thread that nobody interrupts -/

section Alone

variable {codec : SubmitCodec} {endpoint : Endpoint} {name : Str} {tm : Taskmanager}
  {log : List Action}

/-- The manager and the thread after some sections of one thread. -/
def alone (codec : SubmitCodec) (endpoint : Endpoint) (name : Str) (tm : Taskmanager)
    (log : List Action) (thread : Thread) (sections : ℕ) : Except Fault (Taskmanager × List Thread) :=
  (run (clusterThreads codec endpoint name) ⟨tm, [thread], log⟩
    (List.replicate sections (.resume 0 .answered))).map fun x => (x.manager, x.threads)

theorem alone_succ (thread : Thread) (n : ℕ) :
    alone codec endpoint name tm log thread (n + 1) =
      advance endpoint name tm log .answered thread >>= fun a =>
        alone codec endpoint name a.manager (log ++ a.actions) a.thread n := by
  unfold alone
  rw [List.replicate_succ]
  cases h : advance endpoint name tm log .answered thread with
  | error f =>
    have hstep : clusterThreads codec endpoint name ⟨tm, [thread], log⟩ (.resume 0 .answered) =
        .error f := by
      simp [clusterThreads, h]
    rw [run_cons_error hstep]
    rfl
  | ok a =>
    have hstep : clusterThreads codec endpoint name ⟨tm, [thread], log⟩ (.resume 0 .answered) =
        .ok ⟨a.manager, [a.thread], log ++ a.actions⟩ := by
      simp [clusterThreads, h]
    rw [run_cons_ok hstep]
    rfl

theorem alone_finished (reply : Option Response) (started : Option SubmitRequest) (n : ℕ) :
    alone codec endpoint name tm log (.finished reply started) n =
      .ok (tm, [.finished reply started]) := by
  induction n generalizing log with
  | zero => rfl
  | succ n ih =>
    rw [alone_succ]
    exact ih

variable (codec endpoint name tm log) in
/-- A thread that ends with the section of `remove_task`. -/
theorem alone_removal (taskid : UInt64) (cause : Cause) (reply : Option Response) (n : ℕ) :
    (removeSection tm log taskid cause >>= fun x =>
      alone codec endpoint name x.1 (log ++ x.2) (.finished reply none) n) =
      (tm.removeTask taskid false).map fun x => (x.1, [.finished reply none]) := by
  unfold removeSection Taskmanager.removeTask
  cases tm.tasks.lookup taskid with
  | none => exact alone_finished ..
  | some iter =>
    cases h : tm.eraseTask taskid iter with
    | error f =>
      simp only [h]
      rfl
    | ok tm' =>
      simp only [h]
      exact alone_finished ..

/-- The reply, the submission and the manager of a request, as the end of its thread. -/
def endOf (finish : Response → Response) (x : Response × Option SubmitRequest × Taskmanager) :
    Taskmanager × List Thread := (x.2.2, [.finished (some (finish x.1)) x.2.1])

theorem alone_undo (management : Endpoint) (taskid : UInt64) (status : DeployStatus) (n : ℕ) :
    alone codec endpoint name tm log (.undo management taskid status) (n + 1) =
      (undo tm taskid deployResponse status).map (endOf (finish endpoint management taskid)) := by
  have hremoval := alone_removal codec endpoint name tm log taskid .undo
    (some (finish endpoint management taskid (deployResponse.setDeployStatus status))) n
  rw [alone_succ, advance, undo]
  cases h : tm.removeTask taskid false with
  | error f =>
    rw [h] at hremoval
    rw [bind_assoc]
    exact hremoval
  | ok out =>
    rw [h] at hremoval
    rw [bind_assoc]
    exact hremoval

theorem alone_trigger (manager : DrccpServerManager) (management : Endpoint) (taskid : UInt64)
    (attr : Attr) (n : ℕ) :
    alone codec endpoint name tm log (.trigger manager management taskid attr) (n + 2) =
      (trigger manager name tm taskid attr deployResponse).map
        (endOf (finish endpoint management taskid)) := by
  rw [alone_succ, advance, triggerSection, trigger]
  split_ifs
  · cases submit manager name tm taskid with
    | error f => rfl
    | ok started =>
      cases started with
      | none => exact alone_undo ..
      | some sub => exact alone_finished ..
  · cases tm.addDeps taskid attr.deps with
    | error f => rfl
    | ok out =>
      obtain ⟨judge, tm'⟩ := out
      by_cases hjudge : judge = -1
      · simp only [ok_bind, if_pos hjudge]
        exact alone_undo ..
      · simp only [ok_bind, if_neg hjudge]
        exact alone_finished ..
  · exact alone_finished ..

/-- **A request that nobody interrupts** does what `process` does, in at most three sections. -/
theorem alone_eq_process (codec : SubmitCodec) (endpoint : Endpoint) (name : Str) (tm : Taskmanager)
    (log : List Action) (manager : DrccpServerManager) (req : Request) :
    alone codec endpoint name tm log (.request manager req) 3 =
      (process endpoint manager name tm req).map fun out =>
        (out.manager, [.finished out.reply out.started]) := by
  rw [alone_succ, advance, requestSection, process]
  cases req.object.management with
  | none =>
    dsimp only [ok_bind]
    exact alone_finished ..
  | some management =>
    dsimp only
    split_ifs
    · dsimp only [ok_bind]
      exact alone_finished ..
    · cases req.attr with
      | none =>
        dsimp only [ok_bind]
        exact alone_finished ..
      | some attr =>
        cases req.datasource with
        | none =>
          dsimp only [ok_bind]
          exact alone_finished ..
        | some datasource =>
          dsimp only [ok_bind]
          rw [deploySection, deploy]
          split_ifs
          · exact alone_finished ..
          · obtain ⟨judge, tm'⟩ := register tm req.taskid datasource attr
            by_cases hjudge : judge = -1
            · simp only [if_pos hjudge]
              exact alone_finished ..
            · simp only [if_neg hjudge]
              rw [alone_trigger, deployResponse]
              cases trigger manager name tm' req.taskid attr _ <;> rfl
    · rw [bind_assoc]
      refine (alone_removal codec endpoint name tm log req.taskid .terminate _ 2).trans ?_
      cases tm.removeTask req.taskid false <;> rfl
    · cases submit manager name tm req.taskid with
      | error f => rfl
      | ok started =>
        dsimp only [ok_bind]
        exact alone_finished ..
    · dsimp only [ok_bind]
      exact alone_finished ..

end Alone

/-! ## What a section does -/

/-- Everything that one section of a thread can do. -/
inductive SectionEffect (tm : Taskmanager) (log : List Action) (thread : Thread) (a : Advance) : Prop
  | idle (htasks : ∀ t, t ∈ a.manager.tasks ↔ t ∈ tm.tasks) (hactions : a.actions = [])
    (hsending : a.thread.sending = none)
  | deployed (t : UInt64) (hnew : t ∉ tm.tasks)
    (htasks : ∀ t', t' ∈ a.manager.tasks ↔ t' = t ∨ t' ∈ tm.tasks)
    (hactions : a.actions = [.deployed ⟨t, deployments log t + 1⟩])
    (hsending : a.thread.sending = none)
  | removed (t : UInt64) (cause : Cause) (hold : t ∈ tm.tasks)
    (htasks : ∀ t', t' ∈ a.manager.tasks ↔ t' ≠ t ∧ t' ∈ tm.tasks)
    (hactions : a.actions = [.removed ⟨t, deployments log t⟩ cause])
    (hsending : ∀ p ∈ a.thread.sending,
      cause = .result ∧ p = (⟨t, deployments log t⟩, retryMax))
  | attempted (d : Deployment) (retries : ℕ) (failed : Bool)
    (hsends : thread.sending = some (d, retries)) (htasks : ∀ t, t ∈ a.manager.tasks ↔ t ∈ tm.tasks)
    (hactions : a.actions = [] ∨ ∃ req, req.taskid = d.taskid ∧ a.actions = [.sent d req failed])
    (hsending : ∀ p ∈ a.thread.sending, failed = true ∧ p.1 = d ∧ p.2 < retries)

section Effects

variable {endpoint : Endpoint} {name : Str} {tm : Taskmanager} {log : List Action}
  {attempt : Attempt} {thread : Thread} {a : Advance}

theorem addDepsLoop_tasks {tm tm' : Taskmanager} {pos : ℕ} {deps : List UInt64} {judge : ℤ}
    (h : tm.addDepsLoop pos deps = .ok (judge, tm')) : tm'.tasks = tm.tasks := by
  induction deps generalizing tm with
  | nil =>
    cases h
    rfl
  | cons dep deps ih =>
    rw [Taskmanager.addDepsLoop] at h
    split at h
    · cases h
      rfl
    · split at h
      · cases h
      · -- the loop goes on with other edges and the same tasks
        have htasks := ih h
        exact htasks

theorem addDeps_tasks {tm tm' : Taskmanager} {t : UInt64} {deps : List UInt64} {judge : ℤ}
    (h : tm.addDeps t deps = .ok (judge, tm')) : tm'.tasks = tm.tasks := by
  unfold Taskmanager.addDeps at h
  split at h
  · cases h
    rfl
  · exact addDepsLoop_tasks h

/-- The section of `remove_task` removes a task that is there, and does nothing otherwise. -/
theorem removeSection_ok {t : UInt64} {cause : Cause} {out : Taskmanager × List Action}
    (h : removeSection tm log t cause = .ok out) :
    (out = (tm, []) ∨ t ∈ tm.tasks ∧ (∀ t', t' ∈ out.1.tasks ↔ t' ≠ t ∧ t' ∈ tm.tasks) ∧
      out.2 = [.removed ⟨t, deployments log t⟩ cause]) := by
  unfold removeSection at h
  split at h
  · cases h
    exact .inl rfl
  · rename_i info hinfo
    obtain ⟨tm', herase, h⟩ := bind_eq_ok.mp h
    cases h
    obtain ⟨-, rfl⟩ := of_eraseTask herase
    exact .inr ⟨AList.lookup_isSome.mp (by rw [hinfo]; rfl), fun t' => AList.mem_erase, rfl⟩

theorem deploySection_effect (manager : DrccpServerManager) (management : Endpoint) (t : UInt64)
    (datasource : Datasource) (attr : Attr) : SectionEffect tm log thread
      (deploySection endpoint tm log manager management t datasource attr) := by
  unfold deploySection
  by_cases htype : datasource.src.type ≠ lit "data" ∧ datasource.src.type ≠ lit "endpoint"
  · rw [if_pos htype]
    exact .idle (fun _ => Iff.rfl) rfl rfl
  · rw [if_neg htype]
    by_cases hmem : t ∈ tm.tasks
    · rw [register_old hmem]
      exact .idle (fun _ => Iff.rfl) rfl rfl
    · obtain ⟨info, -, hregister⟩ := register_new hmem datasource attr
      rw [hregister]
      exact .deployed t hmem (fun t' => AList.mem_insert _) rfl rfl

theorem requestSection_effect {manager : DrccpServerManager} {req : Request}
    (h : requestSection endpoint name tm log manager req = .ok a) :
    SectionEffect tm log thread a := by
  unfold requestSection at h
  split at h
  · cases h
    exact .idle (fun _ => Iff.rfl) rfl rfl
  · split_ifs at h
    · cases h
      exact .idle (fun _ => Iff.rfl) rfl rfl
    · split at h
      · cases h
        exact deploySection_effect ..
      · cases h
        exact .idle (fun _ => Iff.rfl) rfl rfl
    · obtain ⟨out, hout, h⟩ := bind_eq_ok.mp h
      cases h
      rcases removeSection_ok hout with rfl | ⟨hold, htasks, hactions⟩
      · exact .idle (fun _ => Iff.rfl) rfl rfl
      · exact .removed req.taskid .terminate hold htasks hactions nofun
    · obtain ⟨started, -, h⟩ := bind_eq_ok.mp h
      cases h
      exact .idle (fun _ => Iff.rfl) rfl rfl
    · cases h
      exact .idle (fun _ => Iff.rfl) rfl rfl

theorem triggerSection_effect {manager : DrccpServerManager} {management : Endpoint} {t : UInt64}
    {attr : Attr} (h : triggerSection endpoint name tm manager management t attr = .ok a) :
    SectionEffect tm log thread a := by
  unfold triggerSection at h
  dsimp only at h
  split_ifs at h
  · obtain ⟨started, -, h⟩ := bind_eq_ok.mp h
    split_ifs at h <;> cases h <;> exact .idle (fun _ => Iff.rfl) rfl rfl
  · obtain ⟨⟨judge, tm'⟩, hdeps, h⟩ := bind_eq_ok.mp h
    have htasks := addDeps_tasks hdeps
    have hmem (t' : UInt64) : t' ∈ tm'.tasks ↔ t' ∈ tm.tasks := by rw [htasks]
    dsimp only at h
    split_ifs at h <;> cases h <;> exact .idle hmem rfl rfl
  · cases h
    exact .idle (fun _ => Iff.rfl) rfl rfl

/-- **Everything that one section can do.** -/
theorem advance_effect (h : advance endpoint name tm log attempt thread = .ok a) :
    SectionEffect tm log thread a := by
  cases thread with
  | request manager req => exact requestSection_effect h
  | trigger manager management taskid attr => exact triggerSection_effect h
  | undo management taskid status =>
    obtain ⟨out, hout, h⟩ := bind_eq_ok.mp h
    cases h
    rcases removeSection_ok hout with rfl | ⟨hold, htasks, hactions⟩
    · exact .idle (fun _ => Iff.rfl) rfl rfl
    · exact .removed taskid .undo hold htasks hactions nofun
  | result taskid =>
    obtain ⟨out, hout, h⟩ := bind_eq_ok.mp h
    cases h
    rcases removeSection_ok hout with rfl | ⟨hold, htasks, hactions⟩
    · exact .idle (fun _ => Iff.rfl) rfl rfl
    · refine .removed taskid .result hold htasks hactions fun d hd => ?_
      simp only [hactions, List.isEmpty_cons] at hd
      cases hd
      exact ⟨rfl, rfl⟩
  | send d retries =>
    rw [advance] at h
    cases hdone : tm.doneRequest d.taskid with
    | none =>
      rw [hdone] at h
      cases h
      exact .idle (fun _ => Iff.rfl) rfl rfl
    | some req =>
      rw [hdone] at h
      cases h
      refine .attempted d retries attempt.failed rfl (fun _ => Iff.rfl) ?_ fun p hp => ?_
      · cases attempt.written
        · exact .inl rfl
        · exact .inr ⟨req, taskid_doneRequest hdone, rfl⟩
      · -- the task is there for another attempt only if this one has failed
        by_cases hretry : attempt.failed ∧ 0 < retries
        · rw [if_pos hretry] at hp
          cases hp
          exact ⟨hretry.1, rfl, Nat.sub_lt hretry.2 Nat.one_pos⟩
        · rw [if_neg hretry] at hp
          cases hp
  | finished reply started =>
    cases h
    exact .idle (fun _ => Iff.rfl) rfl rfl

end Effects

/-! ## Runs -/

/-- The completions that threads have still to send. -/
def sending (threads : List Thread) : List (Deployment × ℕ) := threads.filterMap Thread.sending

/-- What is to be sent for a removed deployment: all its attempts have failed, and together with the
retries they are no more than `retryMax`. -/
def Pending (log : List Action) (p : Deployment × ℕ) : Prop :=
  .removed p.1 .result ∈ log ∧ ∃ k, sends log p.1 = List.replicate k true ∧ k + p.2 ≤ retryMax

/-- What holds of the cluster between two sections. -/
structure Consistent (x : Cluster) : Prop where
  history : History x.log
  tasks : ∀ t, current x.log t =
    if t ∈ x.manager.tasks then some (deployments x.log t) else none
  nodup : ((sending x.threads).map Prod.fst).Nodup
  pending : ∀ p ∈ sending x.threads, Pending x.log p

section Runs

variable {codec : SubmitCodec} {endpoint : Endpoint} {name : Str} {x y : Cluster}

theorem Blank.consistent {tm : Taskmanager} (h : Blank tm) : Consistent ⟨tm, [], []⟩ where
  history := .nil
  tasks := fun t => by
    rw [h.tasks]
    rfl
  nodup := List.nodup_nil
  pending := nofun

/-- What is pending for a deployment stays so while no `done` is sent for it. -/
theorem Pending.concat {log : List Action} {p : Deployment × ℕ} (h : Pending log p) {a : Action}
    (ha : a.sendOf p.1 = none) : Pending (log ++ [a]) p := by
  obtain ⟨hremoved, k, hsends, hk⟩ := h
  exact ⟨List.mem_append_left _ hremoved, k, (sends_other _ ha).trans hsends, hk⟩

/-- The completions that one thread and the others have to send. -/
theorem sending_set {threads : List Thread} {i : ℕ} {thread : Thread}
    (h : threads[i]? = some thread) : ∃ rest, (sending threads).Perm (thread.sending.toList ++ rest) ∧
      ∀ thread' : Thread,
        (sending (threads.set i thread')).Perm (thread'.sending.toList ++ rest) := by
  obtain ⟨hlt, rfl⟩ := List.getElem?_eq_some_iff.mp h
  -- the others stand before and after the thread
  have hmiddle (t : Thread) (before after : List Thread) : (sending (before ++ t :: after)).Perm
      (t.sending.toList ++ (sending before ++ sending after)) := by
    unfold sending
    rw [List.filterMap_append, List.filterMap_cons]
    cases t.sending with
    | none => exact .refl _
    | some d => exact List.perm_middle
  refine ⟨sending (threads.take i) ++ sending (threads.drop (i + 1)), ?_, fun thread' => ?_⟩
  · have hsplit := hmiddle threads[i] (threads.take i) (threads.drop (i + 1))
    rwa [List.getElem_cons_drop, List.take_append_drop] at hsplit
  · rw [List.set_eq_take_append_cons_drop, if_pos hlt]
    exact hmiddle ..

/-- More threads that have nothing to send. -/
theorem Consistent.arrive (h : Consistent x) {thread : Thread} (hthread : thread.sending = none) :
    Consistent { x with threads := x.threads ++ [thread] } := by
  have hsending : sending (x.threads ++ [thread]) = sending x.threads := by
    simp [sending, hthread]
  exact ⟨h.history, h.tasks, by rw [hsending]; exact h.nodup, by rw [hsending]; exact h.pending⟩

/-- Whatever a thread does, the others have the same to send. -/
theorem Consistent.others (h : Consistent x) {thread : Thread} {rest : List (Deployment × ℕ)}
    (hsending : (sending x.threads).Perm (thread.sending.toList ++ rest)) :
    (rest.map Prod.fst).Nodup ∧ (∀ p ∈ rest, Pending x.log p) ∧
      ∀ p ∈ thread.sending, Pending x.log p ∧ ∀ q ∈ rest, p.1 ≠ q.1 := by
  have hnodup := (hsending.map Prod.fst).nodup_iff.mp h.nodup
  rw [List.map_append] at hnodup
  have hsplit := List.nodup_append'.mp hnodup
  refine ⟨hsplit.2.1, fun p hp => h.pending p ?_, fun p hp => ⟨h.pending p ?_, fun q hq heq => ?_⟩⟩
  · exact hsending.mem_iff.mpr (List.mem_append_right _ hp)
  · exact hsending.mem_iff.mpr (List.mem_append_left _ (Option.mem_toList.mpr hp))
  · exact hsplit.2.2 (List.mem_map_of_mem (Option.mem_toList.mpr hp))
      (heq ▸ List.mem_map_of_mem hq)

/-- What one thread and the others have to send is for different deployments. -/
theorem nodup_sending {thread : Thread} {rest : List (Deployment × ℕ)}
    (hrest : (rest.map Prod.fst).Nodup) (hne : ∀ p ∈ thread.sending, ∀ q ∈ rest, p.1 ≠ q.1) :
    ((thread.sending.toList ++ rest).map Prod.fst).Nodup := by
  cases hsending : thread.sending with
  | none => exact hrest
  | some p =>
    refine List.nodup_cons.mpr ⟨fun hmem => ?_, hrest⟩
    obtain ⟨q, hq, heq⟩ := List.mem_map.mp hmem
    exact hne p hsending q hq heq.symm

/-- **One section keeps the cluster consistent.** -/
theorem Consistent.advance (h : Consistent x) {i : ℕ} {thread : Thread}
    (hthread : x.threads[i]? = some thread) {a : Advance}
    (ha : SectionEffect x.manager x.log thread a) :
    Consistent ⟨a.manager, x.threads.set i a.thread, x.log ++ a.actions⟩ := by
  obtain ⟨rest, hperm, hset⟩ := sending_set hthread
  obtain ⟨hnodup, hpending, hthread⟩ := h.others hperm
  have hset := hset a.thread
  cases ha with
  | idle htasks hactions hsending =>
    rw [hsending] at hset
    rw [hactions, List.append_nil]
    refine ⟨h.history, fun t => ?_, (hset.map _).nodup_iff.mpr hnodup,
      fun p hp => hpending p (hset.mem_iff.mp hp)⟩
    simp only [htasks]
    exact h.tasks t
  | deployed t hnew htasks hactions hsending =>
    rw [hsending] at hset
    rw [hactions]
    have hfree : current x.log t = none := by rw [h.tasks, if_neg hnew]
    refine ⟨h.history.deployed t hfree, fun t' => ?_, (hset.map _).nodup_iff.mpr hnodup,
      fun p hp => (hpending p (hset.mem_iff.mp hp)).concat rfl⟩
    dsimp only
    rw [current_concat, deployments_deployed, Action.effect]
    rcases eq_or_ne t' t with rfl | hne
    · rw [Lease.step_acquire, if_pos ((htasks t').mpr (.inl rfl)), if_pos rfl]
    · rw [Lease.step_acquire_ne _ hne, h.tasks, if_neg hne.symm]
      simp [htasks, hne]
  | removed t cause hold htasks hactions hsending =>
    rw [hactions]
    have hforce : current x.log t = some (deployments x.log t) := by rw [h.tasks, if_pos hold]
    have hhistory := h.history.removed ⟨t, deployments x.log t⟩ cause hforce
    refine ⟨hhistory, fun t' => ?_, ?_, fun p hp => ?_⟩
    · dsimp only
      rw [current_concat, deployments_other _ rfl, Action.effect]
      rcases eq_or_ne t' t with rfl | hne
      · rw [Lease.step_release, if_neg fun hmem => ((htasks t').mp hmem).1 rfl]
      · rw [Lease.step_release_ne _ hne, h.tasks]
        simp [htasks, hne]
    · refine (hset.map _).nodup_iff.mpr (nodup_sending hnodup fun p hp q hq heq => ?_)
      -- a deployment that another thread completes is not in force
      obtain ⟨-, rfl⟩ := hsending p hp
      exact (h.history.of_removed (heq ▸ (hpending q hq).1)).2 hforce
    · rcases List.mem_append.mp (hset.mem_iff.mp hp) with hp | hp
      · obtain ⟨rfl, rfl⟩ := hsending p (Option.mem_toList.mp hp)
        refine ⟨List.mem_append_right _ (List.mem_singleton.mpr rfl), 0, ?_, Nat.le_of_eq (zero_add _)⟩
        rw [sends_other _ rfl]
        rcases h.history.sends_eq ⟨t, deployments x.log t⟩ with hnil | ⟨k, failed, -, hsends⟩
        · exact hnil
        · -- what was sent was removed before
          have hmem : failed ∈ sends x.log ⟨t, deployments x.log t⟩ := by simp [hsends]
          have hdone := h.history.of_completed (mem_completed_of_sends hmem)
          exact absurd hforce (h.history.of_removed hdone).2
      · exact (hpending p hp).concat rfl
  | attempted d retries failed hsends htasks hactions hsending =>
    obtain ⟨⟨hremoved, k, hk, hle⟩, hother⟩ := hthread _ hsends
    have hcurrent (t : UInt64) : current x.log t =
        if t ∈ a.manager.tasks then some (deployments x.log t) else none := by
      simp only [htasks]
      exact h.tasks t
    have hnodup' : ((sending (x.threads.set i a.thread)).map Prod.fst).Nodup := by
      refine (hset.map _).nodup_iff.mpr (nodup_sending hnodup fun p hp q hq => ?_)
      rw [(hsending p hp).2.1]
      exact hother q hq
    rcases hactions with hnone | ⟨req, hid, hsent⟩
    · -- the connection failed before the request was written
      rw [hnone, List.append_nil]
      refine ⟨h.history, hcurrent, hnodup', fun p hp => ?_⟩
      rcases List.mem_append.mp (hset.mem_iff.mp hp) with hp | hp
      · obtain ⟨-, rfl, hlt⟩ := hsending p (Option.mem_toList.mp hp)
        exact ⟨hremoved, k, hk, (Nat.add_le_add_left hlt.le k).trans hle⟩
      · exact hpending p hp
    · rw [hsent]
      refine ⟨h.history.sent d req failed k hremoved hk (Nat.le_of_add_right_le hle) hid,
        fun t => ?_, hnodup', fun p hp => ?_⟩
      · dsimp only
        rw [current_concat, deployments_other _ rfl]
        exact hcurrent t
      · rcases List.mem_append.mp (hset.mem_iff.mp hp) with hp | hp
        · obtain ⟨rfl, rfl, hlt⟩ := hsending p (Option.mem_toList.mp hp)
          refine ⟨List.mem_append_left _ hremoved, k + 1, ?_, ?_⟩
          · rw [sends_sent, hk, List.replicate_succ']
          · have hle : k + retries ≤ retryMax := hle
            omega
        · exact (hpending p hp).concat (sendOf_ne (hother p hp))

theorem Consistent.step (h : Consistent x) {i : ClusterInput}
    (hi : clusterThreads codec endpoint name x i = .ok y) : Consistent y := by
  cases i with
  | request manager req =>
    cases hi
    exact h.arrive rfl
  | result result =>
    rw [clusterThreads] at hi
    split_ifs at hi
    · cases hi
      exact h
    · cases hi
      exact h.arrive rfl
  | resume i attempt =>
    rw [clusterThreads] at hi
    split at hi
    · cases hi
      exact h
    · rename_i thread hthread
      obtain ⟨a, ha, hi⟩ := bind_eq_ok.mp hi
      cases hi
      exact h.advance hthread (advance_effect ha)

/-- **Completed at most once, up to the retry.** In every run of the threads from a manager without
tasks in which no access to the matrix is out of range: no id has more `done` messages than deployments
and messages whose connection has failed; a deployment has at most two, the second one after the first
has failed; a `done` is sent after the removal of its deployment for a result, and for none that was
removed for another reason. What is removed is in force then, and the deployments in force are the
tasks of the manager. -/
theorem completion_once {tm₀ : Taskmanager} (h : Blank tm₀) {inputs : List ClusterInput}
    (hrun : run (clusterThreads codec endpoint name) ⟨tm₀, [], []⟩ inputs = .ok x) :
    (∀ t, x.log.countP (Action.isDone t) ≤
      deployments x.log t + x.log.countP (Action.isLost t)) ∧
    (∀ d, sends x.log d = [] ∨ ∃ failed, sends x.log d = [failed] ∨ sends x.log d = [true, failed]) ∧
    (∀ pre d req failed post, x.log = pre ++ .sent d req failed :: post →
      .removed d .result ∈ pre ∧ req.taskid = d.taskid) ∧
    (∀ d ∈ completed x.log, ∀ cause, .removed d cause ∈ x.log → cause = .result) ∧
    (∀ pre d cause post, x.log = pre ++ .removed d cause :: post →
      current pre d.taskid = some d.number) ∧
    ∀ t, current x.log t = if t ∈ x.manager.tasks then some (deployments x.log t) else none := by
  have hx : Consistent x := run_invariant (fun _ _ _ hs hi => hs.step hi) h.consistent hrun
  refine ⟨hx.history.done_le, fun d => ?_, fun pre d req failed post => hx.history.of_sent,
    fun d hd cause hremoved => ?_, fun pre d cause post => hx.history.in_force, hx.tasks⟩
  · rcases hx.history.sends_eq d with hnil | ⟨k, failed, hk, hsends⟩
    · exact .inl hnil
    · rcases Nat.le_one_iff_eq_zero_or_eq_one.mp hk with rfl | rfl
      · exact .inr ⟨failed, .inl hsends⟩
      · exact .inr ⟨failed, .inr hsends⟩
  · exact hx.history.cause_eq hremoved (hx.history.of_completed hd)

def terminateRequest (taskid : UInt64) : Request :=
  ((Request.new.setType .management .cluster .terminate).setTaskid taskid).setObjectManagement
    Endpoint.new

/-- A cluster that knows itself and its storage. -/
def knownCluster : Taskmanager :=
  let endpoint := ((Endpoint.new.setProto (lit "tcp")).2.setUrl (lit "c")).setPort 1
  { Taskmanager.new with client := some ⟨endpoint, false, []⟩, server := some endpoint }

/-- An attempt whose connection fails after the request was written. -/
def Attempt.lost : Attempt := ⟨true, true⟩

/-- Task `5` is deployed and a result removes it; it is deployed again and terminated before the
`done` of the result is sent, the connection fails before the reply, the `done` is sent again, and a
second result finds nothing. -/
theorem completion_once_five : ∃ x,
    run (clusterThreads wireCodec Endpoint.new (lit "c")) ⟨knownCluster, [], []⟩
      [.request oneServer (depsRequest 5 []), .resume 0 .answered, .result [8, 5],
        .resume 1 .answered, .request oneServer (depsRequest 5 []), .resume 2 .answered,
        .request oneServer (terminateRequest 5), .resume 3 .answered, .resume 1 .lost,
        .resume 1 .answered, .result [8, 5], .resume 4 .answered] = .ok x ∧
    deployments x.log 5 = 2 ∧ x.log.countP (Action.isDone 5) = 2 ∧
    x.log.countP (Action.isDone 5) ≤ deployments x.log 5 + x.log.countP (Action.isLost 5) ∧
    sends x.log ⟨5, 1⟩ = [true, false] := by
  have hrun : run (clusterThreads wireCodec Endpoint.new (lit "c")) ⟨knownCluster, [], []⟩
      [.request oneServer (depsRequest 5 []), .resume 0 .answered, .result [8, 5],
        .resume 1 .answered, .request oneServer (depsRequest 5 []), .resume 2 .answered,
        .request oneServer (terminateRequest 5), .resume 3 .answered, .resume 1 .lost,
        .resume 1 .answered, .result [8, 5], .resume 4 .answered] = .ok _ := rfl
  exact ⟨_, hrun, rfl, rfl, (completion_once ⟨rfl, rfl⟩ hrun).1 5, rfl⟩

/-- **One deployment and two `done` messages.** The connection fails after the first one. -/
theorem completed_twice : ∃ x,
    run (clusterThreads wireCodec Endpoint.new (lit "c")) ⟨knownCluster, [], []⟩
      [.request oneServer (depsRequest 5 []), .resume 0 .answered, .result [8, 5],
        .resume 1 .answered, .resume 1 .lost, .resume 1 .answered] = .ok x ∧
    deployments x.log 5 = 1 ∧ x.log.countP (Action.isDone 5) = 2 :=
  ⟨_, rfl, rfl, rfl⟩

end Runs

end Jxtd.Computation
