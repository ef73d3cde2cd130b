import Jxtd.Computation.Completion

/-!
# The program of a cluster

`computation/bin/main.cc` gives the task manager the endpoints that a `done` is sent between, before
the servers start; nothing changes them afterwards. The one of the cluster gets no port.

* `setSrc`, `setDest`: `Taskmanager::set_src` and `set_dest`; `ends`: what they set.
* `taskManager`: the manager of `main`.
* `ends_process`, `ends_advance`: no handler changes the endpoints.
* `completed_taskManager`: the cluster of `main` completes no task.
* **`done_sent_iff`**: when a cluster can complete a task at all; the one of `main` never does.
-/

namespace Jxtd.Infer

open Lib Taskdep

namespace Taskmanager

def setSrc (tm : Taskmanager) (endpoint : Endpoint) (ssl : Bool) (token : Str) : Taskmanager :=
  { tm with client := some ⟨endpoint, ssl, token⟩ }

def setDest (tm : Taskmanager) (storage : Endpoint) : Taskmanager :=
  { tm with server := some storage }

/-- The endpoints of the cluster and of its storage. -/
def ends (tm : Taskmanager) : Option ClusterClient × Option Endpoint := (tm.client, tm.server)

/-- A `done` can be sent: both endpoints are set, and pass their checks. -/
def Sends (tm : Taskmanager) : Prop :=
  ∃ client server, tm.ends = (some client, some server) ∧ client.endpoint.check = true ∧
    server.check = true

theorem doneRequest_of_sends {tm : Taskmanager} (h : tm.Sends) (t : UInt64) :
    ∃ req, tm.doneRequest t = some req := by
  obtain ⟨client, server, hends, hclient, hserver⟩ := h
  obtain ⟨hc, hs⟩ := Prod.mk.inj hends
  rw [doneRequest, hc, hs]
  simp [hclient, hserver]

theorem sends_of_doneRequest {tm : Taskmanager} {t : UInt64} {req : Request}
    (h : tm.doneRequest t = some req) : tm.Sends := by
  rw [doneRequest] at h
  split at h
  · rename_i client server hc hs
    split_ifs at h with hcheck
    obtain ⟨hclient, hserver⟩ := Bool.and_eq_true_iff.mp hcheck
    exact ⟨client, server, Prod.ext hc hs, hclient, hserver⟩
  · cases h

theorem sends_congr {tm tm' : Taskmanager} (h : tm'.ends = tm.ends) : tm'.Sends ↔ tm.Sends := by
  rw [Sends, Sends, h]

end Taskmanager

end Jxtd.Infer

namespace Jxtd.Computation

open Lib Taskdep Infer

/-! ## What main sets up -/

/-- The flags of the endpoints. -/
structure Flags where
  compTaskdepCliAddr : Str
  compTaskdepStorAddr : Str
  compTaskdepStorPort : Int32
  compTaskdepCert : Str
  compStorToken : Str

/-- The endpoints of `main`, with the protocol and the authentication that it sets. -/
def newEndpoint (url : Str) : Endpoint :=
  ((Endpoint.new.setProto (lit "jxtd")).2.setAuthtype 0x0).2.setUrl url

/-- The task manager when `main` starts the servers. -/
def taskManager (flags : Flags) : Taskmanager :=
  let srcEndpoint := newEndpoint flags.compTaskdepCliAddr
  let destEndpoint := (newEndpoint flags.compTaskdepStorAddr).setPort
    flags.compTaskdepStorPort.toUInt32
  (Taskmanager.new.setSrc srcEndpoint (!flags.compTaskdepCert.isEmpty) flags.compStorToken).setDest
    destEndpoint

theorem blank_taskManager (flags : Flags) : Blank (taskManager flags) := ⟨rfl, rfl⟩

/-- The endpoint of the cluster has no port. -/
theorem port_taskManager {flags : Flags} {client : ClusterClient}
    (h : (taskManager flags).client = some client) : client.endpoint.port = 0 := by
  cases h
  rfl

theorem not_sends_taskManager (flags : Flags) : ¬ (taskManager flags).Sends := by
  rintro ⟨client, server, hends, hclient, -⟩
  obtain ⟨hc, -⟩ := Prod.mk.inj hends
  simp [Endpoint.check, port_taskManager hc] at hclient

/-! ## No handler changes the endpoints -/

section Ends

variable {endpoint : Endpoint} {name : Str} {tm tm' : Taskmanager} {log : List Action} {t : UInt64}

theorem ends_eraseTask {info : Taskinfo} (h : tm.eraseTask t info = .ok tm') :
    tm'.ends = tm.ends := by
  obtain ⟨-, rfl⟩ := of_eraseTask h
  rfl

theorem ends_register (tm : Taskmanager) (t : UInt64) (datasource : Datasource) (attr : Attr) :
    (register tm t datasource attr).2.ends = tm.ends := by
  by_cases hmem : t ∈ tm.tasks
  · rw [register_old hmem]
  · obtain ⟨info, -, hregister⟩ := register_new hmem datasource attr
    rw [hregister]
    rfl

theorem ends_addDepsLoop {pos : ℕ} {deps : List UInt64} {judge : ℤ}
    (h : tm.addDepsLoop pos deps = .ok (judge, tm')) : tm'.ends = tm.ends := by
  induction deps generalizing tm with
  | nil =>
    cases h
    rfl
  | cons dep deps ih =>
    rw [Taskmanager.addDepsLoop] at h
    split at h
    · cases h
      rfl
    · split at h
      · cases h
      · rw [ih h]
        rfl

theorem ends_addDeps {deps : List UInt64} {judge : ℤ}
    (h : tm.addDeps t deps = .ok (judge, tm')) : tm'.ends = tm.ends := by
  unfold Taskmanager.addDeps at h
  split at h
  · cases h
    rfl
  · exact ends_addDepsLoop h

theorem ends_removeTask {send : Bool} {done : Option Request}
    (h : tm.removeTask t send = .ok (tm', done)) : tm'.ends = tm.ends := by
  unfold Taskmanager.removeTask at h
  split at h
  · cases h
    rfl
  · split at h
    · cases h
    · rename_i herase
      cases h
      exact ends_eraseTask herase

/-- A removal that is reported. -/
theorem sends_of_removeTask {send : Bool} {req : Request}
    (h : tm.removeTask t send = .ok (tm', some req)) : tm'.Sends := by
  unfold Taskmanager.removeTask at h
  split at h
  · cases h
  · split at h
    · cases h
    · obtain ⟨rfl, hdone⟩ := Prod.mk.inj (Except.ok.inj h)
      split_ifs at hdone
      exact Taskmanager.sends_of_doneRequest hdone

theorem ends_removeSection {cause : Cause} {out : Taskmanager × List Action}
    (h : removeSection tm log t cause = .ok out) : out.1.ends = tm.ends := by
  unfold removeSection at h
  split at h
  · cases h
    rfl
  · obtain ⟨tm₁, herase, h⟩ := bind_eq_ok.mp h
    cases h
    exact ends_eraseTask herase

/-- **One section leaves the endpoints as they are.** -/
theorem ends_advance {attempt : Attempt} {thread : Thread} {a : Advance}
    (h : advance endpoint name tm log attempt thread = .ok a) : a.manager.ends = tm.ends := by
  cases thread with
  | request manager req =>
    rw [advance] at h
    unfold requestSection at h
    split at h
    · cases h
      rfl
    · split_ifs at h
      · cases h
        rfl
      · split at h
        · rename_i attr datasource _ _
          cases h
          unfold deploySection
          dsimp only
          split_ifs
          · rfl
          · exact ends_register tm req.taskid datasource attr
          · exact ends_register tm req.taskid datasource attr
        · cases h
          rfl
      · obtain ⟨out, hout, h⟩ := bind_eq_ok.mp h
        cases h
        exact ends_removeSection hout
      · obtain ⟨started, -, h⟩ := bind_eq_ok.mp h
        cases h
        rfl
      · cases h
        rfl
  | trigger manager management taskid attr =>
    rw [advance] at h
    unfold triggerSection at h
    dsimp only at h
    split_ifs at h
    · obtain ⟨started, -, h⟩ := bind_eq_ok.mp h
      split_ifs at h <;> cases h <;> rfl
    · obtain ⟨⟨judge, tm₁⟩, hdeps, h⟩ := bind_eq_ok.mp h
      have hends := ends_addDeps hdeps
      dsimp only at h
      split_ifs at h <;> cases h <;> exact hends
    · cases h
      rfl
  | undo management taskid status =>
    obtain ⟨out, hout, h⟩ := bind_eq_ok.mp h
    cases h
    exact ends_removeSection hout
  | result taskid =>
    obtain ⟨out, hout, h⟩ := bind_eq_ok.mp h
    cases h
    exact ends_removeSection hout
  | send d retries =>
    rw [advance] at h
    split at h <;> cases h <;> rfl
  | finished reply started =>
    cases h
    rfl

/-- A section that completes a deployment sends it between the endpoints. -/
theorem sends_of_advance {attempt : Attempt} {thread : Thread} {a : Advance} {d : Deployment}
    {req : Request} {failed : Bool} (h : advance endpoint name tm log attempt thread = .ok a)
    (hsent : .sent d req failed ∈ a.actions) : tm.Sends := by
  have hother {actions : List Action} (hactions : a.actions = actions)
      (hnot : ∀ act ∈ actions, act.sent? = none) : tm.Sends := by
    have hnone := hnot _ (hactions ▸ hsent)
    cases hnone
  cases advance_effect h with
  | idle _ hactions _ => exact hother hactions (by simp)
  | deployed _ _ _ hactions _ => exact hother hactions (by simp [Action.sent?])
  | removed _ _ _ _ hactions _ => exact hother hactions (by simp [Action.sent?])
  | attempted d' retries _ hsends _ _ _ =>
    obtain rfl : thread = .send d' retries := by
      cases thread <;> cases hsends
      rfl
    rw [advance] at h
    cases hdone : tm.doneRequest d'.taskid with
    | none =>
      rw [hdone] at h
      cases h
      cases hsent
    | some req' => exact Taskmanager.sends_of_doneRequest hdone

end Ends

/-! ## Runs -/

section Runs

variable {codec : SubmitCodec} {endpoint : Endpoint} {name : Str} {tm₀ : Taskmanager}
  {x y : Cluster}

/-- The endpoints are those of the start, and are used for a `done` only where they can be. -/
structure Configured (tm₀ : Taskmanager) (x : Cluster) : Prop where
  ends : x.manager.ends = tm₀.ends
  sends : completed x.log ≠ [] → tm₀.Sends

theorem Configured.step (h : Configured tm₀ x) {i : ClusterInput}
    (hi : clusterThreads codec endpoint name x i = .ok y) : Configured tm₀ y := by
  cases i with
  | request manager req =>
    cases hi
    exact ⟨h.ends, h.sends⟩
  | result result =>
    rw [clusterThreads] at hi
    split_ifs at hi
    · cases hi
      exact h
    · cases hi
      exact ⟨h.ends, h.sends⟩
  | resume i attempt =>
    rw [clusterThreads] at hi
    split at hi
    · cases hi
      exact h
    · obtain ⟨a, ha, hi⟩ := bind_eq_ok.mp hi
      cases hi
      refine ⟨(ends_advance ha).trans h.ends, fun hne => ?_⟩
      by_cases hold : completed x.log = []
      · obtain ⟨d, hd⟩ := List.exists_mem_of_ne_nil _ hne
        rw [completed, List.filterMap_append] at hd
        change d ∈ completed x.log ++ _ at hd
        rw [hold, List.nil_append] at hd
        obtain ⟨act, hact, hsent⟩ := List.mem_filterMap.mp hd
        cases act with
        | sent d' req failed => exact (Taskmanager.sends_congr h.ends).mp (sends_of_advance ha hact)
        | deployed _ => cases hsent
        | removed _ _ => cases hsent
      · exact h.sends hold

/-- **A request leaves the endpoints as they are.** -/
theorem ends_process {manager : DrccpServerManager} {req : Request} {out : Outcome}
    (hout : process endpoint manager name tm₀ req = .ok out) : out.manager.ends = tm₀.ends := by
  have halone := alone_eq_process wireCodec endpoint name tm₀ [] manager req
  rw [hout, alone] at halone
  cases hrun : run (clusterThreads wireCodec endpoint name) ⟨tm₀, [.request manager req], []⟩
    (List.replicate 3 (.resume 0 .answered)) with
  | error f =>
    rw [hrun] at halone
    cases halone
  | ok x =>
    rw [hrun] at halone
    have hx : Configured tm₀ x :=
      run_invariant (fun _ _ _ h hi => h.step hi) ⟨rfl, fun hne => absurd rfl hne⟩ hrun
    have hmanager : x.manager = out.manager := congrArg Prod.fst (Except.ok.inj halone)
    rw [← hmanager]
    exact hx.ends

/-- No run from endpoints that do not pass their checks completes a task. -/
theorem completed_eq_nil (hends : ¬ tm₀.Sends) {inputs : List ClusterInput}
    (hrun : run (clusterThreads codec endpoint name) ⟨tm₀, [], []⟩ inputs = .ok x) :
    completed x.log = [] := by
  have hstart : Configured tm₀ ⟨tm₀, [], []⟩ := ⟨rfl, fun hne => absurd rfl hne⟩
  have hx : Configured tm₀ x := run_invariant (fun _ _ _ h hi => h.step hi) hstart hrun
  by_contra hne
  exact hends (hx.sends hne)

/-- **The cluster of `main` completes no task**: its endpoint has no port. -/
theorem completed_taskManager (flags : Flags) {inputs : List ClusterInput}
    (hrun : run (clusterThreads codec endpoint name) ⟨taskManager flags, [], []⟩ inputs = .ok x) :
    completed x.log = [] :=
  completed_eq_nil (not_sends_taskManager flags) hrun

/-- Task `5` is deployed and its result removes it. -/
def resultInputs : List ClusterInput :=
  [.request oneServer (depsRequest 5 []), .resume 0 .answered, .result [8, 5], .resume 1 .answered]

/-- From endpoints that pass their checks task `5` is completed. -/
theorem exists_completed (h : Blank tm₀) (hends : tm₀.Sends) (endpoint : Endpoint) (name : Str) :
    ∃ inputs x, run (clusterThreads wireCodec endpoint name) ⟨tm₀, [], []⟩ inputs = .ok x ∧
      completed x.log ≠ [] := by
  obtain ⟨edges, tasks, client, server⟩ := tm₀
  obtain ⟨rfl, rfl⟩ : tasks = ∅ ∧ edges = [] := ⟨h.tasks, h.edges⟩
  obtain ⟨req, hreq⟩ := Taskmanager.doneRequest_of_sends hends 5
  have hrun : ∃ x, run (clusterThreads wireCodec endpoint name)
      ⟨⟨[], ∅, client, server⟩, [], []⟩ resultInputs = .ok x ∧
      x.manager = ⟨[], ∅, client, server⟩ ∧ x.threads[1]? = some (.send ⟨5, 1⟩ retryMax) :=
    ⟨_, rfl, rfl, rfl⟩
  obtain ⟨x, hrun, hmanager, hthread⟩ := hrun
  have hlast : clusterThreads wireCodec endpoint name x (.resume 1 .answered) =
      .ok ⟨x.manager, x.threads.set 1 (.finished none none),
        x.log ++ [.sent ⟨5, 1⟩ req false]⟩ := by
    rw [clusterThreads, hthread]
    dsimp only
    rw [advance, hmanager, hreq]
    rfl
  refine ⟨resultInputs ++ [.resume 1 .answered], _,
    (run_append hrun _).trans (run_cons_ok hlast []), ?_⟩
  rw [completed_concat]
  simp [Action.sent?]

/-- **When a cluster can complete a task.** From a manager without tasks, some run of the threads
sends a `done` exactly where both endpoints are set and have a protocol, an address and a port. The
endpoint of the cluster of `main` has no port, whatever the flags are, and no run of its threads sends
one. -/
theorem done_sent_iff (h : Blank tm₀) (endpoint : Endpoint) (name : Str) :
    ((∃ inputs x, run (clusterThreads wireCodec endpoint name) ⟨tm₀, [], []⟩ inputs = .ok x ∧
      completed x.log ≠ []) ↔ tm₀.Sends) ∧
    ∀ flags : Flags,
      (∀ client, (taskManager flags).client = some client → client.endpoint.port = 0) ∧
      ∀ (codec : SubmitCodec) (inputs : List ClusterInput) (x : Cluster),
        run (clusterThreads codec endpoint name) ⟨taskManager flags, [], []⟩ inputs = .ok x →
          completed x.log = [] := by
  refine ⟨⟨?_, fun hends => exists_completed h hends endpoint name⟩, fun flags =>
    ⟨fun client => port_taskManager, fun codec inputs x => completed_taskManager flags⟩⟩
  rintro ⟨inputs, x, hrun, hne⟩
  by_contra hends
  exact hne (completed_eq_nil hends hrun)

theorem done_sent_iff_knownCluster :
    ∃ inputs x, run (clusterThreads wireCodec Endpoint.new (lit "c")) ⟨knownCluster, [], []⟩
      inputs = .ok x ∧ completed x.log ≠ [] :=
  (done_sent_iff ⟨rfl, rfl⟩ Endpoint.new (lit "c")).1.mpr ⟨_, _, rfl, rfl, rfl⟩

end Runs

end Jxtd.Computation
