import Jxtd.Computation.Cluster
import Jxtd.Computation.Infer.Submission
import Jxtd.Management.Deployment
import Jxtd.Storage.TaskState

/-!
# Who releases a task id

Any number of management clients, one storage server and one cluster. A message that was sent may
reach the server that it is addressed to at any time and any number of times, and nothing else
reaches a server. A `terminate` or `done` carries the id and nothing else of the task.

* `System`, `Step`, `Reachable`: the two servers and the messages sent so far.
* `System.SentFor`: the client behind a `terminate` or `done`.
* `Inv`, **`Reachable.inv`**: every message has its origin with a client.
* **`release_by_holder`**: a release comes from a client that was granted the id, now or before.
-/

namespace Jxtd.Management.Release

open Lib Taskdep Infer Storage Jxtd.Computation

/-! ## The requests -/

/-- `req2` of `create_terminate_task`, the one to the storage. -/
def terminateStorageRequest (ctx : ComputationContext) (taskid : UInt64) : Request :=
  let req := Request.new.setType .management .storage .terminate
  let req := (req.setObjectManagement ctx.management).setObjectStorage ctx.storage
  (req.setToken ctx.token).setTaskid taskid

/-- `req1` of `create_terminate_task`, the one to the cluster; its cluster is the storage. -/
def terminateClusterRequest (ctx : ComputationContext) (taskid : UInt64) : Request :=
  let req := Request.new.setType .management .cluster .terminate
  let req := (req.setObjectManagement ctx.management).setObjectCluster ctx.storage
  (req.setToken ctx.token).setTaskid taskid

/-! ## The system -/

/-- Who sent a message: a client, or the cluster when it removed the task of a deployment. -/
inductive Origin (ι : Type)
  | client (i : ι)
  | cluster (deployment : Option ℕ)

/-- A message, with the number of requests that the storage had processed when it was sent. -/
structure Sent (ι : Type) where
  origin : Origin ι
  request : Request
  time : ℕ

/-- A request that the storage processed, with the number of the message. -/
structure Processed where
  message : ℕ
  event : Event

/-- `deployedBy` gives the number of the message that a task of the cluster came from. -/
structure System (ι σ : Type) where
  storage : State σ
  cluster : Taskmanager
  deployedBy : UInt64 → Option ℕ
  sent : List (Sent ι)
  log : List Processed

/-- What does not change in a run. -/
structure Config (ι σ : Type) where
  ops : Operations σ
  storage : Endpoint
  cluster : Endpoint
  name : Str
  clients : ι → ComputationContext

variable {ι σ : Type}

/-- The system before the first message. -/
structure System.Initial (s : System ι σ) : Prop where
  taskEngine : s.storage.dManager.taskEngine = ∅
  taskExtfiles : s.storage.dManager.taskExtfiles = ∅
  cluster : Blank s.cluster
  sent : s.sent = []
  log : s.log = []

def System.send (s : System ι σ) (origin : Origin ι) (req : Request) : System ι σ :=
  { s with sent := s.sent ++ [⟨origin, req, s.log.length⟩] }

/-- The storage processes message `k`. -/
def System.serve (cfg : Config ι σ) (random : UInt64) (s : System ι σ) (k : ℕ) (req : Request) :
    System ι σ :=
  let out := Storage.process cfg.ops cfg.storage random s.storage req
  { s with storage := out.2, log := s.log ++ [⟨k, ⟨req, out.1⟩⟩] }

/-- The cluster has processed message `k`. -/
def System.handle (s : System ι σ) (k : ℕ) (req : Request) (tm : Taskmanager) : System ι σ :=
  { s with
    cluster := tm
    deployedBy :=
      if req.taskid ∉ s.cluster.tasks ∧ req.taskid ∈ tm.tasks then
        Function.update s.deployedBy req.taskid (some k)
      else s.deployedBy }

/-- The cluster has removed a task at its end. -/
def System.complete (s : System ι σ) (taskid : UInt64) (tm : Taskmanager) (done : Option Request) :
    System ι σ :=
  match done with
  | none => { s with cluster := tm }
  | some req => { s with cluster := tm }.send (.cluster (s.deployedBy taskid)) req

inductive Step (cfg : Config ι σ) : System ι σ → System ι σ → Prop
  | neogiate {s : System ι σ} (i : ι) (taskid : UInt64) (engine : Engine) :
    Step cfg s (s.send (.client i)
      (neogiateRequest (cfg.clients i).toTaskdepClientContext taskid engine))
  | deploy {s : System ι σ} (i : ι) (taskid : UInt64) (datasource : Datasource) (attr : Attr) :
    Step cfg s (s.send (.client i) (deployRequest (cfg.clients i) taskid datasource attr))
  | terminate {s : System ι σ} (i : ι) (taskid : UInt64) :
    Step cfg s (s.send (.client i) (terminateStorageRequest (cfg.clients i) taskid))
  /-- The second request of a call whose first one was sent. -/
  | terminateCluster {s : System ι σ} (i : ι) (taskid : UInt64) (m : Sent ι) (hm : m ∈ s.sent)
    (horigin : m.origin = .client i)
    (hreq : m.request = terminateStorageRequest (cfg.clients i) taskid) :
    Step cfg s (s.send (.client i) (terminateClusterRequest (cfg.clients i) taskid))
  | serve {s : System ι σ} (random : UInt64) (k : ℕ) (m : Sent ι) (hm : s.sent[k]? = some m)
    (hdest : m.request.dest = AddrType.storage.toUInt32) :
    Step cfg s (s.serve cfg random k m.request)
  | handle {s : System ι σ} (manager : DrccpServerManager) (k : ℕ) (m : Sent ι)
    (hm : s.sent[k]? = some m) (hdest : m.request.dest = AddrType.cluster.toUInt32)
    (out : Outcome)
    (hout : Computation.process cfg.cluster manager cfg.name s.cluster m.request = .ok out) :
    Step cfg s (s.handle k m.request out.manager)
  | complete {s : System ι σ} (taskid : UInt64) (tm : Taskmanager) (done : Option Request)
    (hdone : s.cluster.removeTask taskid true = .ok (tm, done)) :
    Step cfg s (s.complete taskid tm done)

inductive Reachable (cfg : Config ι σ) (s₀ : System ι σ) : System ι σ → Prop
  | refl : Reachable cfg s₀ s₀
  | tail {s s' : System ι σ} (h : Reachable cfg s₀ s) (hstep : Step cfg s s') :
    Reachable cfg s₀ s'

/-! ## Who is behind a message -/

/-- Message `d` is a deployment of `taskid` by client `i`, sent at `time`. -/
def Deploys (sent : List (Sent ι)) (d : ℕ) (taskid : UInt64) (i : ι) (time : ℕ) : Prop :=
  ∃ m, sent[d]? = some m ∧ m.origin = .client i ∧ m.request.msg = MsgType.deploy.toUInt32 ∧
    m.request.taskid = taskid ∧ m.time = time

/-- A `terminate` is sent for the client that sends it, a `done` for the client whose deployment it
ends. The last argument is the time of the `terminate` or of the deployment. -/
inductive SentFor (sent : List (Sent ι)) (m : Sent ι) (i : ι) : ℕ → Prop
  | terminate (origin : m.origin = .client i) (msg : m.request.msg = MsgType.terminate.toUInt32) :
    SentFor sent m i m.time
  | done (d time : ℕ) (origin : m.origin = .cluster (some d))
    (msg : m.request.msg = MsgType.done.toUInt32)
    (deploys : Deploys sent d m.request.taskid i time) : SentFor sent m i time

/-- The `n`-th request that the storage processed granted `taskid` to client `i`. -/
def System.Grants (s : System ι σ) (n : ℕ) (taskid : UInt64) (i : ι) : Prop :=
  ∃ x m, s.log[n]? = some x ∧ x.event.Succeeds taskid ∧ s.sent[x.message]? = some m ∧
    m.origin = .client i

/-- The id is bound, by the `n`-th request, a negotiation of client `i`. -/
structure System.BoundBy (s : System ι σ) (taskid : UInt64) (n : ℕ) (i : ι) : Prop where
  bound : s.storage.dManager.taskExist taskid
  grants : s.Grants n taskid i
  last : ∀ j x, n < j → s.log[j]? = some x → ¬ x.event.Succeeds taskid ∧ ¬ x.event.Releases taskid

/-- The storage takes a request for a release of `taskid`. -/
def System.TakesRelease (cfg : Config ι σ) (s : System ι σ) (req : Request) (taskid : UInt64) :
    Prop :=
  ∃ random, (Event.mk req (Storage.process cfg.ops cfg.storage random s.storage req).1).Releases
    taskid

/-- The clients deploy and terminate `taskid` only when they were granted it before. -/
def System.Disciplined (s : System ι σ) (taskid : UInt64) : Prop :=
  ∀ m ∈ s.sent, ∀ i, m.origin = .client i → m.request.taskid = taskid →
    m.request.msg = MsgType.deploy.toUInt32 ∨ m.request.msg = MsgType.terminate.toUInt32 →
    ∃ n < m.time, s.Grants n taskid i

/-! ## The invariant -/

/-- The requests that the storage processed with their replies. -/
def System.events (s : System ι σ) : List Event := s.log.map Processed.event

/-- Where a message comes from: a client, which sends no `done`, or the cluster, which sends nothing
else and only for a deployment. -/
inductive Genuine (sent : List (Sent ι)) (m : Sent ι) : Prop
  | client (i : ι) (origin : m.origin = .client i) (msg : m.request.msg ≠ MsgType.done.toUInt32)
  | cluster (d : ℕ) (i : ι) (time : ℕ) (origin : m.origin = .cluster (some d))
    (msg : m.request.msg = MsgType.done.toUInt32)
    (deploys : Deploys sent d m.request.taskid i time) (le : time ≤ m.time)

structure Inv (cfg : Config ι σ) (s : System ι σ) : Prop where
  /-- The storage's tables agree with its replies. -/
  tables : Tables s.storage.dManager s.events
  square : SquareManager s.cluster
  time : ∀ m ∈ s.sent, m.time ≤ s.log.length
  genuine : ∀ m ∈ s.sent, Genuine s.sent m
  /-- Every task of the cluster was deployed by a client. -/
  deployed : ∀ t ∈ s.cluster.tasks, ∃ d i time, s.deployedBy t = some d ∧ Deploys s.sent d t i time
  log : ∀ x ∈ s.log, ∃ m, s.sent[x.message]? = some m ∧ x.event.request = m.request
  reply : ∀ x ∈ s.log, ∃ random st,
    x.event.reply = (Storage.process cfg.ops cfg.storage random st x.event.request).1

variable {cfg : Config ι σ} {s s' : System ι σ}

theorem Inv.init (h : s.Initial) : Inv cfg s := by
  have hevents : s.events = [] := by rw [System.events, h.log, List.map_nil]
  have hsent (m : Sent ι) : m ∉ s.sent := by
    rw [h.sent]
    exact List.not_mem_nil
  have hlog (x : Processed) : x ∉ s.log := by
    rw [h.log]
    exact List.not_mem_nil
  refine ⟨?_, h.cluster.square, fun m hm => absurd hm (hsent m), fun m hm => absurd hm (hsent m),
    fun t ht => ?_, fun x hx => absurd hx (hlog x), fun x hx => absurd hx (hlog x)⟩
  · rw [hevents]
    exact tables_nil h.taskEngine h.taskExtfiles
  · rw [h.cluster.tasks] at ht
    exact absurd ht (AList.notMem_empty t)

theorem getElem?_append_some {α : Type} {l : List α} {n : ℕ} {a : α} (h : l[n]? = some a)
    (l' : List α) : (l ++ l')[n]? = some a := by
  rw [List.getElem?_append_left (List.getElem?_eq_some_iff.mp h).1]
  exact h

theorem Deploys.append {sent : List (Sent ι)} {d time : ℕ} {t : UInt64} {i : ι}
    (h : Deploys sent d t i time) (sent' : List (Sent ι)) : Deploys (sent ++ sent') d t i time := by
  obtain ⟨m, hm, hrest⟩ := h
  exact ⟨m, getElem?_append_some hm _, hrest⟩

theorem Genuine.append {sent : List (Sent ι)} {m : Sent ι} (h : Genuine sent m)
    (sent' : List (Sent ι)) : Genuine (sent ++ sent') m := by
  cases h with
  | client i horigin hmsg => exact .client i horigin hmsg
  | cluster d i time horigin hmsg hdeploys hle =>
    exact .cluster d i time horigin hmsg (hdeploys.append sent') hle

/-- A message is sent whose origin is known. -/
theorem Inv.send (h : Inv cfg s) {origin : Origin ι} {req : Request}
    (hgenuine : Genuine s.sent ⟨origin, req, s.log.length⟩) : Inv cfg (s.send origin req) := by
  refine ⟨h.tables, h.square, fun m hm => ?_, fun m hm => ?_, fun t ht => ?_, fun x hx => ?_,
    h.reply⟩
  · rcases List.mem_append.mp hm with hm | hm
    · exact h.time m hm
    · rw [List.mem_singleton.mp hm]
      exact le_refl _
  · rcases List.mem_append.mp hm with hm | hm
    · exact (h.genuine m hm).append _
    · rw [List.mem_singleton.mp hm]
      exact hgenuine.append _
  · obtain ⟨d, i, time, hd, hdeploys⟩ := h.deployed t ht
    exact ⟨d, i, time, hd, hdeploys.append _⟩
  · obtain ⟨m, hm, hreq⟩ := h.log x hx
    exact ⟨m, getElem?_append_some hm _, hreq⟩

theorem Inv.serve (h : Inv cfg s) (random : UInt64) {k : ℕ} {m : Sent ι}
    (hm : s.sent[k]? = some m) : Inv cfg (s.serve cfg random k m.request) := by
  have hevents : (s.serve cfg random k m.request).events = s.events ++
      [⟨m.request, (Storage.process cfg.ops cfg.storage random s.storage m.request).1⟩] := by
    simp [System.events, System.serve]
  refine ⟨?_, h.square, fun m' hm' => ?_, h.genuine, h.deployed, fun x hx => ?_, fun x hx => ?_⟩
  · rw [hevents]
    exact h.tables.step (process_does cfg.ops cfg.storage random s.storage m.request)
  · have hle := h.time m' hm'
    show m'.time ≤ (s.log ++ [_]).length
    rw [List.length_append]
    omega
  · rcases List.mem_append.mp hx with hx | hx
    · exact h.log x hx
    · rw [List.mem_singleton.mp hx]
      exact ⟨m, hm, rfl⟩
  · rcases List.mem_append.mp hx with hx | hx
    · exact h.reply x hx
    · rw [List.mem_singleton.mp hx]
      exact ⟨random, s.storage, rfl⟩

/-- A message that is no `done` is a client's. -/
theorem Genuine.origin {sent : List (Sent ι)} {m : Sent ι} (h : Genuine sent m)
    (hmsg : m.request.msg ≠ MsgType.done.toUInt32) : ∃ i, m.origin = .client i := by
  cases h with
  | client i horigin _ => exact ⟨i, horigin⟩
  | cluster d i time horigin hdone => exact absurd hdone hmsg

theorem Inv.handle (h : Inv cfg s) {manager : DrccpServerManager} {k : ℕ} {m : Sent ι}
    (hm : s.sent[k]? = some m) {out : Outcome}
    (hout : Computation.process cfg.cluster manager cfg.name s.cluster m.request = .ok out) :
    Inv cfg (s.handle k m.request out.manager) := by
  have hstep : clusterStep cfg.cluster cfg.name s.cluster (.request manager m.request) =
      .ok out.manager := by
    rw [clusterStep, hout]
    rfl
  refine ⟨h.tables, square_step h.square hstep, h.time, h.genuine, fun t ht => ?_, h.log, h.reply⟩
  have hold (ht : t ∈ s.cluster.tasks) : ∃ d i time,
      (s.handle k m.request out.manager).deployedBy t = some d ∧ Deploys s.sent d t i time := by
    obtain ⟨d, i, time, hd, hdeploys⟩ := h.deployed t ht
    refine ⟨d, i, time, ?_, hdeploys⟩
    unfold System.handle
    dsimp only
    split_ifs with hnew
    · have hne : t ≠ m.request.taskid := fun heq => hnew.1 (heq ▸ ht)
      rw [Function.update_of_ne hne, hd]
    · exact hd
  cases process_effect h.square hout with
  | same hsame => exact hold (hsame ▸ ht)
  | removed info hinfo hlt hremoved =>
    have ht' : t ∈ (removed s.cluster m.request.taskid info).tasks := hremoved ▸ ht
    exact hold (AList.mem_erase.mp ht').2
  | registered attr info row hchecks hnew hpos hreg hrow =>
    have ht' : t ∈ (registered s.cluster m.request.taskid info row).tasks := hreg ▸ ht
    rcases (AList.mem_insert _).mp ht' with rfl | ht'
    · -- the task that is new comes from this message
      have hdeploy : m.request.msg ≠ MsgType.done.toUInt32 := by
        rw [hchecks.msg]
        decide
      obtain ⟨i, hi⟩ := (h.genuine m (List.mem_of_getElem? hm)).origin hdeploy
      refine ⟨k, i, m.time, ?_, m, hm, hi, hchecks.msg, rfl, rfl⟩
      unfold System.handle
      dsimp only
      rw [if_pos ⟨hnew, ht⟩, Function.update_self]
    · exact hold ht'

theorem msg_doneRequest {tm : Taskmanager} {t : UInt64} {done : Request}
    (h : tm.doneRequest t = some done) : done.msg = MsgType.done.toUInt32 := by
  unfold Taskmanager.doneRequest at h
  split at h
  · split_ifs at h
    cases h
    rfl
  · cases h

/-- Only the removal of a task is reported, with its id. -/
theorem of_removeTask_some {tm tm' : Taskmanager} {t : UInt64} {req : Request}
    (h : tm.removeTask t true = .ok (tm', some req)) :
    t ∈ tm.tasks ∧ req.taskid = t ∧ req.msg = MsgType.done.toUInt32 := by
  unfold Taskmanager.removeTask at h
  cases hlookup : tm.tasks.lookup t with
  | none =>
    rw [hlookup] at h
    cases h
  | some info =>
    rw [hlookup] at h
    dsimp only at h
    split at h
    · cases h
    · rw [if_pos rfl] at h
      obtain ⟨-, hdone⟩ := Prod.ext_iff.mp (Except.ok.inj h)
      exact ⟨AList.lookup_isSome.mp (by rw [hlookup]; rfl), taskid_doneRequest hdone,
        msg_doneRequest hdone⟩

theorem Inv.complete (h : Inv cfg s) {t : UInt64} {tm : Taskmanager} {done : Option Request}
    (hdone : s.cluster.removeTask t true = .ok (tm, done)) : Inv cfg (s.complete t tm done) := by
  have hstep : clusterStep cfg.cluster cfg.name s.cluster (.done t) = .ok tm := by
    rw [clusterStep, hdone]
    rfl
  have hmem (t' : UInt64) (ht' : t' ∈ tm.tasks) : t' ∈ s.cluster.tasks := by
    rcases of_removeTask hdone with hsame | ⟨info, -, -, hremoved⟩
    · exact hsame ▸ ht'
    · have ht'' : t' ∈ (removed s.cluster t info).tasks := hremoved ▸ ht'
      exact (AList.mem_erase.mp ht'').2
  have hremoved : Inv cfg { s with cluster := tm } :=
    ⟨h.tables, square_step h.square hstep, h.time, h.genuine, fun t' ht' => h.deployed t' (hmem t' ht'),
      h.log, h.reply⟩
  cases done with
  | none => exact hremoved
  | some req =>
    obtain ⟨ht, hid, hmsg⟩ := of_removeTask_some hdone
    obtain ⟨d, i, time, hd, hdeploys⟩ := h.deployed t ht
    refine hremoved.send (.cluster d i time (congrArg Origin.cluster hd) hmsg (hid ▸ hdeploys) ?_)
    obtain ⟨m, hm, -, -, -, rfl⟩ := hdeploys
    exact h.time m (List.mem_of_getElem? hm)

theorem Inv.step (h : Inv cfg s) (hstep : Step cfg s s') : Inv cfg s' := by
  have hclient (i : ι) (req : Request) (dest : AddrType) (msg : MsgType) (t : UInt64)
      (hheader : header req = (AddrType.management.toUInt32, dest.toUInt32, msg.toUInt32, t))
      (hmsg : msg.toUInt32 ≠ MsgType.done.toUInt32) : Inv cfg (s.send (.client i) req) := by
    have hreq : req.msg = msg.toUInt32 := congrArg (·.2.2.1) hheader
    exact h.send (.client i rfl (by rw [hreq]; exact hmsg))
  cases hstep with
  | neogiate i t engine =>
    exact hclient i _ .storage .neogiate t (header_neogiateRequest _ t engine) (by decide)
  | deploy i t datasource attr =>
    exact hclient i _ .cluster .deploy t (header_deployRequest _ t datasource attr) (by decide)
  | terminate i t => exact hclient i _ .storage .terminate t rfl (by decide)
  | terminateCluster i t m hm horigin hreq =>
    exact hclient i _ .cluster .terminate t rfl (by decide)
  | serve random k m hm hdest => exact h.serve random hm
  | handle manager k m hm hdest out hout => exact h.handle hm hout
  | complete t tm done hdone => exact h.complete hdone

theorem Reachable.inv {s₀ : System ι σ} (h : Reachable cfg s₀ s) (hinit : s₀.Initial) : Inv cfg s := by
  induction h with
  | refl => exact Inv.init hinit
  | tail _ hstep ih => exact ih.step hstep

/-! ## Releases -/

/-- A negotiation that succeeds is a client's and brings an engine. -/
theorem Inv.of_succeeds (h : Inv cfg s) {x : Processed} (hx : x ∈ s.log) {t : UInt64}
    (hs : x.event.Succeeds t) : (∃ g, x.event.effect = .acquire t g) ∧
      ∃ m i, s.sent[x.message]? = some m ∧ m.origin = .client i := by
  obtain ⟨random, st, hreply⟩ := h.reply x hx
  obtain ⟨m, hm, hreq⟩ := h.log x hx
  obtain ⟨-, r, hr, hmsg, -⟩ := id hs
  obtain ⟨hneogiate, g, -, hg, -⟩ := process_neogiate (hreply ▸ hr) hmsg
  have hnot : m.request.msg ≠ MsgType.done.toUInt32 := by
    rw [← hreq, hneogiate]
    decide
  obtain ⟨i, hi⟩ := (h.genuine m (List.mem_of_getElem? hm)).origin hnot
  exact ⟨⟨g, Event.effect_acquire_iff.mpr ⟨hs, hg⟩⟩, m, i, hm, hi⟩

/-- A bound id is bound by the negotiation of some client. -/
theorem Inv.exists_boundBy (h : Inv cfg s) {t : UInt64}
    (hbound : s.storage.dManager.taskExist t) : ∃ n i, s.BoundBy t n i := by
  have hholder := hbound
  rw [h.tables.taskExist] at hholder
  obtain ⟨g, hg⟩ := Option.isSome_iff_exists.mp hholder
  obtain ⟨pre, post, hmap, hrelease, hacquire⟩ := Lease.last_of_holder hg
  rw [System.events, List.map_map] at hmap
  obtain ⟨pre, rest, hlog, rfl, hrest⟩ := List.map_eq_append_iff.mp hmap
  obtain ⟨x, post, rfl, hx, rfl⟩ := List.map_eq_cons_iff.mp hrest
  have hmem : x ∈ s.log := by simp [hlog]
  have hs : x.event.Succeeds t := (Event.effect_acquire_iff.mp hx).1
  obtain ⟨-, m, i, hm, hi⟩ := h.of_succeeds hmem hs
  refine ⟨pre.length, i, hbound, ⟨x, m, by simp [hlog], hs, hm, hi⟩, fun j y hj hy => ?_⟩
  -- a later entry
  have hpost : y ∈ post := by
    obtain ⟨k, rfl⟩ := Nat.exists_eq_add_of_lt hj
    rw [hlog, List.getElem?_append_right (by omega), show pre.length + k + 1 - pre.length = k + 1 by
      omega, List.getElem?_cons_succ] at hy
    exact List.mem_of_getElem? hy
  refine ⟨fun hys => ?_, fun hyr => ?_⟩
  · obtain ⟨⟨g', hg'⟩, -⟩ := h.of_succeeds (List.mem_of_getElem? hy) hys
    exact hacquire g' (List.mem_map.mpr ⟨y, hpost, hg'⟩)
  · exact hrelease (List.mem_map.mpr ⟨y, hpost, Event.effect_release_iff.mpr hyr⟩)

/-- A message that the storage takes for a release was sent for some client. -/
theorem Inv.sentFor (h : Inv cfg s) {k : ℕ} {m : Sent ι} (hm : s.sent[k]? = some m)
    {t : UInt64} (hrelease : s.TakesRelease cfg m.request t) :
    ∃ i time, SentFor s.sent m i time ∧ time ≤ m.time := by
  obtain ⟨random, -, r, hr, hmsg⟩ := hrelease
  have hmem := List.mem_of_getElem? hm
  rw [(process_reply hr).1] at hmsg
  rcases hmsg with hterminate | hdone
  · obtain ⟨i, hi⟩ := (h.genuine m hmem).origin (by rw [hterminate]; decide)
    exact ⟨i, m.time, .terminate hi hterminate, le_refl _⟩
  · cases h.genuine m hmem with
    | client i horigin hmsg => exact absurd hdone hmsg
    | cluster d i time horigin hmsg hdeploys hle =>
      exact ⟨i, time, .done d time horigin hmsg hdeploys, hle⟩

/-- A client that is behind a message was granted the id before. -/
theorem SentFor.granted {m : Sent ι} {i : ι} {time : ℕ} (h : SentFor s.sent m i time)
    (hm : m ∈ s.sent) {t : UInt64} (ht : m.request.taskid = t) (hdisciplined : s.Disciplined t) :
    ∃ n < time, s.Grants n t i := by
  cases h with
  | terminate horigin hmsg => exact hdisciplined m hm i horigin ht (.inr hmsg)
  | done d time horigin hmsg hdeploys =>
    obtain ⟨m', hm', horigin', hmsg', hid, rfl⟩ := hdeploys
    exact hdisciplined m' (List.mem_of_getElem? hm') i horigin' (hid.trans ht) (.inl hmsg')

theorem System.Grants.lt {n : ℕ} {t : UInt64} {i : ι} (h : s.Grants n t i) : n < s.log.length := by
  obtain ⟨x, m, hx, -⟩ := h
  exact (List.getElem?_eq_some_iff.mp hx).1

/-- A request grants an id to one client. -/
theorem System.Grants.unique {n : ℕ} {t : UInt64} {i j : ι} (h : s.Grants n t i)
    (h' : s.Grants n t j) : i = j := by
  obtain ⟨x, m, hx, -, hm, hi⟩ := h
  obtain ⟨x', m', hx', -, hm', hj⟩ := h'
  obtain rfl := Option.some.inj (hx.symm.trans hx')
  obtain rfl := Option.some.inj (hm.symm.trans hm')
  exact Origin.client.inj (hi.symm.trans hj)

/-- Nobody was granted the id after the present holder. -/
theorem System.BoundBy.le {n k : ℕ} {t : UInt64} {i j : ι} (h : s.BoundBy t n i)
    (hk : s.Grants k t j) : k ≤ n := by
  by_contra hlt
  obtain ⟨x, m, hx, hs, -⟩ := hk
  exact (h.last k x (not_le.mp hlt) hx).1 hs

/-- **Who releases a task id**, in every reachable state. A message that the storage takes for a
release of an id was sent by some client, or by the cluster for a deployment of some client; and a
bound id is bound by the negotiation of some client. When the clients deploy and terminate the id
only after they were granted it, this client was granted it by the present negotiation or by an
earlier one; so when there is no earlier one, it is the holder, and the message or the deployment
was sent after its negotiation. -/
theorem release_by_holder {s₀ : System ι σ} (hinit : s₀.Initial) (h : Reachable cfg s₀ s) {k : ℕ}
    {m : Sent ι} (hm : s.sent[k]? = some m) {t : UInt64}
    (hrelease : s.TakesRelease cfg m.request t) :
    (∃ j time, SentFor s.sent m j time) ∧
    (s.storage.dManager.taskExist t → ∃ n i, s.BoundBy t n i) ∧
    (s.Disciplined t → ∀ n i, s.BoundBy t n i →
      (∃ j time n', SentFor s.sent m j time ∧ s.Grants n' t j ∧ n' ≤ n ∧ n' < time) ∧
      ((∀ n' < n, ∀ j, ¬ s.Grants n' t j) → ∃ time, SentFor s.sent m i time ∧ n < time)) := by
  have hinv := h.inv hinit
  have ht : m.request.taskid = t := hrelease.elim fun _ h => h.1
  obtain ⟨j, time, hfor, -⟩ := hinv.sentFor hm hrelease
  refine ⟨⟨j, time, hfor⟩, hinv.exists_boundBy, fun hdisciplined n i hbound => ?_⟩
  obtain ⟨n', hlt, hgrants⟩ := hfor.granted (List.mem_of_getElem? hm) ht hdisciplined
  have hle := hbound.le hgrants
  refine ⟨⟨j, time, n', hfor, hgrants, hle, hlt⟩, fun hfirst => ?_⟩
  obtain rfl : n' = n := by
    by_contra hne
    exact hfirst n' (lt_of_le_of_ne hle hne) j hgrants
  obtain rfl := hbound.grants.unique hgrants
  exact ⟨time, hfor, hlt⟩

/-! ## Two clients -/

def nodeEndpoint : Endpoint := ((Endpoint.new.setProto (lit "tcp")).2.setUrl (lit "n")).setPort 1

def twoClients : Config Bool Posix.Fs where
  ops := localFileoperations
  storage := nodeEndpoint
  cluster := nodeEndpoint
  name := lit "c"
  clients _ := ⟨⟨nodeEndpoint, nodeEndpoint, []⟩, nodeEndpoint⟩

def twoSystem : System Bool Posix.Fs where
  storage := newNode
  cluster := { Taskmanager.new with
    client := some ⟨nodeEndpoint, false, []⟩
    server := some nodeEndpoint }
  deployedBy _ := none
  sent := []
  log := []

theorem twoSystem_initial : twoSystem.Initial :=
  ⟨newNode_fresh.taskEngine, newNode_fresh.taskExtfiles, ⟨rfl, rfl⟩, rfl, rfl⟩

def oneByteEngine : Engine := { Engine.new with binary := [0x7f] }

def datasource : Datasource := ⟨⟨[], lit "data"⟩, ⟨[], 0, 0⟩⟩

theorem System.Grants.send {n : ℕ} {t : UInt64} {i : ι} (h : s.Grants n t i) (origin : Origin ι)
    (req : Request) : (s.send origin req).Grants n t i := by
  obtain ⟨x, m, hx, hs, hm, hi⟩ := h
  exact ⟨x, m, hx, hs, getElem?_append_some hm _, hi⟩

theorem System.Grants.serve {n : ℕ} {t : UInt64} {i : ι} (h : s.Grants n t i) (cfg : Config ι σ)
    (random : UInt64) (k : ℕ) (req : Request) : (s.serve cfg random k req).Grants n t i := by
  obtain ⟨x, m, hx, hs, hm, hi⟩ := h
  exact ⟨x, m, getElem?_append_some hx _, hs, hm, hi⟩

/-- A client that holds an id may send what it likes for it. -/
theorem System.Disciplined.send {t : UInt64} (h : s.Disciplined t) (origin : Origin ι)
    (req : Request) (hgranted : ∀ i, origin = .client i →
      req.msg = MsgType.deploy.toUInt32 ∨ req.msg = MsgType.terminate.toUInt32 →
      ∃ n, s.Grants n t i) : (s.send origin req).Disciplined t := by
  intro m hm i horigin ht hmsg
  rcases List.mem_append.mp hm with hm | hm
  · obtain ⟨n, hlt, hgrants⟩ := h m hm i horigin ht hmsg
    exact ⟨n, hlt, hgrants.send origin req⟩
  · rw [List.mem_singleton.mp hm] at horigin hmsg ⊢
    obtain ⟨n, hgrants⟩ := hgranted i horigin hmsg
    exact ⟨n, hgrants.lt, hgrants.send origin req⟩

theorem System.Disciplined.serve {t : UInt64} (h : s.Disciplined t) (cfg : Config ι σ)
    (random : UInt64) (k : ℕ) (req : Request) : (s.serve cfg random k req).Disciplined t := by
  intro m hm i horigin ht hmsg
  obtain ⟨n, hlt, hgrants⟩ := h m hm i horigin ht hmsg
  exact ⟨n, hlt, hgrants.serve cfg random k req⟩

/-- The last request that was processed is the negotiation. -/
theorem System.Grants.boundBy {n : ℕ} {t : UInt64} {i : ι} (h : s.Grants n t i)
    (hlast : s.log.length = n + 1) (hbound : s.storage.dManager.taskExist t) : s.BoundBy t n i := by
  refine ⟨hbound, h, fun j x hj hx => ?_⟩
  have hlt := (List.getElem?_eq_some_iff.mp hx).1
  omega

/-- The requests of the clients for the id `5`. -/
def negotiation : Request :=
  neogiateRequest (twoClients.clients false).toTaskdepClientContext 5 oneByteEngine

def deployment : Request := deployRequest (twoClients.clients false) 5 datasource .new

def termination : Request := terminateStorageRequest (twoClients.clients false) 5

/-- The first client is granted `5`. -/
def granted : System Bool Posix.Fs :=
  (twoSystem.send (.client false) negotiation).serve twoClients 1 0 negotiation

theorem granted_reachable : Reachable twoClients twoSystem granted :=
  (Reachable.refl.tail (.neogiate false 5 oneByteEngine)).tail
    (.serve 1 0 ⟨.client false, negotiation, 0⟩ rfl rfl)

theorem granted_grants : granted.Grants 0 5 false :=
  ⟨_, ⟨.client false, negotiation, 0⟩, rfl, ⟨rfl, _, rfl, rfl, _, rfl, rfl⟩, rfl, rfl⟩

theorem granted_disciplined : granted.Disciplined 5 := by
  refine System.Disciplined.serve (System.Disciplined.send ?_ _ _ ?_) twoClients 1 0 negotiation
  · exact fun m hm => absurd hm List.not_mem_nil
  · rintro i - (h | h) <;> exact absurd h (by decide)

/-- The first client deploys and terminates `5`; the storage has not yet seen the last message. -/
def terminated : System Bool Posix.Fs :=
  let s := granted.send (.client false) deployment
  match Computation.process nodeEndpoint oneServer (lit "c") s.cluster deployment with
  | .error _ => s
  | .ok out => (s.handle 1 deployment out.manager).send (.client false) termination

theorem terminated_reachable : Reachable twoClients twoSystem terminated := by
  have hsent := granted_reachable.tail (.deploy false 5 datasource .new)
  have hdeployed := hsent.tail (.handle oneServer 1 ⟨.client false, deployment, 1⟩ rfl rfl _ rfl)
  exact hdeployed.tail (.terminate false 5)

theorem terminated_disciplined : terminated.Disciplined 5 := by
  have hsent := granted_disciplined.send (.client false) deployment
    fun i hi _ => ⟨0, by cases hi; exact granted_grants⟩
  exact hsent.send (.client false) termination
    fun i hi _ => ⟨0, by cases hi; exact granted_grants.send _ _⟩

theorem release_by_holder_terminated : ∃ time,
    SentFor terminated.sent ⟨.client false, termination, 1⟩ false time ∧ 0 < time := by
  have hbound : terminated.BoundBy 5 0 false := by
    refine System.Grants.boundBy ?_ rfl rfl
    exact (granted_grants.send (.client false) deployment).send (.client false) termination
  obtain ⟨-, -, hholder⟩ := release_by_holder twoSystem_initial terminated_reachable
    (rfl : terminated.sent[2]? = some ⟨.client false, termination, 1⟩) ⟨1, rfl, _, rfl, .inl rfl⟩
  exact (hholder terminated_disciplined 0 false hbound).2 fun n hn => absurd hn n.not_lt_zero

/-- **Two releases by others.** A client terminates an id that it was never granted. And, though both
clients keep to their ids: the storage has released the id of the first client and has granted it to
the second one, and the cluster ends the task that the first client had deployed. -/
theorem release_by_other :
    (∃ s m, Reachable twoClients twoSystem s ∧ s.BoundBy 5 0 false ∧ m ∈ s.sent ∧
      s.TakesRelease twoClients m.request 5 ∧ ¬ ∃ time, SentFor s.sent m false time) ∧
    ∃ s m, Reachable twoClients twoSystem s ∧ s.Disciplined 5 ∧ s.BoundBy 5 2 true ∧ m ∈ s.sent ∧
      s.TakesRelease twoClients m.request 5 ∧ ¬ ∃ time, SentFor s.sent m true time := by
  constructor
  · have hrun := granted_reachable.tail (.terminate true 5)
    refine ⟨_, ⟨.client true, termination, 1⟩, hrun, ?_, List.mem_append_right _ List.mem_cons_self,
      ⟨1, rfl, _, rfl, .inl rfl⟩, ?_⟩
    · exact System.Grants.boundBy (granted_grants.send (.client true) termination) rfl rfl
    · rintro ⟨time, hfor⟩
      cases hfor with
      | terminate horigin => cases horigin
      | done d time horigin => cases horigin
  · have hreleased := terminated_reachable.tail
      (.serve 1 2 ⟨.client false, termination, 1⟩ rfl rfl)
    have hasked := hreleased.tail (.neogiate true 5 oneByteEngine)
    have hgranted := hasked.tail (.serve 1 3 ⟨.client true, negotiation, 2⟩ rfl rfl)
    have hrun := hgranted.tail (.complete 5 _ _ rfl)
    refine ⟨_, _, hrun, ?_, ?_, List.mem_append_right _ List.mem_cons_self,
      ⟨1, rfl, _, rfl, .inr rfl⟩, ?_⟩
    · have hasked := (terminated_disciplined.serve twoClients 1 2 termination).send (.client true)
        negotiation fun i hi hmsg => by rcases hmsg with hmsg | hmsg <;> exact absurd hmsg (by decide)
      exact (hasked.serve twoClients 1 3 negotiation).send (.cluster (some 1)) _
        fun i hi => by cases hi
    · refine System.Grants.boundBy ?_ rfl rfl
      exact ⟨_, ⟨.client true, negotiation, 2⟩, rfl, ⟨rfl, _, rfl, rfl, _, rfl, rfl⟩, rfl, rfl⟩
    · rintro ⟨time, hfor⟩
      cases hfor with
      | terminate horigin => cases horigin
      | done d time horigin hmsg hdeploys =>
        cases horigin
        obtain ⟨m, hm, hi, -⟩ := hdeploys
        cases hm
        cases hi

end Jxtd.Management.Release
