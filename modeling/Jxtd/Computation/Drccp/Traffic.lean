import Mathlib.Algebra.Order.BigOperators.Group.List
import Mathlib.Algebra.GroupWithZero.Nat
import Mathlib.Order.RelClasses
import Jxtd.Computation.Drccp.Failover

/-!
# Requests between the nodes of a cluster

A node answers a request after the tasks of its series have ended, one after the other; each of them
sends a request and waits for the answer (`computation/drccp/server.cc`). So a request that a client
sends is a thread: a request, a series or an answer in front of the series that wait for it.

* `Frame`, `Front`, `Thread`, `Cluster`: the state of a cluster; no request is lost.
* `Advance`, `Step`: what can happen to a thread, in any order between the threads.
* `process_series`: which tasks a request adds to its series.
* `advance_lt`: what every step lowers; **`wellFounded_step`**: every execution ends.
-/

namespace Jxtd.Computation.Drccp

open Lib

variable {φ : Type}

/-! ## Threads -/

/-- A request that a node works on. -/
structure Frame (φ : Type) where
  node : DrccpEndpoint
  taskCtx : DrccpTaskContext φ
  /-- The tasks that are left, the present one included. -/
  series : List (SeriesTask φ)
  /-- The other entries of the table when the request was handled. -/
  others : List DrccpEndpoint
  /-- What the tasks have sent. -/
  caused : List (DrccpEndpoint × Message φ)

/-- What is in front of the series that wait. -/
inductive Front (φ : Type)
  | request (dest : DrccpEndpoint) (req : Message φ)
  | working (frame : Frame φ)
  | reply (source : DrccpEndpoint) (resp : Message φ)

/-- A request of a client and all that has come of it. -/
structure Thread (φ : Type) where
  front : Front φ
  waiting : List (Frame φ)

abbrev Nodes (φ : Type) := DrccpEndpoint → Option (DrccpServer φ)

structure Cluster (φ : Type) where
  nodes : Nodes φ
  threads : List (Thread φ)
  /-- The requests that were answered. -/
  handled : List (Frame φ)

/-- The clients have sent their requests. -/
def Cluster.injected (nodes : Nodes φ) (requests : List (DrccpEndpoint × Message φ)) : Cluster φ :=
  ⟨nodes, requests.map fun x => ⟨.request x.1 x.2, []⟩, []⟩

/-- A task has sent a request. -/
def Frame.send (frame : Frame φ) (dest : DrccpEndpoint) (req : Message φ) : Frame φ :=
  { frame with caused := frame.caused ++ [(dest, req)] }

/-- The series goes on with other tasks. -/
def Frame.tasks (frame : Frame φ) (series : List (SeriesTask φ)) : Frame φ := { frame with series }

variable [FloatShare φ]

/-- What can happen to a thread: the nodes, what becomes of the thread, and the requests answered.
`finds` says of a series whether the reference of the callback of its update still finds the node; where
it does not, nothing more is said of the thread. -/
inductive Advance (finds : Frame φ → Bool) (nodes : Nodes φ) :
    Thread φ → Nodes φ → Option (Thread φ) → List (Frame φ) → Prop
  /-- `process` handles a request that is to be answered. -/
  | deliver {dest req waiting server out resp} (hserver : nodes dest = some server)
      (hout : process server req = .ok out) (hresp : out.resp = some resp) :
      Advance finds nodes ⟨.request dest req, waiting⟩ (Function.update nodes dest (some out.server))
        (some ⟨.working ⟨dest, ⟨req, resp, false⟩, out.series,
          neighbours out.server.serverCtx, []⟩, waiting⟩) []
  /-- `noreply`, to a client. -/
  | ignore {dest req server out} (hserver : nodes dest = some server)
      (hout : process server req = .ok out) (hresp : out.resp = none) :
      Advance finds nodes ⟨.request dest req, []⟩ (Function.update nodes dest (some out.server)) none []
  /-- An endpoint that is no node of the cluster answers anything. -/
  | outside {dest req waiting} (hdest : nodes dest = none) (resp : Message φ) :
      Advance finds nodes ⟨.request dest req, waiting⟩ nodes (some ⟨.reply dest resp, waiting⟩) []
  /-- The repeater has a request to send. -/
  | forward {frame rest waiting server target req} (hseries : frame.series = .forward :: rest)
      (hserver : nodes frame.node = some server)
      (hrepeater : forwardTaskRepeater server.serverCtx frame.taskCtx = some (target, req)) :
      Advance finds nodes ⟨.working frame, waiting⟩ nodes
        (some ⟨.request target req, frame.send target req :: waiting⟩) []
  /-- The repeater has ended. -/
  | stop {frame rest waiting server} (hseries : frame.series = .forward :: rest)
      (hserver : nodes frame.node = some server)
      (hrepeater : forwardTaskRepeater server.serverCtx frame.taskCtx = none) :
      Advance finds nodes ⟨.working frame, waiting⟩ nodes
        (some ⟨.working (frame.tasks rest), waiting⟩) []
  /-- An update task starts. -/
  | update {frame neigh req rest waiting} (hseries : frame.series = .update neigh req :: rest) :
      Advance finds nodes ⟨.working frame, waiting⟩ nodes
        (some ⟨.request neigh req, frame.send neigh req :: waiting⟩) []
  /-- The callback of a forward task. -/
  | forwarded {frame rest waiting server target resp} (hseries : frame.series = .forward :: rest)
      (hserver : nodes frame.node = some server) :
      Advance finds nodes ⟨.reply target resp, frame :: waiting⟩
        (Function.update nodes frame.node (some { server with
          serverCtx := Drccp.forwarded server.serverCtx target (some resp) }))
        (some ⟨.working { frame with taskCtx := forwardDone frame.taskCtx (some resp) }, waiting⟩) []
  /-- The callback of an update task. -/
  | updated {frame neigh req rest waiting server source resp ctx}
      (hseries : frame.series = .update neigh req :: rest)
      (hserver : nodes frame.node = some server)
      (hctx : Drccp.updated (finds frame) server.serverCtx neigh (some resp) = .ok ctx) :
      Advance finds nodes ⟨.reply source resp, frame :: waiting⟩
        (Function.update nodes frame.node (some { server with serverCtx := ctx }))
        (some ⟨.working (frame.tasks rest), waiting⟩) []
  /-- The series has ended, and the request is answered. -/
  | finish {frame waiting} (hseries : frame.series = []) :
      Advance finds nodes ⟨.working frame, waiting⟩ nodes
        (some ⟨.reply frame.node frame.taskCtx.resp, waiting⟩) [frame]
  /-- The client has its answer. -/
  | answered {source resp} : Advance finds nodes ⟨.reply source resp, []⟩ nodes none []

/-- One step of the cluster: something happens to one of the threads. -/
inductive Step (finds : Frame φ → Bool) : Cluster φ → Cluster φ → Prop
  | mk {nodes nodes' thread thread' done} (before after : List (Thread φ))
      (handled : List (Frame φ)) (h : Advance finds nodes thread nodes' thread' done) :
      Step finds ⟨nodes, before ++ thread :: after, handled⟩
        ⟨nodes', before ++ (thread'.toList ++ after), handled ++ done⟩

/-! ## The series of a request -/

/-- A request that passes the checks of `process`. -/
def Accepted (tag : Str) (req : Message φ) : Prop :=
  req.cluster = tag ∧ req.type ≠ .UNKNOWN ∧ req.version = 3

instance (tag : Str) (req : Message φ) : Decidable (Accepted tag req) :=
  inferInstanceAs (Decidable (_ ∧ _ ∧ _))

/-- Does the node forward a request? -/
def forwards (tag : Str) (req : Message φ) : Prop := Accepted tag req ∧ req.type = .LOCAL

/-- Does the node tell the others after a request? -/
def tells (tag : Str) (req : Message φ) : Prop := Accepted tag req ∧ req.type ≠ .HELLO

instance (tag : Str) (req : Message φ) : Decidable (forwards tag req) :=
  inferInstanceAs (Decidable (_ ∧ _))

instance (tag : Str) (req : Message φ) : Decidable (tells tag req) :=
  inferInstanceAs (Decidable (_ ∧ _))

/-- The update tasks of a series. -/
def updates (ctx : DrccpServerContext φ) : List (SeriesTask φ) :=
  (neighbours ctx).map fun neigh => .update neigh (updateRequest ctx neigh)

theorem clusterTag_updateShares {ctx ctx' : DrccpServerContext φ} {peer : DrccpEndpoint}
    {entries : List (DrccpEndpoint × φ)} (h : updateShares ctx peer entries = .ok ctx') :
    ctx'.clusterTag = ctx.clusterTag := by
  obtain ⟨shares, rfl, -⟩ := updateShares_ok h
  rfl

/-- **The tasks that a request adds to its series.** -/
theorem process_series {server : DrccpServer φ} {req : Message φ} {out : Processed φ}
    (h : process server req = .ok out) :
    out.server.serverCtx.clusterTag = server.serverCtx.clusterTag ∧
      out.series = (if forwards server.serverCtx.clusterTag req then [.forward] else []) ++
        if tells server.serverCtx.clusterTag req then updates out.server.serverCtx else [] := by
  have hrejected (hnot : ¬ Accepted server.serverCtx.clusterTag req) :
      ([] : List (SeriesTask φ)) =
        (if forwards server.serverCtx.clusterTag req then [.forward] else []) ++
          if tells server.serverCtx.clusterTag req then updates out.server.serverCtx else [] := by
    rw [if_neg fun hf => hnot hf.1, if_neg fun ht => hnot ht.1, List.append_nil]
  rw [process] at h
  split_ifs at h with htag hunknown hversion
  · cases h
    exact ⟨rfl, hrejected fun ha => htag ha.1⟩
  · cases h
    exact ⟨rfl, hrejected fun ha => ha.2.1 hunknown⟩
  · cases h
    exact ⟨rfl, hrejected fun ha => hversion ha.2.2⟩
  · have haccepted : Accepted server.serverCtx.clusterTag req :=
      ⟨not_not.mp htag, hunknown, not_not.mp hversion⟩
    have htells (htype : req.type ≠ .HELLO) : tells server.serverCtx.clusterTag req :=
      ⟨haccepted, htype⟩
    split at h
    · rename_i htype
      obtain ⟨ctx, hctx, h⟩ := bind_eq_ok.mp h
      have htag' := clusterTag_updateShares hctx
      cases h
      refine ⟨htag', ?_⟩
      rw [if_neg (by simp [forwards, htype]), if_pos (htells (by simp [htype]))]
      rfl
    · rename_i htype
      obtain ⟨ctx, hctx, h⟩ := bind_eq_ok.mp h
      have htag' := clusterTag_updateShares hctx
      cases h
      refine ⟨htag', ?_⟩
      rw [if_neg (by simp [forwards, htype]), if_neg (by simp [tells, htype])]
      rfl
    · rename_i htype
      cases h
      refine ⟨rfl, ?_⟩
      rw [if_pos ⟨haccepted, htype⟩, if_pos (htells (by simp [htype]))]
      rfl
    · rename_i htype
      split at h
      · cases h
      · cases h
        refine ⟨rfl, ?_⟩
        rw [if_neg (by simp [forwards, htype]), if_pos (htells (by simp [htype]))]
        rfl
    · rename_i hmeet hhello hlocal hforward
      cases h
      refine ⟨rfl, ?_⟩
      rw [if_neg fun hf => hlocal hf.2, if_pos (htells hhello)]
      rfl

/-! ## Every execution ends -/

section Rank

/-- How many requests are still to come that make a node send others: this one, and the `FORWARD`
of a `LOCAL`. -/
def Message.weight (req : Message φ) : ℕ :=
  if req.type = .HELLO then 0 else if req.type = .LOCAL then 2 else 1

/-- The same for a task, given whether the forward has succeeded. -/
def taskWeight (success : Bool) : SeriesTask φ → ℕ
  | .forward => if success then 0 else 1
  | .update _ req => req.weight

/-- How many steps a task can take at most when no such request is handled. -/
def taskSteps (success : Bool) : SeriesTask φ → ℕ
  | .forward => if success then 1 else 5
  | .update _ _ => 4

def Frame.weight (frame : Frame φ) : ℕ :=
  (frame.series.map (taskWeight frame.taskCtx.forwardSuccess)).sum

def Frame.steps (frame : Frame φ) : ℕ :=
  2 + (frame.series.map (taskSteps frame.taskCtx.forwardSuccess)).sum

/-- A series that waits, after the answer. -/
def Frame.next (frame : Frame φ) : Frame φ :=
  match frame.series with
  | [] => frame
  | .forward :: _ => { frame with taskCtx := { frame.taskCtx with forwardSuccess := true } }
  | .update _ _ :: rest => frame.tasks rest

def Front.weight : Front φ → ℕ
  | .request _ req => req.weight
  | .working frame => frame.weight
  | .reply _ _ => 0

def Front.steps : Front φ → ℕ
  | .request _ _ => 3
  | .working frame => frame.steps
  | .reply _ _ => 1

def Thread.weight (thread : Thread φ) : ℕ :=
  thread.front.weight + (thread.waiting.map fun frame => frame.next.weight).sum

def Thread.steps (thread : Thread φ) : ℕ :=
  thread.front.steps + (thread.waiting.map fun frame => frame.next.steps).sum

def Cluster.weight (s : Cluster φ) : ℕ := (s.threads.map Thread.weight).sum

def Cluster.steps (s : Cluster φ) : ℕ := (s.threads.map Thread.steps).sum

omit [FloatShare φ] in
theorem taskWeight_true_le (success : Bool) (series : List (SeriesTask φ)) :
    (series.map (taskWeight true)).sum ≤ (series.map (taskWeight success)).sum := by
  refine List.sum_le_sum fun task _ => ?_
  cases task <;> simp [taskWeight]

omit [FloatShare φ] in
theorem taskSteps_true_le (success : Bool) (series : List (SeriesTask φ)) :
    (series.map (taskSteps true)).sum ≤ (series.map (taskSteps success)).sum := by
  refine List.sum_le_sum fun task _ => ?_
  cases task
  · cases success <;> simp [taskSteps]
  · simp [taskSteps]

omit [FloatShare φ] in
theorem weight_updates (ctx : DrccpServerContext φ) (success : Bool) :
    ((updates ctx).map (taskWeight success)).sum = 0 := by
  rw [updates, List.map_map]
  exact List.sum_eq_zero fun n hn => by
    obtain ⟨neigh, -, rfl⟩ := List.mem_map.mp hn
    rfl

/-- **A request that is handled** leaves tasks of less weight, or none. -/
theorem process_weight {server : DrccpServer φ} {req : Message φ} {out : Processed φ}
    (h : process server req = .ok out) :
    out.series = [] ∨ (out.series.map (taskWeight false)).sum < req.weight := by
  obtain ⟨-, hseries⟩ := process_series h
  by_cases htells : tells server.serverCtx.clusterTag req
  · right
    rw [hseries, List.map_append, List.sum_append, if_pos htells, weight_updates, add_zero,
      Message.weight, if_neg htells.2]
    by_cases hforwards : forwards server.serverCtx.clusterTag req
    · rw [if_pos hforwards, if_pos hforwards.2]
      exact one_lt_two
    · rw [if_neg hforwards, List.map_nil, List.sum_nil]
      split_ifs
      · exact two_pos
      · exact one_pos
  · left
    have hforwards : ¬ forwards server.serverCtx.clusterTag req := fun hf =>
      htells ⟨hf.1, by rw [hf.2]; decide⟩
    rw [hseries, if_neg htells, if_neg hforwards, List.append_nil]

omit [FloatShare φ] in
theorem next_forward {frame : Frame φ} {rest : List (SeriesTask φ)}
    (h : frame.series = .forward :: rest) : frame.next =
      { frame with taskCtx := { frame.taskCtx with forwardSuccess := true } } := by
  rw [Frame.next]
  simp only [h]

omit [FloatShare φ] in
theorem next_update {frame : Frame φ} {neigh : DrccpEndpoint} {req : Message φ}
    {rest : List (SeriesTask φ)} (h : frame.series = .update neigh req :: rest) :
    frame.next = frame.tasks rest := by
  rw [Frame.next]
  simp only [h]

theorem forwardTaskRepeater_some {ctx : DrccpServerContext φ} {taskCtx : DrccpTaskContext φ}
    {target : DrccpEndpoint} {req : Message φ}
    (h : forwardTaskRepeater ctx taskCtx = some (target, req)) :
    taskCtx.forwardSuccess = false ∧ req.type = .FORWARD := by
  rw [forwardTaskRepeater] at h
  split_ifs at h with hsuccess
  cases h
  exact ⟨Bool.not_eq_true _ ▸ hsuccess, rfl⟩

theorem forwardTaskRepeater_none {ctx : DrccpServerContext φ} {taskCtx : DrccpTaskContext φ}
    (h : forwardTaskRepeater ctx taskCtx = none) : taskCtx.forwardSuccess = true := by
  rw [forwardTaskRepeater] at h
  split_ifs at h with hsuccess
  exact hsuccess

/-- **What every step lowers.** -/
theorem advance_lt {finds : Frame φ → Bool} {nodes nodes' : Nodes φ} {thread : Thread φ}
    {thread' : Option (Thread φ)} {done : List (Frame φ)} (h : Advance finds nodes thread nodes' thread' done) :
    thread'.elim 0 Thread.weight < thread.weight ∨
      thread'.elim 0 Thread.weight ≤ thread.weight ∧
        thread'.elim 0 Thread.steps < thread.steps := by
  cases h with
  | deliver hserver hout hresp =>
    rcases process_weight hout with hnil | hlt
    · right
      simp [Thread.weight, Thread.steps, Front.weight, Front.steps, Frame.weight, Frame.steps, hnil]
    · left
      simpa [Thread.weight, Front.weight, Frame.weight] using hlt
  | ignore hserver hout hresp =>
    right
    simp [Thread.weight, Thread.steps, Front.steps]
  | outside hdest resp =>
    right
    simp [Thread.weight, Thread.steps, Front.weight, Front.steps]
  | @forward frame rest waiting server target req hseries hserver hrepeater =>
    right
    obtain ⟨hsuccess, htype⟩ := forwardTaskRepeater_some hrepeater
    have hsend : (frame.send target req).series = .forward :: rest := hseries
    have hweight := taskWeight_true_le false rest
    have hsteps := taskSteps_true_le false rest
    simp only [Option.elim_some, Thread.weight, Thread.steps, Front.weight, Front.steps,
      Message.weight, htype, List.map_cons, List.sum_cons, next_forward hsend, Frame.weight,
      Frame.steps, hsend, hseries, hsuccess, taskWeight, taskSteps]
    simp only [reduceCtorEq, if_true, if_false, Bool.false_eq_true]
    omega
  | @stop frame rest waiting server hseries hserver hrepeater =>
    right
    have hsuccess := forwardTaskRepeater_none hrepeater
    simp only [Option.elim_some, Thread.weight, Thread.steps, Front.weight, Front.steps,
      Frame.weight, Frame.steps, Frame.tasks, hseries, List.map_cons, List.sum_cons, hsuccess,
      taskWeight, taskSteps, if_true]
    omega
  | @update frame neigh req rest waiting hseries =>
    right
    have hsend : (frame.send neigh req).series = .update neigh req :: rest := hseries
    simp only [Option.elim_some, Thread.weight, Thread.steps, Front.weight, Front.steps,
      List.map_cons, List.sum_cons, next_update hsend, Frame.weight, Frame.steps, Frame.tasks,
      hseries, taskWeight, taskSteps]
    simp only [Frame.send]
    omega
  | @forwarded frame rest waiting server target resp hseries hserver =>
    right
    simp only [Option.elim_some, Thread.weight, Thread.steps, Front.weight, Front.steps,
      List.map_cons, List.sum_cons, next_forward hseries, Frame.weight, Frame.steps, forwardDone]
    omega
  | @updated frame neigh req rest waiting server source resp ctx hseries hserver hctx =>
    right
    simp only [Option.elim_some, Thread.weight, Thread.steps, Front.weight, Front.steps,
      List.map_cons, List.sum_cons, next_update hseries]
    omega
  | finish hseries =>
    right
    simp [Thread.weight, Thread.steps, Front.weight, Front.steps, Frame.weight, Frame.steps,
      hseries]
  | answered =>
    right
    simp [Thread.weight, Thread.steps, Front.weight, Front.steps]

/-- The order in which every step goes down. -/
def Cluster.rank (s : Cluster φ) : ℕ × ℕ := (s.weight, s.steps)

theorem step_rank {finds : Frame φ → Bool} {s s' : Cluster φ} (h : Step finds s s') :
    Prod.Lex (· < ·) (· < ·) s'.rank s.rank := by
  obtain ⟨before, after, handled, hadvance⟩ := h
  rename_i nodes nodes' thread thread' done
  have hsum (f : Thread φ → ℕ) : (thread'.toList.map f).sum = thread'.elim 0 f := by
    cases thread' <;> simp
  have hlt := advance_lt hadvance
  rw [Prod.lex_def]
  simp only [Cluster.rank, Cluster.weight, Cluster.steps, List.map_append, List.sum_append,
    List.map_cons, List.sum_cons, hsum]
  omega

/-- **Every execution ends**, whatever order the threads take. -/
theorem wellFounded_step (finds : Frame φ → Bool) :
    WellFounded fun s' s : Cluster φ => Step finds s s' :=
  Subrelation.wf step_rank (InvImage.wf Cluster.rank (wellFounded_lt.prod_lex wellFounded_lt))

end Rank

end Jxtd.Computation.Drccp
