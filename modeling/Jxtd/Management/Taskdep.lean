import Jxtd.Proto.Taskdep.Message

/-!
# The negotiation on the management side

One call of `create_neogiate_task`. Its tasks run one after the other, and the callback of each sees
a response or a failure, so that the call is a state machine that is driven by what it receives.

* `neogiateRequest`: the request of the first task and of the repeated ones.
* `firstCallback`, `repeaterCallback`: what the callbacks do to the variables of the call.
* `Call.deliver`: the callback of the running task.
-/

namespace Jxtd.Management

open Lib Taskdep

structure TaskdepClientContext where
  storage : Endpoint
  management : Endpoint
  token : Str

/-- The request that asks for `taskid`. -/
def neogiateRequest (ctx : TaskdepClientContext) (taskid : UInt64) (engine : Engine) : Request :=
  let req := Request.new.setType .management .storage .neogiate
  let req := (req.setObjectManagement ctx.management).setObjectStorage ctx.storage
  let req := (req.setToken ctx.token).setTaskid taskid
  let req := (req.setEngineBinary engine.binary).setEngineIdName engine.id engine.name
  let req := engine.deps.foldl Request.addEngineDep req
  engine.extfiles.foldl Request.addEngineExtfile req

/-- The type of a request and its id. -/
def header (req : Request) : UInt32 × UInt32 × UInt32 × UInt64 :=
  (req.src, req.dest, req.msg, req.taskid)

/-- What every element of a list keeps, the list keeps. -/
theorem header_foldl {α : Type} (f : Request → α → Request)
    (h : ∀ req x, header (f req x) = header req) (xs : List α) (req : Request) :
    header (xs.foldl f req) = header req := by
  induction xs generalizing req with
  | nil => rfl
  | cons x xs ih => exact (ih _).trans (h req x)

theorem header_neogiateRequest (ctx : TaskdepClientContext) (taskid : UInt64) (engine : Engine) :
    header (neogiateRequest ctx taskid engine) =
      (AddrType.management.toUInt32, AddrType.storage.toUInt32, MsgType.neogiate.toUInt32, taskid) := by
  unfold neogiateRequest
  rw [header_foldl Request.addEngineExtfile fun _ _ => rfl,
    header_foldl Request.addEngineDep fun _ _ => rfl]
  rfl

theorem neogiateRequest_taskid (ctx : TaskdepClientContext) (taskid : UInt64) (engine : Engine) :
    (neogiateRequest ctx taskid engine).taskid = taskid :=
  congrArg (·.2.2.2) (header_neogiateRequest ctx taskid engine)

/-- Which task a call is waiting for. -/
inductive Phase
  | first
  | repeater
  | returned
  deriving DecidableEq

/-- The variables of a call: the id it asks for, its result, `success` of the task context, and the
number of tasks created before the present one. -/
structure Call where
  phase : Phase
  taskid : UInt64
  result : UInt64
  success : Bool
  attempt : ℕ
  deriving DecidableEq

def Call.start (taskid : UInt64) : Call := ⟨.first, taskid, 0, false, 0⟩

/-- Is this an answer of the storage to a negotiation for `taskid`? -/
def answers (resp : Response) (taskid : UInt64) : Bool :=
  !(resp.src ≠ AddrType.storage.toUInt32 || resp.dest ≠ AddrType.management.toUInt32 ||
    resp.msg ≠ MsgType.neogiate.toUInt32 || resp.taskid ≠ taskid)

/-- The repeater creates its next task unless `success` is set. -/
def Call.again (c : Call) : Call :=
  if c.success then { c with phase := .returned }
  else { c with phase := .repeater, attempt := c.attempt + 1 }

/-- The callback of the first task. No response stands for a failure, and no result for the use of
a null pointer. -/
def firstCallback (c : Call) : Option Response → Option Call
  | none => some { c with phase := .returned }
  | some resp =>
    if !answers resp c.taskid then some { c with phase := .returned }
    else
      match resp.neogiate with
      | none => none
      | some n =>
        if n.status = NeogiateStatus.succeed.toUInt32 then
          some { c with phase := .returned, result := c.taskid }
        else if n.status = NeogiateStatus.conflict.toUInt32 then
          match n.alternative with
          | [] => some { c with phase := .returned }
          | front :: _ => some { c with taskid := front }.again
        else some { c with phase := .returned }

/-- The callback of a repeated task, and what the repeater does next. -/
def repeaterCallback (c : Call) : Option Response → Option Call
  | none => some { c with success := false }.again
  | some resp =>
    if !answers resp c.taskid then some { c with success := true }.again
    else
      match resp.neogiate with
      | none => none
      | some n =>
        if n.status = NeogiateStatus.succeed.toUInt32 then
          some { c with result := c.taskid, success := true }.again
        else if n.status = NeogiateStatus.conflict.toUInt32 then
          match n.alternative with
          | [] => some { c with success := true }.again
          | front :: _ => some { c with taskid := front, success := false }.again
        else some { c with success := true }.again

/-- What the running task receives goes to its callback. -/
def Call.deliver (c : Call) (resp : Option Response) : Option Call :=
  match c.phase with
  | .first => firstCallback c resp
  | .repeater => repeaterCallback c resp
  | .returned => some c

/-! ## What a callback does -/

theorem answers_iff {resp : Response} {taskid : UInt64} :
    answers resp taskid = true ↔ resp.src = AddrType.storage.toUInt32 ∧
      resp.dest = AddrType.management.toUInt32 ∧ resp.msg = MsgType.neogiate.toUInt32 ∧
      resp.taskid = taskid := by
  simp [answers, and_assoc]

/-- Everything that a callback can do to the call. -/
inductive Call.Effect (c : Call) (resp : Option Response) (c' : Call) : Prop
  /-- Nothing is granted, and the call returns. -/
  | stop (phase : c'.phase = .returned) (attempt : c'.attempt = c.attempt)
      (taskid : c'.taskid = c.taskid) (result : c'.result = c.result)
  /-- The response grants the id, and the call returns. -/
  | grant (phase : c'.phase = .returned) (attempt : c'.attempt = c.attempt)
      (taskid : c'.taskid = c.taskid) (result : c'.result = c.taskid) (r : Response) (resp : resp = some r)
      (msg : r.msg = MsgType.neogiate.toUInt32) (n : Neogiate) (neogiate : r.neogiate = some n)
      (status : n.status = NeogiateStatus.succeed.toUInt32)
  /-- A further task is created. -/
  | retry (phase : c'.phase = .repeater) (attempt : c'.attempt = c.attempt + 1)
      (result : c'.result = c.result)

theorem firstCallback_effect {c c' : Call} {resp : Option Response}
    (h : firstCallback c resp = some c') (hs : c.success = false) : c.Effect resp c' := by
  cases resp with
  | none =>
    cases h
    exact .stop rfl rfl rfl rfl
  | some r =>
    unfold firstCallback at h
    dsimp only at h
    split at h
    · cases h
      exact .stop rfl rfl rfl rfl
    rename_i hans
    split at h
    · cases h
    rename_i n hn
    split at h
    · rename_i hstatus
      cases h
      have hmsg := (answers_iff.mp (by simpa using hans)).2.2.1
      exact .grant rfl rfl rfl rfl r rfl hmsg n hn hstatus
    split at h
    · split at h
      · cases h
        exact .stop rfl rfl rfl rfl
      · cases h
        unfold Call.again
        rw [if_neg (by simp [hs])]
        exact .retry rfl rfl rfl
    · cases h
      exact .stop rfl rfl rfl rfl

theorem repeaterCallback_effect {c c' : Call} {resp : Option Response}
    (h : repeaterCallback c resp = some c') : c.Effect resp c' := by
  cases resp with
  | none =>
    cases h
    exact .retry rfl rfl rfl
  | some r =>
    unfold repeaterCallback at h
    dsimp only at h
    split at h
    · cases h
      exact .stop rfl rfl rfl rfl
    rename_i hans
    split at h
    · cases h
    rename_i n hn
    split at h
    · rename_i hstatus
      cases h
      have hmsg := (answers_iff.mp (by simpa using hans)).2.2.1
      exact .grant rfl rfl rfl rfl r rfl hmsg n hn hstatus
    split at h
    · split at h
      · cases h
        exact .stop rfl rfl rfl rfl
      · cases h
        exact .retry rfl rfl rfl
    · cases h
      exact .stop rfl rfl rfl rfl

theorem Call.deliver_effect {c c' : Call} {resp : Option Response} (h : c.deliver resp = some c')
    (hphase : c.phase ≠ .returned) (hs : c.phase = .first → c.success = false) :
    c.Effect resp c' := by
  unfold deliver at h
  split at h
  · rename_i hfirst
    exact firstCallback_effect h (hs hfirst)
  · exact repeaterCallback_effect h
  · rename_i hreturned
    exact absurd hreturned hphase

/-- A callback uses no null pointer when a response to a negotiation has its status. -/
theorem Call.deliver_isSome (c : Call) {resp : Option Response}
    (h : ∀ r, resp = some r → r.msg = MsgType.neogiate.toUInt32 → r.neogiate.isSome) :
    (c.deliver resp).isSome := by
  have hneogiate (r : Response) (hr : resp = some r) (hans : answers r c.taskid = true) :
      r.neogiate ≠ none :=
    Option.isSome_iff_ne_none.mp (h r hr (answers_iff.mp hans).2.2.1)
  cases resp with
  | none => cases hp : c.phase <;> simp [deliver, hp, firstCallback, repeaterCallback]
  | some r =>
    cases hans : answers r c.taskid with
    | false => cases hp : c.phase <;> simp [deliver, hp, firstCallback, repeaterCallback, hans]
    | true =>
      obtain ⟨n, hn⟩ := Option.ne_none_iff_exists'.mp (hneogiate r rfl hans)
      unfold deliver
      split
      · simp only [firstCallback, hans, hn]
        split_ifs <;> first | rfl | (cases n.alternative <;> rfl)
      · simp only [repeaterCallback, hans, hn]
        split_ifs <;> first | rfl | (cases n.alternative <;> rfl)
      · rfl

end Jxtd.Management
