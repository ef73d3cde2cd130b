import Jxtd.Computation.Drccp.Server

/-!
# Submitting a payload

`DrccpServer::submit` sends a `LOCAL` request to the node itself; the callback of its task passes the
reply on to the callback that the client has registered (`computation/drccp/server.cc`).

* `submit`, `submitDone`: the request, and the callback of its task.
* `submitDone_eq`: the calls of the registered callback, for every outcome.
* **`answered_once_iff`**: it is called once exactly when the task succeeds without a `VERSION` reply.
-/

namespace Jxtd.Computation.Drccp

open Lib

variable {φ τ : Type}

/-- A network task that has ended. The response of one that failed holds what has been received. -/
structure Ended (φ : Type) where
  success : Bool
  resp : Message φ

/-- `if(client_ctx -> result_process) client_ctx -> result_process(result)`, on the state `τ` of the
client. -/
def callResult (resultProcess : Option (Str → τ → τ)) (result : Str) (client : τ) : τ :=
  match resultProcess with
  | none => client
  | some process => process result client

/-- The callback of the task that `submit` starts; there is no `return` after the first call. -/
def submitDone (resultProcess : Option (Str → τ → τ)) (task : Ended φ) (client : τ) : τ :=
  let client :=
    if task.success = false ∨ task.resp.type = .VERSION then callResult resultProcess [] client
    else client
  callResult resultProcess task.resp.raw client

/-- A network task: where it goes, what it sends, and its callback, given the callback of the client
that is registered by then. -/
structure LocalTask (φ τ : Type) where
  dest : DrccpEndpoint
  req : Message φ
  callback : Option (Str → τ → τ) → Ended φ → τ → τ

/-- `DrccpServer::submit`: the node with the origin in its client context, and the task. -/
def submit (server : DrccpServer φ) (payload : Str) (origin : DrccpEndpoint) :
    DrccpServer φ × LocalTask φ τ :=
  let clientCtx : DrccpClientContext := ⟨origin.1, origin.2⟩
  let self := server.serverCtx.self
  let req := ((setupHeaderReq .new server.serverCtx clientCtx).setdest self).setraw payload
  ({ server with clientCtx }, ⟨self, req.settype .LOCAL, submitDone⟩)

/-- What the client is to be told: the payload of the reply, or nothing. -/
def expected (task : Ended φ) : Str :=
  if task.success = true ∧ task.resp.type ≠ .VERSION then task.resp.raw else []

/-- **The calls of the registered callback.** -/
theorem submitDone_eq (process : Str → τ → τ) (task : Ended φ) (client : τ) :
    submitDone (some process) task client =
      if task.success = true ∧ task.resp.type ≠ .VERSION then process (expected task) client
      else process task.resp.raw (process (expected task) client) := by
  unfold submitDone expected
  by_cases h : task.success = true ∧ task.resp.type ≠ .VERSION
  · have hfail : ¬ (task.success = false ∨ task.resp.type = .VERSION) := by
      rw [not_or, Bool.not_eq_false]
      exact h
    rw [if_neg hfail, if_pos h, if_pos h]
    rfl
  · have hfail : task.success = false ∨ task.resp.type = .VERSION := by
      rwa [not_and_or, Bool.not_eq_true, ne_eq, not_not] at h
    rw [if_pos hfail, if_neg h, if_neg h]
    rfl

/-- A client that writes down its calls. -/
def record (result : Str) (calls : List Str) : List Str := calls ++ [result]

/-- **Answered once.** The callback of a submission does to every client what one call of the
registered callback does, with the payload of the reply or the empty string as it should be, exactly
when the task succeeds and the reply is not `VERSION`. -/
theorem answered_once_iff (server : DrccpServer φ) (payload : Str) (origin : DrccpEndpoint)
    (task : Ended φ) :
    (∀ (τ : Type) (resultProcess : Option (Str → τ → τ)) (client : τ),
      (submit server payload origin).2.callback resultProcess task client =
        callResult resultProcess (expected task) client) ↔
      task.success = true ∧ task.resp.type ≠ .VERSION := by
  constructor
  · intro h
    by_contra hfail
    have hcalls : submitDone (some record) task [] = record (expected task) [] :=
      h (List Str) (some record) []
    -- the second call makes the record longer
    have hlen := congrArg List.length hcalls
    rw [submitDone_eq, if_neg hfail] at hlen
    cases hlen
  · intro h τ resultProcess client
    cases resultProcess with
    | none =>
      change submitDone none task client = client
      exact ite_self client
    | some process =>
      change submitDone (some process) task client = process (expected task) client
      rw [submitDone_eq, if_pos h]

/-- **A node that cannot be reached.** The client is called twice, and should be once. -/
theorem answered_twice :
    (submit (setup (lit "c") 1 none none : DrccpServer ℚ) [] (lit "o", 2)).2.callback (some record)
      ⟨false, .new⟩ [] = [[], []] ∧
    callResult (some record) (expected (⟨false, .new⟩ : Ended ℚ)) [] = [[]] := ⟨rfl, rfl⟩

end Jxtd.Computation.Drccp
