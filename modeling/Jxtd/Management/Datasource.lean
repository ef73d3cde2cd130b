import Jxtd.Lib.Run
import Jxtd.Proto.Datasource.Message

/-!
# The registry of the data sources

A server keeps a table of the data sources (`management/datasource`), to which clients add theirs
with `register_datasource` (`nvr/datasource/Registry.cc`). The handler looks the name up and adds the
entry in two calls; requests are handled beside each other, so that anything can happen in between. A
call is one step here, although the table has no lock.

* `hasDatasource`, `addDatasource`, `process`: the table and the handler.
* `registered`, `registerDatasource`: what a client returns.
* `World`, `Event`, `step`: the server with the requests under way; **`step_process`**: a request
  with nothing in between is handled by `process`.
* `Law`, `Proper`, **`registry_foldl`**: what is wanted of a run, and the runs that have it.
* **`unregister_inserts`**, `race_lost`: a request that is no registration, and two clients.
-/

namespace Jxtd.Management.Datasource

open Lib Std Jxtd.Datasource

/-- `proto`, `url`, `port`. -/
abbrev Endpoint := UInt32 × Str × UInt32

/-! ## The table -/

abbrev DataSourceList := TreeMap Str Endpoint

def hasDatasource (list : DataSourceList) (name : Str) : Bool := list.contains name

/-- `add_datasource`; an entry that is there stays. -/
def addDatasource (list : DataSourceList) (name : Str) (endpoint : Endpoint) : DataSourceList :=
  list.insertIfNew name endpoint

/-- The endpoint of a request. -/
def endpointOf (req : Request) : Endpoint := (req.req.proto, req.req.url, req.req.port)

/-- The response before its status is set. -/
def newResponse (req : Request) : Response := (Response.new.setToken []).setName req.req.name

/-- `process`. -/
def process (list : DataSourceList) (req : Request) : DataSourceList × Response :=
  if hasDatasource list req.req.name then (list, (newResponse req).setStatus Status_err)
  else (addDatasource list req.req.name (endpointOf req), (newResponse req).setStatus Status_ok)

theorem get_addDatasource (list : DataSourceList) (name : Str) (endpoint : Endpoint) (k : Str) :
    (addDatasource list name endpoint)[k]? =
      if name = k then some (list[k]?.getD endpoint) else list[k]? :=
  get_insertIfNew list name k endpoint

/-! ## The client -/

/-- The request of `register_datasource`. -/
def registerRequest (dtname url : Str) (proto port : UInt32) : Request :=
  ((((Request.new.setName dtname).setUrl url).setPort port).setAction
    Action.Register.toUInt32).setProto proto

/-- The callback of `register_datasource`; `none` stands for a task that failed. -/
def registered (dtname : Str) (resp : Option Response) : UInt32 :=
  match resp with
  | none => 1
  | some resp =>
    if resp.resp.name ≠ dtname then 2
    else if resp.resp.status ≠ Status_ok then 3
    else 0

/-- `Registry::register_datasource`; nothing is sent for a configuration that is not known. -/
def registerDatasource (configMap : TreeMap Str (Str × Bool × UInt32)) (dtname url : Str)
    (proto port : UInt32) (configName : Str) (exchange : Request → Option Response) : UInt32 :=
  match configMap[configName]? with
  | none => -1
  | some _ => registered dtname (exchange (registerRequest dtname url proto port))

/-! ## The requests under way -/

/-- Who sent a request: `register_datasource`, or anybody else. -/
inductive Caller
  | register (dtname url : Str) (proto port : UInt32)
  | other (req : Request)

def Caller.request : Caller → Request
  | register dtname url proto port => registerRequest dtname url proto port
  | other req => req

def Caller.name (c : Caller) : Str := c.request.req.name

/-- Where a request stands. -/
inductive Stage
  | checking
  | adding
  | answered (resp : Response)
  | returned (result : UInt32)

structure World where
  list : DataSourceList := ∅
  calls : ℕ → Option (Caller × Stage) := fun _ => none

inductive Event
  /-- A request arrives, under a number that is not in use. -/
  | call (i : ℕ) (caller : Caller)
  /-- `has_datasource`. -/
  | check (i : ℕ)
  /-- `add_datasource`. -/
  | add (i : ℕ)
  /-- The callback of the client, with the response if it arrived. -/
  | deliver (i : ℕ) (arrived : Bool)

namespace World

/-- Moves a request on. -/
def move (w : World) (i : ℕ) (caller : Caller) (stage : Stage) : World :=
  { w with calls := Function.update w.calls i (some (caller, stage)) }

def step (w : World) : Event → World
  | .call i caller =>
    match w.calls i with
    | none => w.move i caller .checking
    | some _ => w
  | .check i =>
    match w.calls i with
    | some (caller, .checking) =>
      if hasDatasource w.list caller.name then
        w.move i caller (.answered ((newResponse caller.request).setStatus Status_err))
      else w.move i caller .adding
    | _ => w
  | .add i =>
    match w.calls i with
    | some (caller, .adding) =>
      { w.move i caller (.answered ((newResponse caller.request).setStatus Status_ok)) with
        list := addDatasource w.list caller.name (endpointOf caller.request) }
    | _ => w
  | .deliver i arrived =>
    match w.calls i with
    | some (caller, .answered resp) =>
      w.move i caller (.returned (registered caller.name (if arrived then some resp else none)))
    | _ => w

variable {w : World}

/-- **A request with nothing between its steps** is handled by `process`. -/
theorem step_process {i : ℕ} {caller : Caller} (h : w.calls i = some (caller, .checking)) :
    ((w.step (.check i)).step (.add i)).list = (process w.list caller.request).1 ∧
      ((w.step (.check i)).step (.add i)).calls i =
        some (caller, .answered (process w.list caller.request).2) := by
  have hname : caller.name = caller.request.req.name := rfl
  by_cases hhas : hasDatasource w.list caller.name = true
  · have hcheck : w.step (.check i) =
        w.move i caller (.answered ((newResponse caller.request).setStatus Status_err)) := by
      simp only [step, h, hhas, if_true]
    rw [hname] at hhas
    rw [hcheck, process, if_pos hhas]
    simp [step, move]
  · have hcheck : w.step (.check i) = w.move i caller .adding := by
      simp only [step, h, hhas, if_false, Bool.false_eq_true]
    rw [hname] at hhas
    rw [hcheck, process, if_neg hhas]
    simp [step, move, hname]

/-! ## What is wanted -/

/-- The event inserts the entry for a registration, which is answered with `Status_ok`. -/
def Inserts (w : World) (e : Event) (name : Str) (endpoint : Endpoint) : Prop :=
  ∃ i caller resp, e = .add i ∧ w.calls i = some (caller, .adding) ∧
    caller.request.req.action = Action.Register.toUInt32 ∧ caller.name = name ∧
    endpointOf caller.request = endpoint ∧ w.list[name]? = none ∧
    (w.step e).list[name]? = some endpoint ∧
    (w.step e).calls i = some (caller, .answered resp) ∧ resp.resp.status = Status_ok

/-- What is wanted of a run: only registrations of absent names change the table, and a client that
returned `0` has its entry in the table from then on. -/
def Law (events : List Event) : Prop :=
  (∀ before e after, events = before ++ e :: after → ∀ name,
    ((before.foldl step {}).step e).list[name]? = (before.foldl step {}).list[name]? ∨
      ∃ endpoint, Inserts (before.foldl step {}) e name endpoint) ∧
  ∀ before after, events = before ++ after → ∀ i dtname url proto port,
    (before.foldl step {}).calls i = some (.register dtname url proto port, .returned 0) →
      (events.foldl step {}).list[dtname]? = some (proto, url, port)

/-- What is added is a registration, and its name is still absent. -/
def Proper (w : World) : Event → Prop
  | .add i => ∀ caller, w.calls i = some (caller, .adding) →
    caller.request.req.action = Action.Register.toUInt32 ∧ w.list[caller.name]? = none
  | _ => True

/-! ## Steps -/

/-- A proper step leaves an entry or inserts it. -/
theorem get_step {e : Event} (h : w.Proper e) (name : Str) :
    (w.step e).list[name]? = w.list[name]? ∨ ∃ endpoint, w.Inserts e name endpoint := by
  cases e with
  | call i caller =>
    left
    simp only [step]
    split <;> rfl
  | check i =>
    left
    simp only [step]
    split
    · split_ifs <;> rfl
    · rfl
  | deliver i arrived =>
    left
    simp only [step]
    split <;> rfl
  | add i =>
    cases hcall : w.calls i with
    | none =>
      left
      simp only [step, hcall]
    | some call =>
      obtain ⟨caller, stage⟩ := call
      cases stage with
      | adding =>
        obtain ⟨haction, habsent⟩ := h caller hcall
        by_cases hname : caller.name = name
        · right
          subst hname
          refine ⟨_, i, caller, (newResponse caller.request).setStatus Status_ok, rfl, hcall, haction,
            rfl, rfl, habsent, ?_, ?_, rfl⟩
          · simp only [step, hcall]
            rw [get_addDatasource, if_pos rfl, habsent, Option.getD_none]
          · simp [step, hcall, move]
        · left
          simp only [step, hcall]
          rw [get_addDatasource, if_neg hname]
      | _ =>
        left
        simp only [step, hcall]

theorem get_step_of_some {e : Event} (h : w.Proper e) {name : Str} {endpoint : Endpoint}
    (hget : w.list[name]? = some endpoint) : (w.step e).list[name]? = some endpoint := by
  rcases get_step h name with heq | ⟨_, _, _, _, _, _, _, _, _, habsent, _⟩
  · rw [heq, hget]
  · rw [hget] at habsent
    cases habsent

/-- A request that was answered with `Status_ok`, or whose client returned `0`, has its entry. -/
structure Settled (w : World) : Prop where
  answered : ∀ i caller resp, w.calls i = some (caller, .answered resp) →
    resp.resp.status = Status_ok → w.list[caller.name]? = some (endpointOf caller.request)
  returned : ∀ i caller, w.calls i = some (caller, .returned 0) →
    w.list[caller.name]? = some (endpointOf caller.request)

theorem settled_new : Settled {} where
  answered := by
    intro i caller resp h
    cases h
  returned := by
    intro i caller h
    cases h

theorem registered_eq_zero {dtname : Str} {resp : Option Response}
    (h : registered dtname resp = 0) : ∃ r, resp = some r ∧ r.resp.status = Status_ok := by
  cases resp with
  | none =>
    simp only [registered] at h
    exact absurd h (by decide)
  | some r =>
    refine ⟨r, rfl, ?_⟩
    simp only [registered] at h
    split_ifs at h with hname hstatus
    · exact absurd h (by decide)
    · exact absurd h (by decide)
    · exact not_not.mp hstatus

/-- What a moved request needs, beside what the others have already. -/
theorem Settled.move {w' : World} (hs : w.Settled) (i : ℕ) (caller : Caller) (stage : Stage)
    (hcalls : w'.calls = Function.update w.calls i (some (caller, stage)))
    (hlist : ∀ (name : Str) (endpoint : Endpoint), w.list[name]? = some endpoint →
      w'.list[name]? = some endpoint)
    (hnew : ∀ resp, stage = .answered resp → resp.resp.status = Status_ok →
      w'.list[caller.name]? = some (endpointOf caller.request))
    (hzero : stage = .returned 0 → w'.list[caller.name]? = some (endpointOf caller.request)) :
    w'.Settled where
  answered := by
    intro j c resp hj hstatus
    rw [hcalls] at hj
    by_cases hji : j = i
    · subst hji
      rw [Function.update_self] at hj
      cases hj
      exact hnew resp rfl hstatus
    · rw [Function.update_of_ne hji] at hj
      exact hlist _ _ (hs.answered j c resp hj hstatus)
  returned := by
    intro j c hj
    rw [hcalls] at hj
    by_cases hji : j = i
    · subst hji
      rw [Function.update_self] at hj
      cases hj
      exact hzero rfl
    · rw [Function.update_of_ne hji] at hj
      exact hlist _ _ (hs.returned j c hj)

/-- **What a proper step keeps.** -/
theorem Settled.step {e : Event} (hs : w.Settled) (h : w.Proper e) : (w.step e).Settled := by
  have hlist : ∀ (name : Str) (endpoint : Endpoint), w.list[name]? = some endpoint →
      (w.step e).list[name]? = some endpoint := fun _ _ hget => get_step_of_some h hget
  cases e with
  | call i caller =>
    cases hcall : w.calls i with
    | some call => simpa only [World.step, hcall] using hs
    | none =>
      refine hs.move i caller .checking ?_ hlist ?_ ?_
      · simp only [World.step, hcall, World.move]
      · intro resp hstage
        cases hstage
      · intro hstage
        cases hstage
  | check i =>
    cases hcall : w.calls i with
    | none => simpa only [World.step, hcall] using hs
    | some call =>
      obtain ⟨caller, stage⟩ := call
      cases stage with
      | checking =>
        by_cases hhas : hasDatasource w.list caller.name = true
        · refine hs.move i caller
            (.answered ((newResponse caller.request).setStatus Status_err)) ?_ hlist ?_ ?_
          · simp only [World.step, hcall, hhas, if_true, World.move]
          · intro resp hstage hstatus
            cases hstage
            exact absurd hstatus (by decide : Status_err ≠ Status_ok)
          · intro hstage
            cases hstage
        · refine hs.move i caller .adding ?_ hlist ?_ ?_
          · simp only [World.step, hcall, hhas, if_false, Bool.false_eq_true, World.move]
          · intro resp hstage
            cases hstage
          · intro hstage
            cases hstage
      | _ => simpa only [World.step, hcall] using hs
  | add i =>
    cases hcall : w.calls i with
    | none => simpa only [World.step, hcall] using hs
    | some call =>
      obtain ⟨caller, stage⟩ := call
      cases stage with
      | adding =>
        have habsent := (h caller hcall).2
        refine hs.move i caller
          (.answered ((newResponse caller.request).setStatus Status_ok)) ?_ hlist ?_ ?_
        · simp only [World.step, hcall, World.move]
        · intro resp _ _
          simp only [World.step, hcall]
          rw [get_addDatasource, if_pos rfl, habsent, Option.getD_none]
        · intro hstage
          cases hstage
      | _ => simpa only [World.step, hcall] using hs
  | deliver i arrived =>
    cases hcall : w.calls i with
    | none => simpa only [World.step, hcall] using hs
    | some call =>
      obtain ⟨caller, stage⟩ := call
      cases stage with
      | answered resp =>
        refine hs.move i caller
          (.returned (registered caller.name (if arrived then some resp else none)))
          ?_ hlist ?_ ?_
        · simp only [World.step, hcall, World.move]
        · intro resp hstage
          cases hstage
        · intro hstage
          have hzero := registered_eq_zero (Stage.returned.inj hstage)
          obtain ⟨r, hr, hstatus⟩ := hzero
          cases arrived with
          | false => cases hr
          | true =>
            cases hr
            exact hlist _ _ (hs.answered i caller resp hcall hstatus)
      | _ => simpa only [World.step, hcall] using hs

/-! ## Runs -/

theorem get_foldl_of_some {w : World} {events : List Event} (h : Along Proper step w events)
    {name : Str} {endpoint : Endpoint} (hget : w.list[name]? = some endpoint) :
    (events.foldl step w).list[name]? = some endpoint :=
  h.foldl (I := fun w => w.list[name]? = some endpoint) (fun _ _ hs he => get_step_of_some he hs) hget

/-- **Runs whose steps are proper** have what is wanted. -/
theorem registry_foldl {events : List Event} (h : Along Proper step {} events) : Law events := by
  constructor
  · rintro before e after rfl name
    obtain ⟨-, he, -⟩ := (along_append _ _ _).mp h
    exact get_step he name
  · rintro before after rfl i dtname url proto port hcall
    obtain ⟨hbefore, hafter⟩ := (along_append _ _ _).mp h
    have hsettled : (before.foldl step {}).Settled :=
      hbefore.foldl (fun _ _ hs he => hs.step he) settled_new
    rw [List.foldl_append]
    exact get_foldl_of_some hafter (hsettled.returned i _ hcall)

theorem proper_add {w : World} {i : ℕ} {caller : Caller} (hcall : w.calls i = some (caller, .adding))
    (haction : caller.request.req.action = Action.Register.toUInt32)
    (hnone : w.list[caller.name]? = none) : w.Proper (.add i) := by
  intro caller' hcall'
  cases hcall.symm.trans hcall'
  exact ⟨haction, hnone⟩

/-- Two clients register at the same time; the name of the second one is registered once more. -/
def twoClients : List Event :=
  [.call 0 (.register (lit "a") (lit "u") 0 1), .call 1 (.register (lit "b") (lit "v") 0 2), .check 0,
    .check 1, .add 1, .add 0, .call 2 (.register (lit "b") (lit "w") 0 3), .check 2, .deliver 2 true,
    .deliver 1 true, .deliver 0 true]

theorem registry_foldl_twoClients : Law twoClients := by
  refine registry_foldl ⟨trivial, trivial, trivial, trivial, ?_, ?_, trivial, trivial, trivial, trivial,
    trivial, trivial⟩
  · exact proper_add rfl rfl rfl
  · exact proper_add rfl rfl (by decide)

/-- **A request to unregister** inserts an entry. -/
theorem unregister_inserts : ¬ ∀ events, Law events := by
  intro h
  let req := (Request.new.setName (lit "a")).setAction Action.Unregister.toUInt32
  rcases (h [.call 0 (.other req), .check 0, .add 0]).1 [.call 0 (.other req), .check 0] (.add 0) []
    rfl (lit "a") with hsame | ⟨_, i, caller, _, hi, hcall, haction, _⟩
  · cases hsame
  · cases hi
    cases hcall
    exact absurd haction (by decide)

/-- **Two clients that register one name** both return `0`, the second without its entry. -/
theorem race_lost : ¬ ∀ events, (∀ i caller, Event.call i caller ∈ events →
    caller.request.req.action = Action.Register.toUInt32) → Law events := by
  intro h
  let events : List Event := [.call 0 (.register (lit "a") (lit "u") 0 1),
    .call 1 (.register (lit "a") (lit "v") 0 2), .check 0, .check 1, .add 0, .add 1, .deliver 1 true]
  have hlaw := h events (by
    intro i caller hmem
    rcases caller with ⟨dtname, url, proto, port⟩ | req
    · rfl
    · simp [events] at hmem)
  have hget := hlaw.2 events [] (List.append_nil _).symm 1 (lit "a") (lit "v") 0 2 rfl
  cases hget

end World

end Jxtd.Management.Datasource
