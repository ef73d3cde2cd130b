import Jxtd.Lib.Posix
import Jxtd.Lib.Run
import Mathlib.Data.List.AList
import Mathlib.Logic.Function.Basic

/-!
# The scheduler of file services

`storage/fs/scheduler/Scheduler.cc`. A service is an object that `new` makes and `delete` ends; a
pointer is the number of its object, which is not used again. The callbacks of a service act on a
world of any type, so that an `init` may fail at will. Two indexes hold the pointers: one by the id
of a service, one by its scope.

* `Scheduler`, `registerService`, `enableService`, `disableService`, `unloadService`,
  `strategyChoose`, `changeScope`, `destroyScheduler`; `operate`: where a file operation goes.
* `step`, `runActions`: the calls of a program that uses a scheduler.
* `enableOne_cases`, `disableOne_cases`: what enabling or disabling an id can do.
-/

namespace Jxtd.Storage.Fs

open Lib

variable {σ : Type}

/-- The callbacks of a service, any of which may be missing. -/
structure Operations (σ : Type) where
  init : Option (ℕ → σ → ℤ × σ) := none
  openFile : Option (Str → Posix.OpenFlags → ℕ → σ → ℤ × σ) := none
  close : Option (ℤ → σ → ℤ × σ) := none
  write : Option (ℤ → Str → σ → ℤ × σ) := none
  read : Option (ℤ → ℕ → σ → (ℤ × Str) × σ) := none
  seek : Option (ℤ → ℤ → ℤ → σ → ℤ × σ) := none
  remove : Option (Str → σ → ℤ × σ) := none
  opendir : Option (Str → Posix.OpenFlags → ℕ → σ → ℤ × σ) := none
  mkdir : Option (Str → ℕ → σ → ℤ × σ) := none
  closedir : Option (ℤ → σ → ℤ × σ) := none
  readdir : Option (Str → σ → ℤ × σ) := none
  rmdir : Option (Str → σ → ℤ × σ) := none
  fsize : Option (ℤ → σ → ℤ × σ) := none
  ftrun : Option (ℤ → ℤ → σ → ℤ × σ) := none
  fmod : Option (ℤ → σ → ℤ × σ) := none
  fchmod : Option (ℤ → ℕ → σ → ℤ × σ) := none
  destroy : Option (σ → σ) := none

structure Service (σ : Type) where
  status : Bool := false
  scope : Str
  ctx : ℕ := 0
  operations : Operations σ

inductive SchedulingPolicy
  | LoadBalance
  | Single
  deriving DecidableEq

inductive ServiceRange
  | All
  | Specified
  deriving DecidableEq

/-- What happens to a service: its status is set and `init` is called, or `destroy` is called. -/
inductive Call (σ : Type)
  | enabling (init : σ → σ) (destroy : Option (σ → σ))
  | destroyed (destroy : σ → σ)

/-- What the callback of a call does to the world. -/
def Call.effect : Call σ → σ → σ
  | .enabling init _ => init
  | .destroyed destroy => destroy

/-- What `operations.init(ctx)` does to the world, where there is an `init`. -/
def Service.initEffect (service : Service σ) (w : σ) : σ :=
  match service.operations.init with
  | none => w
  | some init => (init service.ctx w).2

/-- `heap` holds the objects that are not deleted, `next` counts those made; `calls` is the history,
each entry with the object it is about. -/
structure Scheduler (σ : Type) where
  heap : ℕ → Option (Service σ) := fun _ => none
  next : ℕ := 0
  serviceScope : List (Str × ℕ) := []
  services : AList fun _ : ℤ => ℕ := ∅
  policy : SchedulingPolicy := .LoadBalance
  range : ServiceRange := .All
  selectScope : Str := []
  selectId : ℤ := -1
  currentService : Option ℕ := none
  calls : List (ℕ × Call σ) := []

namespace Scheduler

/-- A registered service with its pointer. -/
def findService (s : Scheduler σ) (id : ℤ) : Option (ℕ × Service σ) :=
  (s.services.lookup id).bind fun p => (s.heap p).map fun service => (p, service)

/-- Write to an object. -/
def store (s : Scheduler σ) (p : ℕ) (service : Service σ) : Scheduler σ :=
  { s with heap := Function.update s.heap p (some service) }

def record (s : Scheduler σ) (p : ℕ) (calls : List (Call σ)) : Scheduler σ :=
  { s with calls := s.calls ++ calls.map fun call => (p, call) }

def registerService (s : Scheduler σ) (id : ℤ) (operations : Operations σ) (scope : Str) :
    ℤ × Scheduler σ :=
  if id ≤ 0 ∨ s.services.lookup id ≠ none then (-1, s)
  else (0, { s with
    heap := Function.update s.heap s.next (some { operations, scope })
    next := s.next + 1
    services := s.services.insert id s.next
    serviceScope := s.serviceScope ++ [(scope, s.next)] })

/-- `operations.destroy()`, where there is one. -/
def callDestroy (s : Scheduler σ) (w : σ) (p : ℕ) (service : Service σ) : Scheduler σ × σ :=
  match service.operations.destroy with
  | none => (s, w)
  | some destroy => (s.record p [.destroyed destroy], destroy w)

/-- The body of the loop of `enable_service`. -/
def enableOne (sw : Scheduler σ × σ) (id : ℤ) : Scheduler σ × σ :=
  match sw.1.findService id with
  | none => sw
  | some (p, service) =>
    if service.status then sw
    else
      let s := (sw.1.store p { service with status := true }).record p
        [.enabling service.initEffect service.operations.destroy]
      match service.operations.init with
      | none => (s, sw.2)
      | some init =>
        let (result, w) := init service.ctx sw.2
        if result = -1 then
          let (s, w) := s.callDestroy w p service
          (s.store p { service with status := false }, w)
        else (s, w)

def enableService (sw : Scheduler σ × σ) (ids : List ℤ) : Scheduler σ × σ := ids.foldl enableOne sw

/-- The body of the loop of `disable_service`. -/
def disableOne (sw : Scheduler σ × σ) (id : ℤ) : Scheduler σ × σ :=
  match sw.1.findService id with
  | none => sw
  | some (p, service) =>
    if service.status then
      let (s, w) := sw.1.callDestroy sw.2 p service
      (s.store p { service with status := false }, w)
    else sw

def disableService (sw : Scheduler σ × σ) (ids : List ℤ) : Scheduler σ × σ :=
  ids.foldl disableOne sw

/-- The body of the loop of `unload_service`. -/
def unloadOne (s : Scheduler σ) (id : ℤ) : Scheduler σ :=
  match s.findService id with
  | none => s
  | some (p, service) => { s with
      serviceScope := s.serviceScope.erase (service.scope, p)
      heap := Function.update s.heap p none
      services := s.services.erase id }

def unloadService (sw : Scheduler σ × σ) (ids : List ℤ) : Scheduler σ × σ :=
  let (s, w) := disableService sw ids
  (ids.foldl unloadOne s, w)

/-- `Balance_Select_Service`; `rand` is the random number. -/
def balanceSelectService (s : Scheduler σ) (range : List (Str × ℕ)) (rand : ℕ) : Option ℕ :=
  let enabled := (range.map Prod.snd).filter fun p => (s.heap p).any fun service => service.status
  enabled[rand % enabled.length]?

def serviceChoose (s : Scheduler σ) (rand : ℕ) : Option ℕ :=
  match s.policy with
  | .Single => ((s.findService s.selectId).filter fun found => found.2.status).map Prod.fst
  | .LoadBalance =>
    match s.range with
    | .Specified =>
      s.balanceSelectService (s.serviceScope.filter fun entry => entry.1 = s.selectScope) rand
    | .All => s.balanceSelectService s.serviceScope rand

def strategyChoose (s : Scheduler σ) (policy : SchedulingPolicy) (selectId : ℤ)
    (range : ServiceRange) (scope : Str) (rand : ℕ) : Scheduler σ :=
  let s := { s with
    policy
    selectId := if policy = SchedulingPolicy.LoadBalance then -1 else selectId
    range
    selectScope := if range = ServiceRange.All then [] else scope }
  { s with currentService := s.serviceChoose rand }

def changeScope (s : Scheduler σ) (id : ℤ) (scope : Str) : Scheduler σ :=
  match s.findService id with
  | none => s
  | some (p, service) =>
    if (service.scope, p) ∈ s.serviceScope then
      { s.store p { service with scope } with
        serviceScope := s.serviceScope.erase (service.scope, p) ++ [(scope, p)] }
    else s

/-- `find_service(id)->set_operations(operations)` -/
def setOperations (s : Scheduler σ) (id : ℤ) (operations : Operations σ) : Scheduler σ :=
  match s.findService id with
  | none => s
  | some (p, service) => s.store p { service with operations }

/-- `find_service(id)->set_ctx(ctx)` -/
def setCtx (s : Scheduler σ) (id : ℤ) (ctx : ℕ) : Scheduler σ :=
  match s.findService id with
  | none => s
  | some (p, service) => s.store p { service with ctx }

/-- The body of the loop of `~Scheduler`. -/
def destroyOne (sw : Scheduler σ × σ) (p : ℕ) : Scheduler σ × σ :=
  match sw.1.heap p with
  | none => sw
  | some service =>
    let (s, w) := if service.status then sw.1.callDestroy sw.2 p service else sw
    ({ s with heap := Function.update s.heap p none }, w)

/-- `~Scheduler` -/
def destroyScheduler (sw : Scheduler σ × σ) : Scheduler σ × σ :=
  let (s, w) := (sw.1.services.entries.map Sigma.snd).foldl destroyOne
    ({ sw.1 with serviceScope := [] }, sw.2)
  ({ s with services := ∅ }, w)

/-! ## File operations -/

/-- The macro `operate`: the operation of the current service; none where that object is deleted. -/
def operate {α : Type} (s : Scheduler σ) (operator : Operations σ → Option (σ → α × σ))
    (failure : α) (w : σ) : Option (α × σ) :=
  match s.currentService with
  | none => some (failure, w)
  | some p => (s.heap p).map fun service =>
    match operator service.operations with
    | none => (failure, w)
    | some call => call w

def openFile (s : Scheduler σ) (filename : Str) (flags : Posix.OpenFlags) (mode : ℕ) :=
  s.operate (fun o => o.openFile.map fun f => f filename flags mode) (-1)

def close (s : Scheduler σ) (fd : ℤ) := s.operate (fun o => o.close.map fun f => f fd) (-1)

def write (s : Scheduler σ) (fd : ℤ) (buf : Str) :=
  s.operate (fun o => o.write.map fun f => f fd buf) (-1)

def read (s : Scheduler σ) (fd : ℤ) (count : ℕ) :=
  s.operate (fun o => o.read.map fun f => f fd count) (-1, [])

def seek (s : Scheduler σ) (fd offset whence : ℤ) :=
  s.operate (fun o => o.seek.map fun f => f fd offset whence) (-1)

def remove (s : Scheduler σ) (filepath : Str) :=
  s.operate (fun o => o.remove.map fun f => f filepath) (-1)

def opendir (s : Scheduler σ) (filepath : Str) (flags : Posix.OpenFlags) (mode : ℕ) :=
  s.operate (fun o => o.opendir.map fun f => f filepath flags mode) (-1)

def mkdir (s : Scheduler σ) (filepath : Str) (mode : ℕ) :=
  s.operate (fun o => o.mkdir.map fun f => f filepath mode) (-1)

def closedir (s : Scheduler σ) (fd : ℤ) := s.operate (fun o => o.closedir.map fun f => f fd) (-1)

def readdir (s : Scheduler σ) (filepath : Str) :=
  s.operate (fun o => o.readdir.map fun f => f filepath) (-1)

def rmdir (s : Scheduler σ) (filepath : Str) :=
  s.operate (fun o => o.rmdir.map fun f => f filepath) (-1)

def fsize (s : Scheduler σ) (fd : ℤ) := s.operate (fun o => o.fsize.map fun f => f fd) (-1)

def ftrun (s : Scheduler σ) (fd length : ℤ) :=
  s.operate (fun o => o.ftrun.map fun f => f fd length) (-1)

def fmod (s : Scheduler σ) (fd : ℤ) := s.operate (fun o => o.fmod.map fun f => f fd) (-1)

def fchmod (s : Scheduler σ) (fd : ℤ) (mode : ℕ) :=
  s.operate (fun o => o.fchmod.map fun f => f fd mode) (-1)

/-! ## Runs -/

end Scheduler

inductive Action (σ : Type)
  | registerService (id : ℤ) (operations : Operations σ) (scope : Str)
  | enableService (ids : List ℤ)
  | disableService (ids : List ℤ)
  | unloadService (ids : List ℤ)
  | strategyChoose (policy : SchedulingPolicy) (selectId : ℤ) (range : ServiceRange) (scope : Str)
      (rand : ℕ)
  | changeScope (id : ℤ) (scope : Str)
  | setOperations (id : ℤ) (operations : Operations σ)
  | setCtx (id : ℤ) (ctx : ℕ)

def step (sw : Scheduler σ × σ) : Action σ → Scheduler σ × σ
  | .registerService id operations scope => ((sw.1.registerService id operations scope).2, sw.2)
  | .enableService ids => Scheduler.enableService sw ids
  | .disableService ids => Scheduler.disableService sw ids
  | .unloadService ids => Scheduler.unloadService sw ids
  | .strategyChoose policy selectId range scope rand =>
    (sw.1.strategyChoose policy selectId range scope rand, sw.2)
  | .changeScope id scope => (sw.1.changeScope id scope, sw.2)
  | .setOperations id operations => (sw.1.setOperations id operations, sw.2)
  | .setCtx id ctx => (sw.1.setCtx id ctx, sw.2)

/-- The actions of a new scheduler, one after the other. -/
def runActions (w : σ) (actions : List (Action σ)) : Scheduler σ × σ := actions.foldl step ({}, w)

/-! ## What one step can do to a service -/

variable {s s' : Scheduler σ} {w w' : σ} {sw : Scheduler σ × σ} {id : ℤ} {ids : List ℤ} {p : ℕ}
  {service : Service σ}

theorem findService_eq_some :
    s.findService id = some (p, service) ↔
      s.services.lookup id = some p ∧ s.heap p = some service := by
  rw [Scheduler.findService, Option.bind_eq_some_iff]
  constructor
  · rintro ⟨q, hq, hmap⟩
    obtain ⟨service', hservice, heq⟩ := Option.map_eq_some_iff.mp hmap
    cases heq
    exact ⟨hq, hservice⟩
  · rintro ⟨hlookup, hheap⟩
    exact ⟨p, hlookup, by rw [hheap, Option.map_some]⟩

/-- The call that ends an enabling, where there is a `destroy`. -/
def closing (destroy : Option (σ → σ)) : List (Call σ) := (destroy.map Call.destroyed).toList

/-- An enabling with the call that ends it. -/
def attempt (callbacks : (σ → σ) × Option (σ → σ)) : List (Call σ) :=
  .enabling callbacks.1 callbacks.2 :: closing callbacks.2

/-- One object is written, and calls of it are recorded. -/
def Scheduler.change (s : Scheduler σ) (p : ℕ) (o : Option (Service σ)) (calls : List (Call σ)) :
    Scheduler σ :=
  { s with
    heap := Function.update s.heap p o
    calls := s.calls ++ calls.map fun call => (p, call) }

@[simp] theorem heap_change_self (s : Scheduler σ) (p : ℕ) (o : Option (Service σ))
    (calls : List (Call σ)) : (s.change p o calls).heap p = o := Function.update_self ..

theorem heap_change_ne (s : Scheduler σ) {p q : ℕ} (h : q ≠ p) (o : Option (Service σ))
    (calls : List (Call σ)) : (s.change p o calls).heap q = s.heap q := Function.update_of_ne h ..

theorem fst_callDestroy (s : Scheduler σ) (w : σ) (p : ℕ) (service : Service σ) :
    (s.callDestroy w p service).1 = s.record p (closing service.operations.destroy) := by
  rw [Scheduler.callDestroy]
  cases service.operations.destroy with
  | none => simp [Scheduler.record, closing]
  | some destroy => rfl

/-- **What enabling an id can do.** -/
theorem enableOne_cases (sw : Scheduler σ × σ) (id : ℤ) :
    (Scheduler.enableOne sw id).1 = sw.1 ∨ ∃ p service,
      sw.1.findService id = some (p, service) ∧ service.status = false ∧
        ((Scheduler.enableOne sw id).1 = sw.1.change p (some { service with status := true })
            [.enabling service.initEffect service.operations.destroy] ∨
          (Scheduler.enableOne sw id).1 = sw.1.change p (some { service with status := false })
            (attempt (service.initEffect, service.operations.destroy))) := by
  cases hfind : sw.1.findService id with
  | none =>
    left
    rw [Scheduler.enableOne, hfind]
  | some found =>
    obtain ⟨p, service⟩ := found
    cases hstatus : service.status with
    | true =>
      left
      simp only [Scheduler.enableOne, hfind, hstatus, if_true]
    | false =>
      refine .inr ⟨p, service, rfl, hstatus, ?_⟩
      simp only [Scheduler.enableOne, hfind, hstatus, Bool.false_eq_true, if_false]
      cases service.operations.init with
      | none => exact .inl rfl
      | some init =>
        dsimp only
        split_ifs
        · right
          simp only [fst_callDestroy, Scheduler.store, Scheduler.record, Scheduler.change,
            Function.update_idem, List.append_assoc, attempt, List.map_cons, List.map_nil,
            List.singleton_append]
        · exact .inl rfl

/-- **What disabling an id can do.** -/
theorem disableOne_cases (sw : Scheduler σ × σ) (id : ℤ) :
    ((Scheduler.disableOne sw id).1 = sw.1 ∧
      ∀ p service, sw.1.findService id = some (p, service) → service.status = false) ∨
    ∃ p service, sw.1.findService id = some (p, service) ∧ service.status = true ∧
      (Scheduler.disableOne sw id).1 = sw.1.change p (some { service with status := false })
        (closing service.operations.destroy) := by
  cases hfind : sw.1.findService id with
  | none =>
    refine .inl ⟨by rw [Scheduler.disableOne, hfind], fun p service h => ?_⟩
    cases h
  | some found =>
    obtain ⟨p, service⟩ := found
    cases hstatus : service.status with
    | true =>
      refine .inr ⟨p, service, rfl, hstatus, ?_⟩
      simp only [Scheduler.disableOne, hfind, hstatus, if_true, fst_callDestroy]
      rfl
    | false =>
      refine .inl ⟨by simp only [Scheduler.disableOne, hfind, hstatus]; rfl, fun q service' h => ?_⟩
      cases h
      exact hstatus

end Jxtd.Storage.Fs
