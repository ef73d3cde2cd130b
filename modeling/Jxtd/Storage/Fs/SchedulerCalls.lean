import Jxtd.Storage.Fs.SchedulerCurrent

/-!
# The calls of the scheduler

A service is enabled and its `destroy` is called in turns: the history of an object is a list of
enablings, each with the call that ends it, and one more that is still open while the service is
enabled.

* `callsOf`: the history of one object; `Pending`: what is open.
* `Paired`; `Paired.change`: one change of one object; **`Paired.step`**: one step.
* `Played`: the world is what the calls of the history have made of it; **`Played.step`**.
* **`paired_calls`**: runs ended by the destructor.
-/

namespace Jxtd.Storage.Fs

open Lib

variable {σ : Type} {s s' : Scheduler σ} {sw : Scheduler σ × σ} {id : ℤ} {ids : List ℤ} {p : ℕ}
  {service : Service σ} {o : Option (Service σ)} {calls : List (Call σ)}

/-- The history of one object. -/
def Scheduler.callsOf (s : Scheduler σ) (p : ℕ) : List (Call σ) :=
  (s.calls.filter fun entry => entry.1 = p).map Prod.snd

/-- The enabling that no call has ended yet. -/
def Pending : Option (Service σ) → List (Call σ) → Prop
  | none, calls => calls = []
  | some service, calls =>
    if service.status then ∃ init, calls = [.enabling init service.operations.destroy]
    else calls = []

/-- Every enabling of an object is ended before the next one, and only then. -/
def Paired (s : Scheduler σ) : Prop :=
  ∀ p, ∃ (attempts : List ((σ → σ) × Option (σ → σ))) (rest : List (Call σ)),
    s.callsOf p = attempts.flatMap attempt ++ rest ∧ Pending (s.heap p) rest

/-- `set_operations` is called for disabled services only. -/
def ReplacesDisabled (sw : Scheduler σ × σ) : Action σ → Prop
  | .setOperations id _ =>
    ∀ p service, sw.1.findService id = some (p, service) → service.status = false
  | _ => True

theorem pending_of_false (h : service.status = false) : Pending (some service) calls ↔ calls = [] := by
  simp [Pending, h]

theorem pending_of_true (h : service.status = true) :
    Pending (some service) calls ↔
      ∃ init, calls = [.enabling init service.operations.destroy] := by
  simp [Pending, h]

/-- The calls end what is open for the first object, and leave open what is for the second. -/
def Closes (o : Option (Service σ)) (calls : List (Call σ)) (o' : Option (Service σ)) : Prop :=
  ∀ rest, Pending o rest →
    ∃ (attempts : List ((σ → σ) × Option (σ → σ))) (rest' : List (Call σ)),
      rest ++ calls = attempts.flatMap attempt ++ rest' ∧ Pending o' rest'

/-- No call, and as much is open as before. -/
theorem closes_nil {o' : Option (Service σ)} (h : ∀ rest, Pending o rest → Pending o' rest) :
    Closes o [] o' := fun rest hrest => ⟨[], rest, by simp, h rest hrest⟩

/-- `destroy` is called for an enabled service. -/
theorem closes_closing (hstatus : service.status = true) (ho : Pending o []) :
    Closes (some service) (closing service.operations.destroy) o := by
  intro rest hrest
  obtain ⟨init, rfl⟩ := (pending_of_true hstatus).mp hrest
  exact ⟨[(init, service.operations.destroy)], [], by simp [attempt], ho⟩

theorem callsOf_change_self (s : Scheduler σ) (p : ℕ) (o : Option (Service σ))
    (calls : List (Call σ)) : (s.change p o calls).callsOf p = s.callsOf p ++ calls := by
  have hall : (calls.map fun call => (p, call)).filter (fun entry => entry.1 = p) =
      calls.map fun call => (p, call) := List.filter_eq_self.mpr (by simp)
  rw [Scheduler.callsOf, Scheduler.change, List.filter_append, hall, List.map_append,
    List.map_map, Scheduler.callsOf]
  simp [Function.comp_def]

theorem callsOf_change_ne (s : Scheduler σ) {p q : ℕ} (h : q ≠ p) (o : Option (Service σ))
    (calls : List (Call σ)) : (s.change p o calls).callsOf q = s.callsOf q := by
  rw [Scheduler.callsOf, Scheduler.change, List.filter_append, List.map_append, Scheduler.callsOf]
  simp [h.symm]

/-- **One change of one object** ends what is open, or opens what is not. -/
theorem Paired.change (h : Paired s)
    (hcalls : Closes (s.heap p) calls o) : Paired (s.change p o calls) := by
  intro q
  obtain ⟨before, rest, hbefore, hrest⟩ := h q
  by_cases hq : q = p
  · subst hq
    obtain ⟨attempts, rest', hattempts, hrest'⟩ := hcalls rest hrest
    refine ⟨before ++ attempts, rest', ?_, ?_⟩
    · rw [callsOf_change_self, hbefore, List.append_assoc, hattempts, List.flatMap_append,
        List.append_assoc]
    · rwa [heap_change_self]
  · refine ⟨before, rest, ?_, ?_⟩
    · rw [callsOf_change_ne s hq, hbefore]
    · rwa [heap_change_ne s hq]

/-- The history and the objects are all that counts. -/
theorem Paired.congr (h : Paired s) (hheap : s'.heap = s.heap) (hcalls : s'.calls = s.calls) :
    Paired s' := by
  intro p
  rw [Scheduler.callsOf, hheap, hcalls]
  exact h p

/-- Writing to an object what is as much enabled. -/
theorem Paired.store (h : Paired s) (hp : s.heap p = some service) {service' : Service σ}
    (hsame : ∀ rest, Pending (some service) rest → Pending (some service') rest) :
    Paired (s.store p service') := by
  have hchange : Paired (s.change p (some service') []) := by
    apply h.change
    rw [hp]
    exact closes_nil hsame
  exact hchange.congr rfl (List.append_nil _).symm

theorem Paired.enableOne (h : Paired sw.1) (id : ℤ) : Paired (Scheduler.enableOne sw id).1 := by
  obtain heq | ⟨p, service, hfind, hstatus, heq | heq⟩ := enableOne_cases sw id
  · rwa [heq]
  · rw [heq]
    refine h.change fun rest hrest => ⟨[], _, rfl, ?_⟩
    rw [(findService_eq_some.mp hfind).2, pending_of_false hstatus] at hrest
    rw [hrest, pending_of_true rfl]
    exact ⟨_, rfl⟩
  · rw [heq]
    refine h.change fun rest hrest =>
      ⟨[(service.initEffect, service.operations.destroy)], [], ?_, (pending_of_false rfl).mpr rfl⟩
    rw [(findService_eq_some.mp hfind).2, pending_of_false hstatus] at hrest
    simp [hrest]

theorem Paired.disableOne (h : Paired sw.1) (id : ℤ) : Paired (Scheduler.disableOne sw id).1 := by
  obtain ⟨heq, -⟩ | ⟨p, service, hfind, hstatus, heq⟩ := disableOne_cases sw id
  · rwa [heq]
  · rw [heq]
    apply h.change
    rw [(findService_eq_some.mp hfind).2]
    exact closes_closing hstatus ((pending_of_false rfl).mpr rfl)

theorem Paired.disableService (h : Paired sw.1) (ids : List ℤ) :
    Paired (Scheduler.disableService sw ids).1 :=
  List.foldlRecOn (motive := fun sw : Scheduler σ × σ => Paired sw.1)
    ids _ h fun _ h id _ => h.disableOne id

/-- Unloading services that are off. -/
theorem Paired.unloadOnes (h : Paired s)
    (hoff : ∀ id ∈ ids, ∀ p, s.services.lookup id = some p → Off s p) :
    Paired (ids.foldl Scheduler.unloadOne s) := by
  induction ids generalizing s with
  | nil => exact h
  | cons id ids ih =>
    rw [List.foldl_cons]
    cases hfind : s.findService id with
    | none =>
      have heq : s.unloadOne id = s := by rw [Scheduler.unloadOne, hfind]
      rw [heq]
      exact ih h fun id' hid' => hoff id' (List.mem_cons_of_mem _ hid')
    | some found =>
      obtain ⟨p, service⟩ := found
      obtain ⟨hid, hp⟩ := findService_eq_some.mp hfind
      have hstatus := hoff id List.mem_cons_self p hid service hp
      have hheap : (s.unloadOne id).heap = (s.change p none []).heap := by
        rw [Scheduler.unloadOne, hfind]
        rfl
      have hcalls : (s.unloadOne id).calls = (s.change p none []).calls := by
        rw [Scheduler.unloadOne, hfind]
        exact (List.append_nil _).symm
      have hservices : (s.unloadOne id).services = s.services.erase id := by
        rw [Scheduler.unloadOne, hfind]
      refine ih ?_ fun id' hid' q hq => ?_
      · have hchange : Paired (s.change p none []) := by
          apply h.change
          rw [hp]
          exact closes_nil fun _ => (pending_of_false hstatus).mp
        exact hchange.congr hheap hcalls
      · rw [hservices] at hq
        have hne : id' ≠ id := by
          rintro rfl
          rw [AList.lookup_erase] at hq
          cases hq
        rw [AList.lookup_erase_ne hne] at hq
        exact (hoff id' (List.mem_cons_of_mem _ hid') q hq).unloadOne id

/-- **Every step keeps the pairs.** -/
theorem Paired.step (h : Paired sw.1) (hs : Indexed sw.1) {action : Action σ}
    (hguard : ReplacesDisabled sw action) : Paired (step sw action).1 := by
  cases action with
  | registerService id operations scope =>
    show Paired (sw.1.registerService id operations scope).2
    rw [Scheduler.registerService]
    split_ifs with hid
    · exact h
    have hnone : sw.1.heap sw.1.next = none := by
      by_contra hne
      exact absurd (hs.fresh _ hne) (lt_irrefl _)
    have hchange : Paired (sw.1.change sw.1.next (some { operations, scope }) []) := by
      apply h.change
      rw [hnone]
      exact closes_nil fun _ => (pending_of_false rfl).mpr
    exact hchange.congr rfl (List.append_nil _).symm
  | enableService ids =>
    exact List.foldlRecOn (motive := fun sw : Scheduler σ × σ => Paired sw.1)
      ids _ h fun _ h id _ => h.enableOne id
  | disableService ids => exact h.disableService ids
  | unloadService ids =>
    refine (h.disableService ids).unloadOnes fun id hid p hp => ?_
    rw [(sameIndex_disableService sw ids).services] at hp
    exact off_disableService hid hp
  | strategyChoose policy selectId range scope rand => exact h.congr rfl rfl
  | changeScope id scope =>
    show Paired (sw.1.changeScope id scope)
    rw [Scheduler.changeScope]
    cases hfind : sw.1.findService id with
    | none => exact h
    | some found =>
      dsimp only
      split_ifs
      · have hstore : Paired (sw.1.store found.1 { found.2 with scope }) :=
          h.store (findService_eq_some.mp hfind).2 fun _ hrest => hrest
        exact hstore.congr rfl rfl
      · exact h
  | setOperations id operations =>
    show Paired (sw.1.setOperations id operations)
    rw [Scheduler.setOperations]
    cases hfind : sw.1.findService id with
    | none => exact h
    | some found =>
      have hstatus := hguard found.1 found.2 hfind
      refine h.store (findService_eq_some.mp hfind).2 fun rest hrest => ?_
      rw [pending_of_false hstatus] at hrest
      rwa [pending_of_false (by exact hstatus)]
  | setCtx id ctx =>
    show Paired (sw.1.setCtx id ctx)
    rw [Scheduler.setCtx]
    cases hfind : sw.1.findService id with
    | none => exact h
    | some found => exact h.store (findService_eq_some.mp hfind).2 fun _ hrest => hrest

/-! ## The destructor -/

theorem destroyOne_cases (sw : Scheduler σ × σ) (p : ℕ) :
    ∃ calls, (Scheduler.destroyOne sw p).1 = sw.1.change p none calls ∧
      Closes (sw.1.heap p) calls none := by
  cases hp : sw.1.heap p with
  | none =>
    refine ⟨[], ?_, closes_nil fun _ hrest => hrest⟩
    rw [Scheduler.destroyOne, hp]
    have hheap : Function.update sw.1.heap p none = sw.1.heap := by
      rw [← hp, Function.update_eq_self]
    simp [Scheduler.change, hheap]
  | some service =>
    cases hstatus : service.status with
    | true =>
      refine ⟨closing service.operations.destroy, ?_, closes_closing hstatus rfl⟩
      simp only [Scheduler.destroyOne, hp, hstatus, if_true, fst_callDestroy]
      rfl
    | false =>
      refine ⟨[], ?_, closes_nil fun _ => (pending_of_false hstatus).mp⟩
      simp [Scheduler.destroyOne, hp, hstatus, Scheduler.change]

theorem destroyAll (sw : Scheduler σ × σ) (h : Paired sw.1) (ps : List ℕ) :
    Paired (ps.foldl Scheduler.destroyOne sw).1 ∧
      ∀ p, (p ∈ ps ∨ sw.1.heap p = none) → (ps.foldl Scheduler.destroyOne sw).1.heap p = none := by
  induction ps generalizing sw with
  | nil => exact ⟨h, fun p hp => hp.resolve_left List.not_mem_nil⟩
  | cons q ps ih =>
    obtain ⟨calls, heq, hcalls⟩ := destroyOne_cases sw q
    have hq : Paired (Scheduler.destroyOne sw q).1 := by
      rw [heq]
      exact h.change hcalls
    obtain ⟨hpaired, hnone⟩ := ih _ hq
    refine ⟨hpaired, fun p hp => hnone p ?_⟩
    by_cases hpq : p = q
    · rw [heq, hpq]
      exact .inr (heap_change_self ..)
    · rw [heq, heap_change_ne _ hpq]
      exact hp.imp_left fun hp => (List.mem_cons.mp hp).resolve_left hpq

/-! ## The world -/

/-- The world is what the callbacks of the history have made of `w`, one after the other. -/
def Played (w : σ) (sw : Scheduler σ × σ) : Prop :=
  sw.2 = (sw.1.calls.map fun entry => entry.2.effect).foldl (fun w effect => effect w) w

variable {w w' : σ}

theorem Played.congr (h : Played w (s, w')) (hcalls : s'.calls = s.calls) : Played w (s', w') := by
  rw [Played, hcalls]
  exact h

theorem Played.record (h : Played w (s, w')) (p : ℕ) (calls : List (Call σ)) :
    Played w (s.record p calls, calls.foldl (fun w call => call.effect w) w') := by
  rw [Played, Scheduler.record, List.map_append, List.map_map, List.foldl_append, ← h, List.foldl_map]
  rfl

/-- `destroy` acts on the world once. -/
theorem Played.callDestroy (h : Played w (s, w')) (p : ℕ) (service : Service σ) :
    Played w (s.callDestroy w' p service) := by
  rw [Scheduler.callDestroy]
  cases service.operations.destroy with
  | none => exact h
  | some destroy => exact h.record p [.destroyed destroy]

theorem Played.enableOne (h : Played w sw) (id : ℤ) : Played w (Scheduler.enableOne sw id) := by
  rw [Scheduler.enableOne]
  cases sw.1.findService id with
  | none => exact h
  | some found =>
    obtain ⟨p, service⟩ := found
    have hstore : Played w (sw.1.store p { service with status := true }, sw.2) := h.congr rfl
    have hinit := hstore.record p [.enabling service.initEffect service.operations.destroy]
    dsimp only
    split_ifs
    · exact h
    cases hop : service.operations.init with
    | none =>
      have heffect : service.initEffect sw.2 = sw.2 := by rw [Service.initEffect, hop]
      rw [List.foldl_cons, List.foldl_nil, Call.effect, heffect] at hinit
      exact hinit
    | some init =>
      have heffect : service.initEffect sw.2 = (init service.ctx sw.2).2 := by
        rw [Service.initEffect, hop]
      rw [List.foldl_cons, List.foldl_nil, Call.effect, heffect] at hinit
      dsimp only
      split_ifs
      · exact (hinit.callDestroy p service).congr rfl
      · exact hinit

theorem Played.disableOne (h : Played w sw) (id : ℤ) : Played w (Scheduler.disableOne sw id) := by
  rw [Scheduler.disableOne]
  cases sw.1.findService id with
  | none => exact h
  | some found =>
    obtain ⟨p, service⟩ := found
    dsimp only
    split_ifs
    · exact (h.callDestroy p service).congr rfl
    · exact h

theorem Played.disableService (h : Played w sw) (ids : List ℤ) :
    Played w (Scheduler.disableService sw ids) :=
  List.foldlRecOn (motive := fun sw => Played w sw) ids _ h fun _ h id _ => h.disableOne id

theorem calls_unloadOnes (s : Scheduler σ) (ids : List ℤ) :
    (ids.foldl Scheduler.unloadOne s).calls = s.calls := by
  refine List.foldlRecOn (motive := fun s' : Scheduler σ => s'.calls = s.calls) ids _ rfl
    fun s' h id _ => ?_
  rw [← h, Scheduler.unloadOne]
  cases s'.findService id <;> rfl

/-- **Every step acts on the world by the callbacks it records**, and by no others. -/
theorem Played.step (h : Played w sw) (action : Action σ) : Played w (step sw action) := by
  cases action with
  | registerService id operations scope =>
    refine h.congr ?_
    rw [Scheduler.registerService]
    split_ifs <;> rfl
  | enableService ids =>
    exact List.foldlRecOn (motive := fun sw => Played w sw) ids _ h fun _ h id _ => h.enableOne id
  | disableService ids => exact h.disableService ids
  | unloadService ids => exact (h.disableService ids).congr (calls_unloadOnes _ ids)
  | strategyChoose policy selectId range scope rand => exact h.congr rfl
  | changeScope id scope =>
    refine h.congr ?_
    rw [Scheduler.changeScope]
    cases sw.1.findService id with
    | none => rfl
    | some found => dsimp only; split_ifs <;> rfl
  | setOperations id operations =>
    refine h.congr ?_
    rw [Scheduler.setOperations]
    cases sw.1.findService id <;> rfl
  | setCtx id ctx =>
    refine h.congr ?_
    rw [Scheduler.setCtx]
    cases sw.1.findService id <;> rfl

theorem Played.destroyOne (h : Played w sw) (p : ℕ) : Played w (Scheduler.destroyOne sw p) := by
  rw [Scheduler.destroyOne]
  cases sw.1.heap p with
  | none => exact h
  | some service =>
    dsimp only
    split_ifs
    · exact (h.callDestroy p service).congr rfl
    · exact h.congr rfl

theorem Played.destroyScheduler (h : Played w sw) : Played w (Scheduler.destroyScheduler sw) := by
  have hstart : Played w ({ sw.1 with serviceScope := [] }, sw.2) := h.congr rfl
  have hdestroyed := List.foldlRecOn (motive := fun sw => Played w sw)
    (sw.1.services.entries.map Sigma.snd) _ hstart fun _ h p _ => h.destroyOne p
  exact hdestroyed.congr rfl

/-! ## Runs -/

/-- **Every enabling is ended by one call of `destroy`**, in a run that the destructor ends, and the
world is what these calls and those of `init` make of it. -/
theorem paired_calls (w : σ) (actions : List (Action σ))
    (h : Along ReplacesDisabled step ({}, w) actions) :
    (∀ p, ∃ attempts : List ((σ → σ) × Option (σ → σ)),
      (Scheduler.destroyScheduler (runActions w actions)).1.callsOf p =
        attempts.flatMap attempt) ∧
    (Scheduler.destroyScheduler (runActions w actions)).2 =
      ((Scheduler.destroyScheduler (runActions w actions)).1.calls.map fun entry =>
        entry.2.effect).foldl (fun w effect => effect w) w := by
  refine ⟨fun p => ?_, ?_⟩
  · have hpaired : Paired (runActions w actions).1 := by
      induction actions using List.reverseRecOn with
      | nil => exact fun p => ⟨[], [], rfl, rfl⟩
      | append_singleton actions action ih =>
        rw [along_append] at h
        rw [runActions, List.foldl_concat]
        exact (ih h.1).step (indexed_foldl indexed_empty actions) h.2.1
    have hindexed : Indexed (runActions w actions).1 := indexed_foldl indexed_empty actions
    have hstart : Paired { (runActions w actions).1 with serviceScope := [] } :=
      hpaired.congr rfl rfl
    have hdestroyed := destroyAll (_, (runActions w actions).2) hstart
      ((runActions w actions).1.services.entries.map Sigma.snd)
    obtain ⟨attempts, rest, hattempts, hrest⟩ := hdestroyed.1 p
    -- an object that is left has an id, so the destructor has reached it
    have hnone : (((runActions w actions).1.services.entries.map Sigma.snd).foldl
        Scheduler.destroyOne ({ (runActions w actions).1 with serviceScope := [] },
          (runActions w actions).2)).1.heap p = none := by
      refine hdestroyed.2 p ?_
      by_cases hp : (runActions w actions).1.heap p = none
      · exact .inr hp
      · obtain ⟨id, hid⟩ := hindexed.owned p hp
        exact .inl (List.mem_map.mpr ⟨⟨id, p⟩, AList.mem_lookup_iff.mp hid, rfl⟩)
    rw [hnone] at hrest
    refine ⟨attempts, hattempts.trans ?_⟩
    rw [show rest = [] from hrest, List.append_nil]
  · have hplayed : Played w (runActions w actions) :=
      List.foldlRecOn (motive := fun sw => Played w sw) actions _ rfl fun _ h action _ =>
        h.step action
    exact hplayed.destroyScheduler

/-- A device that counts its openings and its closings, and fails to open a third time. -/
def device : Operations (ℕ × ℕ) where
  init := some fun _ w => (if 2 ≤ w.1 then -1 else 0, (w.1 + 1, w.2))
  destroy := some fun w => (w.1, w.2 + 1)

/-- Two services of the device. The third opening fails and is closed at once, and the destructor
closes the second. -/
def deviceActions : List (Action (ℕ × ℕ)) :=
  [.registerService 1 {} [], .setOperations 1 device, .registerService 2 device [],
    .enableService [1, 1, 7], .disableService [1], .enableService [2, 1]]

theorem paired_calls_device :
    ((∀ p, ∃ attempts : List ((ℕ × ℕ → ℕ × ℕ) × Option (ℕ × ℕ → ℕ × ℕ)),
      (Scheduler.destroyScheduler (runActions (0, 0) deviceActions)).1.callsOf p =
        attempts.flatMap attempt) ∧
    (Scheduler.destroyScheduler (runActions (0, 0) deviceActions)).2 =
      ((Scheduler.destroyScheduler (runActions (0, 0) deviceActions)).1.calls.map fun entry =>
        entry.2.effect).foldl (fun w effect => effect w) (0, 0)) ∧
    (Scheduler.destroyScheduler (runActions (0, 0) deviceActions)).2 = (3, 3) := by
  refine ⟨paired_calls (0, 0) deviceActions ⟨trivial, ?_, trivial, trivial, trivial, trivial, trivial⟩,
    by decide⟩
  intro p service hfind
  cases hfind
  rfl

end Jxtd.Storage.Fs
