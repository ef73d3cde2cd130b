import Jxtd.Storage.Fs.SchedulerIndexes

/-!
# The current service of the scheduler

`strategy_choose` sets the pointer that file operations go through; `disable_service` and
`unload_service` do not look at it.

* `CurrentEnabled`, `SparesCurrent`; `operate_enabled`: where file operations then go.
* **`CurrentEnabled.step`**, **`not_currentEnabled_step`**: one step, both ways.
* **`current_enabled_iff`**: runs.
-/

namespace Jxtd.Storage.Fs

open Lib

variable {σ : Type} {s s' : Scheduler σ} {sw : Scheduler σ × σ} {id : ℤ} {ids : List ℤ} {p : ℕ}
  {service : Service σ}

/-! ## The current service -/

/-- A service that is registered and enabled. -/
def Enabled (s : Scheduler σ) (p : ℕ) : Prop :=
  ∃ id service, s.services.lookup id = some p ∧ s.heap p = some service ∧ service.status = true

/-- A service that is disabled or deleted. -/
def Off (s : Scheduler σ) (p : ℕ) : Prop :=
  ∀ service, s.heap p = some service → service.status = false

/-- The current service is null, or registered and enabled. -/
def CurrentEnabled (s : Scheduler σ) : Prop := ∀ p, s.currentService = some p → Enabled s p

/-- Neither `disable_service` nor `unload_service` names the current service. -/
def SparesCurrent (sw : Scheduler σ × σ) : Action σ → Prop
  | .disableService ids | .unloadService ids =>
    ∀ id ∈ ids, ∀ p, sw.1.services.lookup id = some p → sw.1.currentService ≠ some p
  | _ => True

theorem Off.not_enabled (h : Off s p) : ¬ Enabled s p := by
  rintro ⟨-, service, -, hservice, hstatus⟩
  rw [h service hservice] at hstatus
  cases hstatus

/-- A file operation goes to a service that is registered and enabled. -/
theorem operate_enabled (h : CurrentEnabled s) {α : Type}
    (operator : Operations σ → Option (σ → α × σ)) (failure : α) (w : σ) :
    s.operate operator failure w = some (failure, w) ∨ ∃ p service call,
      Enabled s p ∧ s.heap p = some service ∧ operator service.operations = some call ∧
        s.operate operator failure w = some (call w) := by
  rw [Scheduler.operate]
  cases hcurrent : s.currentService with
  | none => exact .inl rfl
  | some p =>
    obtain ⟨id, service, hid, hservice, hstatus⟩ := h p hcurrent
    dsimp only
    rw [hservice, Option.map_some]
    cases hcall : operator service.operations with
    | none => exact .inl rfl
    | some call =>
      exact .inr ⟨p, service, call, ⟨id, service, hid, hservice, hstatus⟩, hservice, hcall, rfl⟩

/-- What another object's change leaves enabled. -/
theorem Enabled.change (h : Enabled s p) {q : ℕ} (hq : q ≠ p) (o : Option (Service σ))
    (calls : List (Call σ)) : Enabled (s.change q o calls) p := by
  obtain ⟨id, service, hid, hservice, hstatus⟩ := h
  exact ⟨id, service, hid, by rw [heap_change_ne s hq.symm, hservice], hstatus⟩

theorem Enabled.enableOne (h : Enabled sw.1 p) (id : ℤ) :
    Enabled (Scheduler.enableOne sw id).1 p := by
  have hne {q : ℕ} {service : Service σ} (hfind : sw.1.findService id = some (q, service))
      (hstatus : service.status = false) : q ≠ p := by
    rintro rfl
    refine Off.not_enabled (fun service' hservice' => ?_) h
    rw [(findService_eq_some.mp hfind).2] at hservice'
    rwa [← Option.some_inj.mp hservice']
  obtain heq | ⟨q, service, hfind, hstatus, heq | heq⟩ := enableOne_cases sw id
  · rwa [heq]
  · rw [heq]
    exact h.change (hne hfind hstatus) _ _
  · rw [heq]
    exact h.change (hne hfind hstatus) _ _

theorem Enabled.disableOne (h : Enabled sw.1 p) (hid : sw.1.services.lookup id ≠ some p) :
    Enabled (Scheduler.disableOne sw id).1 p := by
  obtain ⟨heq, -⟩ | ⟨q, service, hfind, -, heq⟩ := disableOne_cases sw id
  · rwa [heq]
  · rw [heq]
    refine h.change ?_ _ _
    rintro rfl
    exact hid (findService_eq_some.mp hfind).1

theorem Enabled.disableService (h : Enabled sw.1 p)
    (hids : ∀ id ∈ ids, sw.1.services.lookup id ≠ some p) :
    Enabled (Scheduler.disableService sw ids).1 p := by
  induction ids generalizing sw with
  | nil => exact h
  | cons id ids ih =>
    refine ih (h.disableOne (hids id List.mem_cons_self)) fun id' hid' => ?_
    rw [(sameIndex_disableOne sw id).services]
    exact hids id' (List.mem_cons_of_mem _ hid')

theorem Enabled.unloadOnes (h : Enabled s p) (hids : ∀ id ∈ ids, s.services.lookup id ≠ some p) :
    Enabled (ids.foldl Scheduler.unloadOne s) p := by
  induction ids generalizing s with
  | nil => exact h
  | cons id ids ih =>
    have hid := hids id List.mem_cons_self
    have hrest := fun id' hid' => hids id' (List.mem_cons_of_mem id hid')
    rw [List.foldl_cons]
    cases hfind : s.findService id with
    | none =>
      have heq : s.unloadOne id = s := by rw [Scheduler.unloadOne, hfind]
      rw [heq]
      exact ih h hrest
    | some found =>
      obtain ⟨q, service⟩ := found
      have hq := (findService_eq_some.mp hfind).1
      have hheap : (s.unloadOne id).heap = Function.update s.heap q none := by
        rw [Scheduler.unloadOne, hfind]
      have hservices : (s.unloadOne id).services = s.services.erase id := by
        rw [Scheduler.unloadOne, hfind]
      refine ih ?_ fun id' hid' => ?_
      · obtain ⟨id₀, service₀, hid₀, hservice₀, hstatus⟩ := h
        have hne : id₀ ≠ id := by
          rintro rfl
          exact hid hid₀
        have hpq : p ≠ q := by
          rintro rfl
          exact hid hq
        refine ⟨id₀, service₀, ?_, ?_, hstatus⟩
        · rw [hservices, AList.lookup_erase_ne hne, hid₀]
        · rw [hheap, Function.update_of_ne hpq, hservice₀]
      · rw [hservices]
        by_cases hne : id' = id
        · subst hne
          rw [AList.lookup_erase]
          exact (Option.some_ne_none p).symm
        · rw [AList.lookup_erase_ne hne]
          exact hrest id' hid'

/-- Writing to an object does not touch its status. -/
theorem Enabled.store (h : Enabled s p) {q : ℕ} (hq : s.heap q = some service)
    {service' : Service σ} (hstatus : service'.status = service.status) :
    Enabled (s.store q service') p := by
  obtain ⟨id, service₀, hid, hservice₀, hstatus₀⟩ := h
  by_cases hpq : p = q
  · subst hpq
    obtain rfl : service = service₀ := by
      rw [hservice₀] at hq
      exact (Option.some_inj.mp hq).symm
    exact ⟨id, service', hid, Function.update_self .., hstatus.trans hstatus₀⟩
  · refine ⟨id, service₀, hid, ?_, hstatus₀⟩
    show Function.update s.heap q (some service') p = some service₀
    rw [Function.update_of_ne hpq, hservice₀]

theorem Enabled.registerService (hs : Indexed s) (h : Enabled s p) (id : ℤ)
    (operations : Operations σ) (scope : Str) :
    Enabled (s.registerService id operations scope).2 p := by
  rw [Scheduler.registerService]
  split_ifs with hid
  · exact h
  obtain ⟨id₀, service₀, hid₀, hservice₀, hstatus⟩ := h
  have hnext : p ≠ s.next := by
    have hlt := hs.fresh p (by rw [hservice₀]; exact Option.some_ne_none _)
    omega
  have hne : id₀ ≠ id := by
    rintro rfl
    exact hid (.inr (by rw [hid₀]; exact Option.some_ne_none _))
  refine ⟨id₀, service₀, ?_, ?_, hstatus⟩
  · show (s.services.insert id s.next).lookup id₀ = some p
    rw [AList.lookup_insert_ne hne, hid₀]
  · show Function.update s.heap s.next _ p = some service₀
    rw [Function.update_of_ne hnext, hservice₀]

/-! ### Which steps write the pointer -/

theorem currentService_change (s : Scheduler σ) (p : ℕ) (o : Option (Service σ))
    (calls : List (Call σ)) : (s.change p o calls).currentService = s.currentService := rfl

theorem currentService_enableOne (sw : Scheduler σ × σ) (id : ℤ) :
    (Scheduler.enableOne sw id).1.currentService = sw.1.currentService := by
  obtain h | ⟨p, service, -, -, h | h⟩ := enableOne_cases sw id
  · rw [h]
  · rw [h, currentService_change]
  · rw [h, currentService_change]

theorem currentService_disableOne (sw : Scheduler σ × σ) (id : ℤ) :
    (Scheduler.disableOne sw id).1.currentService = sw.1.currentService := by
  obtain ⟨h, -⟩ | ⟨p, service, -, -, h⟩ := disableOne_cases sw id
  · rw [h]
  · rw [h, currentService_change]

theorem currentService_unloadOne (s : Scheduler σ) (id : ℤ) :
    (s.unloadOne id).currentService = s.currentService := by
  rw [Scheduler.unloadOne]
  cases s.findService id with
  | none => rfl
  | some found => rfl

theorem currentService_disableService (sw : Scheduler σ × σ) (ids : List ℤ) :
    (Scheduler.disableService sw ids).1.currentService = sw.1.currentService :=
  List.foldlRecOn
      (motive := fun sw' : Scheduler σ × σ => sw'.1.currentService = sw.1.currentService)
      ids _ rfl fun _ h _ _ => (currentService_disableOne _ _).trans h

theorem currentService_unloadService (sw : Scheduler σ × σ) (ids : List ℤ) :
    (Scheduler.unloadService sw ids).1.currentService = sw.1.currentService :=
  List.foldlRecOn (motive := fun s : Scheduler σ => s.currentService = sw.1.currentService)
      ids _ (currentService_disableService sw ids) fun _ h _ _ =>
        (currentService_unloadOne _ _).trans h

/-- Only a strategy writes the pointer. -/
theorem currentService_step (sw : Scheduler σ × σ) {action : Action σ}
    (h : ∀ policy selectId range scope rand,
      action ≠ .strategyChoose policy selectId range scope rand) :
    (step sw action).1.currentService = sw.1.currentService := by
  cases action with
  | registerService id operations scope =>
    show (sw.1.registerService id operations scope).2.currentService = _
    rw [Scheduler.registerService]
    split_ifs <;> rfl
  | enableService ids =>
    exact List.foldlRecOn
      (motive := fun sw' : Scheduler σ × σ => sw'.1.currentService = sw.1.currentService)
      ids _ rfl fun _ h _ _ => (currentService_enableOne _ _).trans h
  | disableService ids => exact currentService_disableService sw ids
  | unloadService ids => exact currentService_unloadService sw ids
  | strategyChoose policy selectId range scope rand => exact absurd rfl (h _ _ _ _ _)
  | changeScope id scope =>
    show (sw.1.changeScope id scope).currentService = _
    rw [Scheduler.changeScope]
    cases sw.1.findService id with
    | none => rfl
    | some found =>
      dsimp only
      split_ifs <;> rfl
  | setOperations id operations =>
    show (sw.1.setOperations id operations).currentService = _
    rw [Scheduler.setOperations]
    cases sw.1.findService id with
    | none => rfl
    | some found => rfl
  | setCtx id ctx =>
    show (sw.1.setCtx id ctx).currentService = _
    rw [Scheduler.setCtx]
    cases sw.1.findService id with
    | none => rfl
    | some found => rfl

/-- **A step that spares the current service leaves it enabled.** -/
theorem CurrentEnabled.step (h : CurrentEnabled sw.1) (hs : Indexed sw.1) {action : Action σ}
    (hspares : SparesCurrent sw action) : CurrentEnabled (step sw action).1 := by
  have hids {ids : List ℤ} {p : ℕ} (hcurrent : sw.1.currentService = some p)
      (hspares : ∀ id ∈ ids, ∀ p, sw.1.services.lookup id = some p →
        sw.1.currentService ≠ some p) : ∀ id ∈ ids, sw.1.services.lookup id ≠ some p :=
    fun id hid hlookup => hspares id hid p hlookup hcurrent
  intro p hp
  cases action with
  | strategyChoose policy selectId range scope rand =>
    obtain ⟨id, service, hid, hservice, hstatus, -⟩ :=
      (strategyChoose_selects hs policy selectId range scope rand).1 p hp
    exact ⟨id, service, hid, hservice, hstatus⟩
  | registerService id operations scope =>
    rw [currentService_step sw (by simp)] at hp
    exact (h p hp).registerService hs id operations scope
  | enableService ids =>
    rw [currentService_step sw (by simp)] at hp
    exact List.foldlRecOn (motive := fun sw' : Scheduler σ × σ => Enabled sw'.1 p)
      ids _ (h p hp) fun _ hp id _ => hp.enableOne id
  | disableService ids =>
    rw [currentService_step sw (by simp)] at hp
    exact (h p hp).disableService (hids hp hspares)
  | unloadService ids =>
    rw [currentService_step sw (by simp)] at hp
    refine ((h p hp).disableService (hids hp hspares)).unloadOnes fun id hid => ?_
    rw [(sameIndex_disableService sw ids).services]
    exact hids hp hspares id hid
  | changeScope id scope =>
    rw [currentService_step sw (by simp)] at hp
    show Enabled (sw.1.changeScope id scope) p
    rw [Scheduler.changeScope]
    cases hfind : sw.1.findService id with
    | none => exact h p hp
    | some found =>
      dsimp only
      split_ifs
      · exact (h p hp).store (findService_eq_some.mp hfind).2 (by rfl)
      · exact h p hp
  | setOperations id operations =>
    rw [currentService_step sw (by simp)] at hp
    show Enabled (sw.1.setOperations id operations) p
    rw [Scheduler.setOperations]
    cases hfind : sw.1.findService id with
    | none => exact h p hp
    | some found => exact (h p hp).store (findService_eq_some.mp hfind).2 (by rfl)
  | setCtx id ctx =>
    rw [currentService_step sw (by simp)] at hp
    show Enabled (sw.1.setCtx id ctx) p
    rw [Scheduler.setCtx]
    cases hfind : sw.1.findService id with
    | none => exact h p hp
    | some found => exact (h p hp).store (findService_eq_some.mp hfind).2 (by rfl)

/-! ### Steps that take the current service away -/

theorem Off.disableOne (h : Off sw.1 p) (id : ℤ) : Off (Scheduler.disableOne sw id).1 p := by
  obtain ⟨heq, -⟩ | ⟨q, service, hfind, -, heq⟩ := disableOne_cases sw id
  · rwa [heq]
  · rw [heq]
    intro service' hservice'
    by_cases hpq : p = q
    · subst hpq
      rw [heap_change_self] at hservice'
      rw [← Option.some_inj.mp hservice']
    · rw [heap_change_ne _ hpq] at hservice'
      exact h service' hservice'

/-- A service that is named is off afterwards. -/
theorem off_disableOne (hid : sw.1.services.lookup id = some p) :
    Off (Scheduler.disableOne sw id).1 p := by
  obtain ⟨heq, hoff⟩ | ⟨q, service, hfind, -, heq⟩ := disableOne_cases sw id
  · rw [heq]
    exact fun service hservice => hoff p service (findService_eq_some.mpr ⟨hid, hservice⟩)
  · obtain rfl : q = p := by
      rw [(findService_eq_some.mp hfind).1] at hid
      exact Option.some_inj.mp hid
    rw [heq]
    intro service' hservice'
    rw [heap_change_self] at hservice'
    rw [← Option.some_inj.mp hservice']

theorem off_disableService (hmem : id ∈ ids) (hid : sw.1.services.lookup id = some p) :
    Off (Scheduler.disableService sw ids).1 p := by
  induction ids generalizing sw with
  | nil => cases hmem
  | cons id' ids ih =>
    rcases List.mem_cons.mp hmem with rfl | hmem
    · exact List.foldlRecOn (motive := fun sw' : Scheduler σ × σ => Off sw'.1 p)
        ids _ (off_disableOne hid) fun _ h id _ => h.disableOne id
    · refine ih hmem ?_
      rwa [(sameIndex_disableOne sw id').services]

theorem Off.unloadOne (h : Off s p) (id : ℤ) : Off (s.unloadOne id) p := by
  rw [Scheduler.unloadOne]
  cases hfind : s.findService id with
  | none => exact h
  | some found =>
    intro service hservice
    have hheap : Function.update s.heap found.1 none p = some service := hservice
    by_cases hpq : p = found.1
    · rw [hpq, Function.update_self] at hheap
      cases hheap
    · rw [Function.update_of_ne hpq] at hheap
      exact h service hheap

/-- **A step that does not spare the current service leaves the pointer to it.** -/
theorem not_currentEnabled_step {action : Action σ} (h : ¬ SparesCurrent sw action) :
    ¬ CurrentEnabled (step sw action).1 := by
  have hnamed {ids : List ℤ} (hn : ¬ ∀ id ∈ ids, ∀ p, sw.1.services.lookup id = some p →
      sw.1.currentService ≠ some p) :
      ∃ p, Off (Scheduler.disableService sw ids).1 p ∧ sw.1.currentService = some p := by
    push Not at hn
    obtain ⟨id, hmem, p, hid, hcurrent⟩ := hn
    exact ⟨p, off_disableService hmem hid, hcurrent⟩
  intro hall
  cases action with
  | disableService ids =>
    obtain ⟨p, hoff, hcurrent⟩ := hnamed h
    exact hoff.not_enabled (hall p ((currentService_disableService sw ids).trans hcurrent))
  | unloadService ids =>
    obtain ⟨p, hoff, hcurrent⟩ := hnamed h
    have hoff : Off (Scheduler.unloadService sw ids).1 p :=
      List.foldlRecOn (motive := fun s => Off s p) ids _ hoff fun _ h id _ => h.unloadOne id
    exact hoff.not_enabled (hall p ((currentService_unloadService sw ids).trans hcurrent))
  | registerService id operations scope => exact h trivial
  | enableService ids => exact h trivial
  | strategyChoose policy selectId range scope rand => exact h trivial
  | changeScope id scope => exact h trivial
  | setOperations id operations => exact h trivial
  | setCtx id ctx => exact h trivial

/-- **The current service is registered and enabled in every state of a run** exactly when no step
disables or unloads it. -/
theorem current_enabled_iff (w : σ) (actions : List (Action σ)) :
    (∀ before, before <+: actions → CurrentEnabled (runActions w before).1) ↔
      Along SparesCurrent step ({}, w) actions := by
  constructor
  · intro h
    by_contra hnot
    obtain ⟨before, action, after, rfl, -, hspares⟩ := exists_first_violation hnot
    refine not_currentEnabled_step hspares ?_
    have hlast := h (before ++ [action]) ⟨after, by simp⟩
    rwa [runActions, List.foldl_concat] at hlast
  · intro h before hbefore
    have hspares := h.of_isPrefix hbefore
    clear h hbefore
    induction before using List.reverseRecOn with
    | nil =>
      intro p hp
      cases hp
    | append_singleton before action ih =>
      rw [along_append] at hspares
      rw [runActions, List.foldl_concat]
      exact (ih hspares.1).step (indexed_foldl indexed_empty before) hspares.2.1

/-- The current service is unloaded: a file operation goes to an object that is deleted. -/
theorem unloaded_current :
    ¬ (∀ (w : Unit) (actions : List (Action Unit)), CurrentEnabled (runActions w actions).1) := by
  intro h
  have hrun := h () [.registerService 1 {} [], .enableService [1],
    .strategyChoose .Single 1 .All [] 0, .unloadService [1]]
  obtain ⟨id, service, -, hservice, -⟩ := hrun 0 rfl
  cases hservice

end Jxtd.Storage.Fs
