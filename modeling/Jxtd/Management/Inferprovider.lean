import Jxtd.Lib.Bytes
import Jxtd.Lib.Except
import Jxtd.Lib.Objects
import Jxtd.Lib.Run
import Mathlib.Data.List.ReduceOption

/-!
# The tasks of an inference provider

`Task` and `Task_Manager` of `management/inferprovider/task.cc`. The manager keeps pointers to tasks
that its caller has made and given to it, and deletes the tasks behind them.

* `Task`, `Method`: a task and its functions.
* `State`, `Call`, `step`: the tasks that are alive and the pointers of a manager; `destroy`.
* `Disciplined`: what a caller must see to; `Owned`: what the manager then has.
* `deleteTask_cases`, `step_owned`, `step_not_owned`: what a call does to it.
* **`lifetime_safe_iff`**: which calls a manager outlives.
-/

namespace Jxtd.Management.Inferprovider

open Lib

/-! ## Tasks -/

/-- `Trigger_method` -/
inductive TriggerMethod
  | dependency
  | manual
  | create
  deriving DecidableEq

/-- `Task`, whose engines are all different and whose current engine is one of them, if there is
one. -/
structure Task where
  taskid : UInt64
  engines : List Str
  deps : List UInt64
  runCount : Int32
  status : Bool
  method : TriggerMethod
  currentEngine : Str
  output : Str
  nodup : engines.Nodup
  listed : currentEngine = [] ∨ currentEngine ∈ engines

namespace Task

/-- The constructor. -/
def new : Task := ⟨0, [], [], 0, false, .create, [], [], List.nodup_nil, .inl rfl⟩

/-- `switch_engine` -/
def switchEngine (task : Task) (name : Str) : Int × Task :=
  if h : name ∈ task.engines then (0, { task with currentEngine := name, listed := .inr h })
  else (-1, task)

/-- `add_engine` -/
def addEngine (task : Task) (name : Str) : Task :=
  if h : name ∈ task.engines then task
  else
    { task with
      engines := task.engines ++ [name]
      nodup := List.nodup_append.mpr ⟨task.nodup, List.nodup_singleton name, by
        rintro _ hmem _ hname rfl
        exact h (List.mem_singleton.mp hname ▸ hmem)⟩
      listed := task.listed.imp_right (List.mem_append_left _) }

/-- `delete_engine` -/
def deleteEngine (task : Task) (name : Str) : Task :=
  if name ∈ task.engines then
    if h : name = task.currentEngine then
      { task with
        engines := task.engines.erase name, currentEngine := []
        nodup := task.nodup.erase name, listed := .inl rfl }
    else
      { task with
        engines := task.engines.erase name
        nodup := task.nodup.erase name
        listed := task.listed.imp_right fun hmem => (List.mem_erase_of_ne (Ne.symm h)).mpr hmem }
  else task

end Task

/-- The functions of a task; the last stands for those that only read. -/
inductive Method
  | setTaskid (taskid : UInt64)
  | addDep (depid : UInt64)
  | switchEngine (name : Str)
  | addEngine (name : Str)
  | deleteEngine (name : Str)
  | setRunCount (runCount : Int32)
  | setTrigger (method : TriggerMethod)
  | setOutput (output : Str)
  | start
  | stop
  | get

/-- The task after a call. -/
def Method.apply (task : Task) : Method → Task
  | setTaskid taskid => { task with taskid }
  | addDep depid => { task with deps := task.deps ++ [depid] }
  | switchEngine name => (task.switchEngine name).2
  | addEngine name => task.addEngine name
  | deleteEngine name => task.deleteEngine name
  | setRunCount runCount => { task with runCount }
  | setTrigger method => { task with method }
  | setOutput output => { task with output }
  | start => { task with status := true }
  | stop => { task with status := false }
  | get => task

/-! ## The manager -/

/-- A pointer is null, or the task behind it is not alive, or no call has returned it. -/
inductive Fault
  | null
  | dangling
  | wild
  deriving DecidableEq

/-- The tasks that are alive, and the pointers of the manager. -/
structure State where
  heap : Objects Task
  tasks : List (Option ℕ)

/-- The task behind a pointer. -/
def deref (heap : Objects Task) : Option ℕ → Except Fault Task
  | none => .error .null
  | some p =>
    match heap.live p with
    | none => .error .dangling
    | some task => .ok task

/-- The loop of `get_task`. -/
def getTask (heap : Objects Task) (taskid : UInt64) : List (Option ℕ) → Except Fault (Option ℕ)
  | [] => .ok none
  | iter :: tasks =>
    (deref heap iter).bind fun task =>
      if task.taskid = taskid then .ok iter else getTask heap taskid tasks

/-- `delete` -/
def free (heap : Objects Task) (iter : Option ℕ) : Objects Task := iter.elim heap heap.delete

/-- The loop of `delete_task`. -/
def deleteTask (heap : Objects Task) (taskid : UInt64) :
    List (Option ℕ) → Except Fault (Objects Task × List (Option ℕ))
  | [] => .ok (heap, [])
  | iter :: tasks =>
    (deref heap iter).bind fun task =>
      if task.taskid = taskid then .ok (free heap iter, tasks)
      else (deleteTask heap taskid tasks).map fun (heap, tasks) => (heap, iter :: tasks)

/-- The destructor; a null pointer is deleted without effect. -/
def destroy (s : State) : Except Fault (Objects Task) :=
  match s.heap.deleteAll s.tasks.reduceOption with
  | none => .error .dangling
  | some heap => .ok heap

/-- The calls of the manager, and those of a task behind a pointer. -/
inductive Call
  | createTask (taskid : UInt64)
  | addTask (task : Option ℕ)
  | getTask (taskid : UInt64)
  | deleteTask (taskid : UInt64)
  | method (task : Option ℕ) (m : Method)

/-- A call. -/
def step (s : State) : Call → Except Fault State
  | .createTask taskid => .ok { s with heap := s.heap.alloc { Task.new with taskid } }
  | .addTask task =>
    if ∀ p ∈ task, p < s.heap.fresh then .ok { s with tasks := s.tasks ++ [task] }
    else .error .wild
  | .getTask taskid => (getTask s.heap taskid s.tasks).map fun _ => s
  | .deleteTask taskid => (deleteTask s.heap taskid s.tasks).map fun (heap, tasks) => ⟨heap, tasks⟩
  | .method none _ => .error .null
  | .method (some p) m =>
    if h : (s.heap.live p).isSome then
      .ok { s with heap := s.heap.set p (m.apply ((s.heap.live p).get h)) h }
    else .error .dangling

/-- A new manager is used and destroyed: the tasks that are then alive. -/
def lifetime (calls : List Call) : Except Fault (Objects Task) :=
  (run step ⟨Objects.empty, []⟩ calls).bind destroy

/-! ## The discipline -/

/-- Whether a pointer is that of a task with an id. -/
def Has (heap : Objects Task) (taskid : UInt64) (iter : Option ℕ) : Bool :=
  iter.any fun p => (heap.live p).any (·.taskid = taskid)

/-- No null pointer comes before the task that is looked up. -/
def Reaches (s : State) (taskid : UInt64) : Prop :=
  none ∉ s.tasks.takeWhile fun iter => !Has s.heap taskid iter

/-- What a caller must see to: a task is alive when it is added or used, and is added once. -/
def Disciplined (s : State) : Call → Prop
  | .createTask _ => True
  | .addTask none => True
  | .addTask (some p) => (s.heap.live p).isSome ∧ some p ∉ s.tasks
  | .getTask taskid => Reaches s taskid
  | .deleteTask taskid => Reaches s taskid
  | .method none _ => False
  | .method (some p) _ => (s.heap.live p).isSome

/-- The manager has each task once, and all of them are alive. -/
structure Owned (s : State) : Prop where
  nodup : s.tasks.reduceOption.Nodup
  live : ∀ p, some p ∈ s.tasks → (s.heap.live p).isSome

section Manager

variable {heap heap' : Objects Task} {s s' : State} {taskid : UInt64} {tasks tasks' : List (Option ℕ)}

/-- Where a lookup comes to an end. -/
theorem getTask_isOk_iff (hlive : ∀ p, some p ∈ tasks → (heap.live p).isSome) :
    (∃ iter, getTask heap taskid tasks = .ok iter) ↔
      none ∉ tasks.takeWhile fun iter => !Has heap taskid iter := by
  induction tasks with
  | nil => simp [getTask]
  | cons iter tasks ih =>
    have htail := ih fun p hp => hlive p (List.mem_cons_of_mem _ hp)
    cases iter with
    | none => simp [getTask, deref, Except.bind, Has]
    | some p =>
      obtain ⟨task, htask⟩ := Option.isSome_iff_exists.mp (hlive p List.mem_cons_self)
      by_cases hid : task.taskid = taskid
      · simp [getTask, deref, Except.bind, Has, htask, hid]
      · simpa [getTask, deref, Except.bind, Has, htask, hid] using htail

/-- A deletion ends where a lookup does. -/
theorem deleteTask_isOk_iff : (∃ x, deleteTask heap taskid tasks = .ok x) ↔
    ∃ iter, getTask heap taskid tasks = .ok iter := by
  induction tasks with
  | nil => simp [getTask, deleteTask]
  | cons iter tasks ih =>
    rw [deleteTask, getTask]
    cases deref heap iter with
    | error f => simp [Except.bind]
    | ok task =>
      simp only [Except.bind]
      split_ifs
      · simp
      · rw [← ih]
        constructor
        · rintro ⟨x, hx⟩
          obtain ⟨y, hy, -⟩ := map_eq_ok.mp hx
          exact ⟨y, hy⟩
        · rintro ⟨x, hx⟩
          rw [hx]
          exact ⟨_, rfl⟩

/-- **A deletion** leaves everything as it is, or deletes one live task and takes one pointer to it
out. -/
theorem deleteTask_cases (h : deleteTask heap taskid tasks = .ok (heap', tasks')) :
    (heap' = heap ∧ tasks' = tasks) ∨ ∃ pre p post, tasks = pre ++ some p :: post ∧
      (heap.live p).isSome ∧ heap' = heap.delete p ∧ tasks' = pre ++ post := by
  induction tasks generalizing tasks' with
  | nil =>
    cases h
    exact .inl ⟨rfl, rfl⟩
  | cons iter tasks ih =>
    rw [deleteTask] at h
    cases iter with
    | none => cases h
    | some p =>
      rw [deref] at h
      cases htask : heap.live p with
      | none =>
        rw [htask] at h
        cases h
      | some task =>
        rw [htask] at h
        simp only [Except.bind] at h
        split_ifs at h
        · cases h
          exact .inr ⟨[], p, tasks, rfl, by simp [htask], rfl, rfl⟩
        · obtain ⟨⟨heap₁, tasks₁⟩, hrest, heq⟩ := map_eq_ok.mp h
          cases heq
          obtain ⟨rfl, rfl⟩ | ⟨pre, q, post, rfl, hq, rfl, rfl⟩ := ih hrest
          · exact .inl ⟨rfl, rfl⟩
          · exact .inr ⟨some p :: pre, q, post, rfl, hq, rfl, rfl⟩

/-- The pointers of the manager are pointers to tasks that were made. -/
def Known (s : State) : Prop := ∀ p, some p ∈ s.tasks → p < s.heap.fresh

/-- What a call does to the pointers and to what is alive. -/
theorem step_cases {call : Call} (h : step s call = .ok s') :
    (∃ task, s' = ⟨s.heap.alloc task, s.tasks⟩) ∨
    (∃ task, call = .addTask task ∧ (∀ p ∈ task, p < s.heap.fresh) ∧
      s' = ⟨s.heap, s.tasks ++ [task]⟩) ∨
    s' = s ∨
    (∃ pre p post, s.tasks = pre ++ some p :: post ∧ (s.heap.live p).isSome ∧
      s' = ⟨s.heap.delete p, pre ++ post⟩) ∨
    ∃ p task hp, s' = ⟨s.heap.set p task hp, s.tasks⟩ := by
  cases call with
  | createTask taskid =>
    cases h
    exact .inl ⟨_, rfl⟩
  | addTask task =>
    rw [step] at h
    split_ifs at h with hp
    cases h
    exact .inr (.inl ⟨task, rfl, hp, rfl⟩)
  | getTask taskid =>
    obtain ⟨_, -, rfl⟩ := map_eq_ok.mp h
    exact .inr (.inr (.inl rfl))
  | deleteTask taskid =>
    obtain ⟨⟨heap', tasks'⟩, hdelete, rfl⟩ := map_eq_ok.mp h
    obtain ⟨rfl, rfl⟩ | ⟨pre, p, post, heq, hp, rfl, rfl⟩ := deleteTask_cases hdelete
    · exact .inr (.inr (.inl rfl))
    · exact .inr (.inr (.inr (.inl ⟨pre, p, post, heq, hp, rfl⟩)))
  | method task m =>
    cases task with
    | none => cases h
    | some p =>
      rw [step] at h
      split_ifs at h with hp
      cases h
      exact .inr (.inr (.inr (.inr ⟨p, _, hp, rfl⟩)))

theorem step_known {call : Call} (hknown : Known s) (h : step s call = .ok s') : Known s' := by
  obtain ⟨task, rfl⟩ | ⟨task, -, hp, rfl⟩ | rfl | ⟨pre, p, post, heq, -, rfl⟩ | ⟨p, task, hp, rfl⟩ :=
    step_cases h
  · exact fun p hp => Nat.lt_succ_of_lt (hknown p hp)
  · intro q hq
    rcases List.mem_append.mp hq with hq | hq
    · exact hknown q hq
    · exact hp q (List.mem_singleton.mp hq).symm
  · exact hknown
  · intro q hq
    refine hknown q ?_
    rw [heq]
    exact List.mem_append.mpr ((List.mem_append.mp hq).imp_right (List.mem_cons_of_mem _))
  · exact hknown

/-- What a call gives to the manager can be owned. -/
def Gives (s : State) : Call → Prop
  | .addTask (some p) => (s.heap.live p).isSome ∧ some p ∉ s.tasks
  | .addTask none => True
  | .createTask _ => True
  | .getTask _ => True
  | .deleteTask _ => True
  | .method _ _ => True

theorem owned_congr (hlive : ∀ p, some p ∈ s.tasks → (heap'.live p).isSome = (s.heap.live p).isSome) :
    Owned ⟨heap', s.tasks⟩ ↔ Owned s := by
  constructor
  · exact fun h => ⟨h.nodup, fun p hp => hlive p hp ▸ h.live p hp⟩
  · exact fun h => ⟨h.nodup, fun p hp => (hlive p hp).symm ▸ h.live p hp⟩

theorem owned_add (task : Option ℕ) :
    Owned ⟨s.heap, s.tasks ++ [task]⟩ ↔ Owned s ∧ Gives s (.addTask task) := by
  cases task with
  | none =>
    constructor
    · intro h
      have hnodup := h.nodup
      rw [List.reduceOption_append] at hnodup
      exact ⟨⟨hnodup.of_append_left, fun p hp => h.live p (List.mem_append_left _ hp)⟩, trivial⟩
    · rintro ⟨h, -⟩
      refine ⟨by simpa [List.reduceOption_append] using h.nodup, fun p hp => h.live p ?_⟩
      simpa using hp
  | some p =>
    have hreduce : (s.tasks ++ [some p]).reduceOption = s.tasks.reduceOption ++ [p] := by
      simp [List.reduceOption_append]
    constructor
    · intro h
      have hnodup := h.nodup
      rw [hreduce, List.nodup_append] at hnodup
      refine ⟨⟨hnodup.1, fun q hq => h.live q (List.mem_append_left _ hq)⟩,
        h.live p (List.mem_append_right _ (List.mem_singleton_self _)), fun hmem => ?_⟩
      exact hnodup.2.2 p (List.reduceOption_mem_iff.mpr hmem) p (List.mem_singleton_self p) rfl
    · rintro ⟨h, hlive, hnot⟩
      refine ⟨?_, fun q hq => ?_⟩
      · rw [hreduce, List.nodup_append]
        refine ⟨h.nodup, List.nodup_singleton p, ?_⟩
        rintro q hq _ hp rfl
        rw [List.mem_singleton.mp hp] at hq
        exact hnot (List.reduceOption_mem_iff.mp hq)
      · rcases List.mem_append.mp hq with hq | hq
        · exact h.live q hq
        · cases List.mem_singleton.mp hq
          exact hlive

theorem owned_delete {pre post : List (Option ℕ)} {p : ℕ} (heq : s.tasks = pre ++ some p :: post)
    (hp : (s.heap.live p).isSome) : Owned ⟨s.heap.delete p, pre ++ post⟩ ↔ Owned s := by
  have hreduce : s.tasks.reduceOption = pre.reduceOption ++ p :: post.reduceOption := by
    simp [heq, List.reduceOption_append]
  have hnodup : s.tasks.reduceOption.Nodup ↔
      p ∉ (pre ++ post).reduceOption ∧ (pre ++ post).reduceOption.Nodup := by
    rw [hreduce, List.nodup_middle, List.nodup_cons, List.reduceOption_append]
  constructor
  · intro h
    have hnot : p ∉ (pre ++ post).reduceOption := by
      intro hmem
      have hlive := h.live p (List.reduceOption_mem_iff.mp hmem)
      rw [Objects.delete_self] at hlive
      cases hlive
    refine ⟨hnodup.mpr ⟨hnot, h.nodup⟩, fun q hq => ?_⟩
    by_cases hqp : q = p
    · rwa [hqp]
    · have hq' : some q ∈ pre ++ post := by simpa [heq, hqp] using hq
      have hlive := h.live q hq'
      rwa [Objects.delete_ne hqp] at hlive
  · intro h
    obtain ⟨hnot, hrest⟩ := hnodup.mp h.nodup
    refine ⟨hrest, fun q hq => ?_⟩
    have hqp : q ≠ p := by
      rintro rfl
      exact hnot (List.reduceOption_mem_iff.mpr hq)
    have hq' : some q ∈ s.tasks := by simpa [heq, hqp] using hq
    change ((s.heap.delete p).live q).isSome
    rw [Objects.delete_ne hqp]
    exact h.live q hq'

/-- **What is owned after a call**: what was owned before it, with what it gives. -/
theorem step_owned {call : Call} (hknown : Known s) (h : step s call = .ok s') :
    Owned s' ↔ Owned s ∧ Gives s call := by
  cases call with
  | createTask taskid =>
    cases h
    refine (owned_congr fun p hp => ?_).trans (and_iff_left trivial).symm
    rw [Objects.alloc_of_lt (hknown p hp)]
  | addTask task =>
    rw [step] at h
    split_ifs at h
    cases h
    exact owned_add task
  | getTask taskid =>
    obtain ⟨_, -, rfl⟩ := map_eq_ok.mp h
    exact (and_iff_left trivial).symm
  | deleteTask taskid =>
    obtain ⟨⟨heap', tasks'⟩, hdelete, rfl⟩ := map_eq_ok.mp h
    refine Iff.trans ?_ (and_iff_left trivial).symm
    obtain ⟨rfl, rfl⟩ | ⟨pre, p, post, heq, hp, rfl, rfl⟩ := deleteTask_cases hdelete
    · rfl
    · exact owned_delete heq hp
  | method task m =>
    cases task with
    | none => cases h
    | some p =>
      rw [step] at h
      split_ifs at h
      cases h
      refine (owned_congr fun q _ => ?_).trans (and_iff_left trivial).symm
      rw [Objects.isSome_set]

/-- **Which calls are possible** on tasks that are owned: those of the discipline, apart from what
they give. -/
theorem disciplined_iff {call : Call} (h : Owned s) :
    Disciplined s call ↔ (∃ s', step s call = .ok s') ∧ Gives s call := by
  cases call with
  | createTask taskid => exact iff_of_true trivial ⟨⟨_, rfl⟩, trivial⟩
  | addTask task =>
    cases task with
    | none => exact iff_of_true trivial ⟨⟨_, rfl⟩, trivial⟩
    | some p =>
      refine ⟨fun hp => ⟨⟨_, if_pos ?_⟩, hp⟩, fun hp => hp.2⟩
      rintro q ⟨⟩
      exact Objects.lt_of_live hp.1
  | getTask taskid =>
    rw [Disciplined, Reaches, ← getTask_isOk_iff h.live, Gives, and_true]
    constructor
    · rintro ⟨iter, hiter⟩
      exact ⟨s, by rw [step, hiter]; rfl⟩
    · rintro ⟨s', hs'⟩
      obtain ⟨iter, hiter, -⟩ := map_eq_ok.mp hs'
      exact ⟨iter, hiter⟩
  | deleteTask taskid =>
    rw [Disciplined, Reaches, ← getTask_isOk_iff h.live, ← deleteTask_isOk_iff, Gives, and_true]
    constructor
    · rintro ⟨x, hx⟩
      exact ⟨_, by rw [step, hx]; rfl⟩
    · rintro ⟨s', hs'⟩
      obtain ⟨x, hx, -⟩ := map_eq_ok.mp hs'
      exact ⟨x, hx⟩
  | method task m =>
    cases task with
    | none => exact iff_of_false id fun ⟨⟨_, h⟩, _⟩ => by cases h
    | some p =>
      rw [Disciplined, Gives, and_true, step]
      by_cases hp : (s.heap.live p).isSome
      · simp [hp]
      · simp [hp]

theorem destroy_isOk_iff : (∃ heap, destroy s = .ok heap) ↔ Owned s := by
  have hall : (s.heap.deleteAll s.tasks.reduceOption).isSome ↔ _ := Objects.deleteAll_eq_some_iff
  simp only [List.reduceOption_mem_iff] at hall
  rw [destroy]
  cases heq : s.heap.deleteAll s.tasks.reduceOption with
  | none =>
    rw [heq] at hall
    refine iff_of_false (by simp) fun h => ?_
    exact absurd (hall.mpr ⟨h.nodup, h.live⟩) (by simp)
  | some heap =>
    rw [heq] at hall
    obtain ⟨hnodup, hlive⟩ := hall.mp rfl
    exact iff_of_true ⟨heap, rfl⟩ ⟨hnodup, hlive⟩

/-- **Which calls a manager outlives.** A new manager is used and destroyed without a fault exactly
if each of the calls is disciplined where it is made. -/
theorem lifetime_safe_iff (calls : List Call) : (∃ heap, lifetime calls = .ok heap) ↔
    ∀ pre call post, calls = pre ++ call :: post →
      ∃ s, run step ⟨Objects.empty, []⟩ pre = .ok s ∧ Disciplined s call := by
  have hknown : Known ⟨Objects.empty, []⟩ := fun p hp => absurd hp List.not_mem_nil
  have howned : Owned ⟨Objects.empty, []⟩ :=
    ⟨List.nodup_nil, fun p hp => absurd hp List.not_mem_nil⟩
  rw [← run_good_iff (fun _ _ _ => step_known) ?_ ?_ ?_ hknown howned]
  · constructor
    · rintro ⟨heap, h⟩
      obtain ⟨s, hs, hdestroy⟩ := bind_eq_ok.mp h
      exact ⟨s, hs, destroy_isOk_iff.mp ⟨heap, hdestroy⟩⟩
    · rintro ⟨s, hs, h⟩
      obtain ⟨heap, hdestroy⟩ := destroy_isOk_iff.mpr h
      exact ⟨heap, bind_eq_ok.mpr ⟨s, hs, hdestroy⟩⟩
  · intro s call hk h hd
    obtain ⟨⟨s', hs'⟩, hgives⟩ := (disciplined_iff h).mp hd
    exact ⟨s', hs', (step_owned hk hs').mpr ⟨h, hgives⟩⟩
  · intro s call s' hk h hd hs' h'
    exact hd ((disciplined_iff h).mpr ⟨⟨s', hs'⟩, ((step_owned hk hs').mp h').2⟩)
  · intro s call s' hk h hs' h'
    exact h ((step_owned hk hs').mp h').1

/-- **What is left behind**: the tasks that the manager did not have when it was destroyed. -/
theorem live_of_lifetime {calls : List Call} (h : lifetime calls = .ok heap) :
    ∃ s, run step ⟨Objects.empty, []⟩ calls = .ok s ∧
      ∀ p, heap.live p = if some p ∈ s.tasks then none else s.heap.live p := by
  obtain ⟨s, hs, hdestroy⟩ := bind_eq_ok.mp h
  refine ⟨s, hs, fun p => ?_⟩
  rw [destroy] at hdestroy
  split at hdestroy
  · cases hdestroy
  · rename_i heap₁ hall
    cases hdestroy
    simp [Objects.live_deleteAll hall, List.reduceOption_mem_iff]

/-- A task that is given twice is deleted twice. -/
example : lifetime [.createTask 1, .addTask (some 0), .addTask (some 0)] = .error .dangling := rfl

end Manager

end Jxtd.Management.Inferprovider
