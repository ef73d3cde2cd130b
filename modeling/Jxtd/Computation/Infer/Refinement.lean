import Jxtd.Computation.Infer.Placement
import Mathlib.Data.List.TakeWhile

/-!
# The task manager and its dependency graph

* `DepGraph`: the abstract graph. Removing a node forgets the dependencies on it, a node that is
  deployed starts without dependencies, and nothing else changes a pair.
* `graphStep`: what an operation of the task manager means for the graph.
* `Faithful`: the operations for which the matrix keeps up with the graph.
* **`refines_of_faithful`**: in a run of faithful operations `submit` is stopped at the matrix
  exactly for the tasks that depend on a deployed task.
* `submit_forgets`, `submit_remembers`: one run for each kind of operation that is not faithful.
-/

namespace Jxtd.Infer

open Lib Taskdep

/-! ## The abstract graph -/

/-- Nodes in the order of their deployment, and the dependencies recorded between them. -/
structure DepGraph (α : Type) where
  deployed : List α
  deps : α → α → Bool

section DepGraph

variable {α : Type} [DecidableEq α]

/-- The graph without nodes. -/
def DepGraph.empty : DepGraph α := ⟨[], fun _ _ => false⟩

/-- A new node has no dependencies yet. -/
def DepGraph.deploy (g : DepGraph α) (t : α) : DepGraph α :=
  if t ∈ g.deployed then g
  else ⟨g.deployed ++ [t], fun x y => g.deps x y && x ≠ t⟩

/-- Dependencies are recorded between deployed nodes only, all of them or none. -/
def DepGraph.record (g : DepGraph α) (t : α) (ds : List α) : DepGraph α :=
  if t ∈ g.deployed ∧ ∀ d ∈ ds, d ∈ g.deployed then
    ⟨g.deployed, fun x y => g.deps x y || (x = t && y ∈ ds)⟩
  else g

/-- A removed node is no dependency of any other node. -/
def DepGraph.remove (g : DepGraph α) (t : α) : DepGraph α :=
  ⟨g.deployed.erase t, fun x y => g.deps x y && y ≠ t⟩

/-- A node waits for another one that is still deployed. -/
def DepGraph.Waits (g : DepGraph α) (t : α) : Prop := ∃ d ∈ g.deployed, g.deps t d = true

/-- Every dependency is on a deployed node. -/
def DepGraph.Closed (g : DepGraph α) : Prop := ∀ x y, g.deps x y = true → y ∈ g.deployed

omit [DecidableEq α] in
theorem DepGraph.closed_empty : (DepGraph.empty : DepGraph α).Closed := fun _ _ h => by cases h

theorem DepGraph.Closed.deploy {g : DepGraph α} (h : g.Closed) (t : α) : (g.deploy t).Closed := by
  unfold DepGraph.deploy
  split_ifs
  · exact h
  · intro x y hxy
    rw [Bool.and_eq_true] at hxy
    exact List.mem_append_left _ (h x y hxy.1)

theorem DepGraph.Closed.record {g : DepGraph α} (h : g.Closed) (t : α) (ds : List α) :
    (g.record t ds).Closed := by
  unfold DepGraph.record
  split_ifs with hall
  · intro x y hxy
    simp only [Bool.or_eq_true, Bool.and_eq_true, decide_eq_true_eq] at hxy
    rcases hxy with hxy | ⟨-, hy⟩
    · exact h x y hxy
    · exact hall.2 y hy
  · exact h

theorem DepGraph.Closed.remove {g : DepGraph α} (h : g.Closed) (t : α) : (g.remove t).Closed := by
  intro x y hxy
  simp only [DepGraph.remove, Bool.and_eq_true, decide_eq_true_eq, ne_eq] at hxy
  exact (List.mem_erase_of_ne hxy.2).mpr (h x y hxy.1)

end DepGraph

/-- What one operation of the task manager means for the graph. -/
def graphStep (g : DepGraph UInt64) : Op → DepGraph UInt64
  | .deployTask t .. => g.deploy t
  | .addDeps t deps => g.record t deps
  | .removeTask t _ => g.remove t

/-- The operations for which the matrix keeps up with the graph: a task is removed before any task
deployed earlier, and an `add_deps` that fails has nothing new to record before its first unknown
task. -/
def Faithful (g : DepGraph UInt64) : Op → Prop
  | .deployTask .. => True
  | .addDeps t deps => t ∈ g.deployed → (∀ d ∈ deps, d ∈ g.deployed) ∨
      ∀ d ∈ recorded g.deployed deps, g.deps t d = true
  | .removeTask t _ => t ∈ g.deployed → g.deployed.getLast? = some t

/-! ## Refinement -/

/-- The matrix of `tm` is the table of the graph, in the order of deployment. -/
structure Represents (tm : Taskmanager) (g : DepGraph UInt64) : Prop where
  placed : Placed tm g.deployed g.deps
  closed : g.Closed

theorem Represents.mem_iff {tm : Taskmanager} {g : DepGraph UInt64} (h : Represents tm g)
    (t : UInt64) : t ∈ tm.tasks ↔ t ∈ g.deployed := h.placed.mem_iff t

/-- **The dependency check reads the graph.** -/
theorem Represents.submit_stopped {tm : Taskmanager} {g : DepGraph UInt64} (h : Represents tm g)
    {t : UInt64} (ht : t ∈ g.deployed) : tm.submit t = .ok .stopped ↔ g.Waits t := by
  obtain ⟨info, hi, hpos⟩ := h.placed.lookup ht
  have hrow : tm.edges[info.depPos]? = some (g.deployed.map (g.deps t)) := by
    rw [h.placed.edges, hpos, table, getElem?_map_idxOf ht]
  have hany : (g.deployed.map (g.deps t)).any id = true ↔ g.Waits t := by
    rw [List.any_map, List.any_eq_true]
    rfl
  simp only [Taskmanager.submit, hi, hrow]
  split_ifs with hw
  · exact iff_of_true rfl (hany.mp hw)
  · refine iff_of_false (fun e => ?_) (mt hany.mpr hw)
    cases e

theorem Represents.deployTask {tm : Taskmanager} {g : DepGraph UInt64} (h : Represents tm g)
    (t : UInt64) (ip d op : Str) (dp ep p rp tp : UInt32) (b : List UInt32) :
    Represents (tm.deployTask t ip d op dp ep p rp tp b).2 (g.deploy t) := by
  refine ⟨?_, h.closed.deploy t⟩
  by_cases ht : t ∈ g.deployed
  · have hm : t ∈ tm.tasks := (h.mem_iff t).mpr ht
    simp only [DepGraph.deploy, if_pos ht, Taskmanager.deployTask, if_pos hm]
    exact h.placed
  · simp only [DepGraph.deploy, if_neg ht]
    refine (h.placed.deployTask ht ip d op dp ep p rp tp b).congr fun x _ y _ => ?_
    by_cases hx : x = t
    · simp [hx]
    · by_cases hy : y = t
      · have hn : g.deps x t = false := by
          rw [← Bool.not_eq_true]
          exact fun e => ht (h.closed x t e)
        simp [hx, hy, hn]
      · simp [hx, hy]

theorem Represents.addDeps {tm : Taskmanager} {g : DepGraph UInt64} (h : Represents tm g)
    {t : UInt64} {deps : List UInt64} (hg : Faithful g (.addDeps t deps)) :
    ∃ tm', tm.step (.addDeps t deps) = .ok tm' ∧ Represents tm' (g.record t deps) := by
  by_cases ht : t ∈ g.deployed
  · obtain ⟨r, tm', hr, hp⟩ := h.placed.addDeps ht deps
    refine ⟨tm', by simp [Taskmanager.step, hr, Except.map], ?_, h.closed.record t deps⟩
    by_cases hall : ∀ d ∈ deps, d ∈ g.deployed
    · have hrec : recorded g.deployed deps = deps :=
        List.takeWhile_eq_self_iff.mpr fun d hd => decide_eq_true (hall d hd)
      simp only [DepGraph.record, ht, true_and, if_pos hall]
      rw [hrec] at hp
      exact hp
    · -- the call fails, and what it has recorded was recorded before
      have hold := (hg ht).resolve_left hall
      simp only [DepGraph.record, ht, true_and, if_neg hall]
      refine hp.congr fun x _ y _ => ?_
      by_cases hxy : x = t ∧ y ∈ recorded g.deployed deps
      · rw [hxy.1, hold y hxy.2, Bool.true_or]
      · have hf : (decide (x = t) && decide (y ∈ recorded g.deployed deps)) = false := by
          rw [← Bool.decide_and, decide_eq_false_iff_not]
          exact hxy
        rw [hf, Bool.or_false]
  · refine ⟨tm, ?_, ?_⟩
    · simp [Taskmanager.step, Taskmanager.addDeps, h.placed.lookup_none ht, Except.map]
    · simpa [DepGraph.record, ht] using h

theorem Represents.removeTask {tm : Taskmanager} {g : DepGraph UInt64} (h : Represents tm g)
    {t : UInt64} {send : Bool} (hg : Faithful g (.removeTask t send)) :
    ∃ tm', tm.step (.removeTask t send) = .ok tm' ∧ Represents tm' (g.remove t) := by
  have hforget : ∀ x, ∀ y ∈ g.deployed.erase t, g.deps x y = (g.deps x y && decide (y ≠ t)) := by
    intro x y hy
    rw [h.placed.nodup.mem_erase_iff] at hy
    simp [hy.1]
  by_cases ht : t ∈ g.deployed
  · obtain ⟨init, hinit⟩ := List.getLast?_eq_some_iff.mp (hg ht)
    have hp := h.placed
    rw [hinit] at hp
    obtain ⟨tm', r, hr, hp'⟩ := hp.removeLast send
    have herase : g.deployed.erase t = init := by
      have hn : t ∉ init := fun hm =>
        (List.nodup_append.mp hp.nodup).2.2 t hm t (List.mem_singleton_self t) rfl
      rw [hinit, List.erase_append_right _ hn, List.erase_cons_head, List.append_nil]
    refine ⟨tm', by simp [Taskmanager.step, hr, Except.map], ?_, h.closed.remove t⟩
    rw [DepGraph.remove, herase]
    exact hp'.congr fun x _ y hy => hforget x y (herase ▸ hy)
  · have herase : g.deployed.erase t = g.deployed := List.erase_of_not_mem ht
    refine ⟨tm, ?_, ?_, h.closed.remove t⟩
    · simp [Taskmanager.step, Taskmanager.removeTask, h.placed.lookup_none ht, Except.map]
    · rw [DepGraph.remove, herase]
      exact h.placed.congr fun x _ y hy => hforget x y (herase.symm ▸ hy)

/-- A faithful operation keeps the representation. -/
theorem represents_step {tm : Taskmanager} {g : DepGraph UInt64} {op : Op} (h : Represents tm g)
    (hg : Faithful g op) : ∃ tm', tm.step op = .ok tm' ∧ Represents tm' (graphStep g op) := by
  cases op with
  | deployTask t ip d op dp ep p rp tp b => exact ⟨_, rfl, h.deployTask t ip d op dp ep p rp tp b⟩
  | addDeps t deps => exact h.addDeps hg
  | removeTask t send => exact h.removeTask hg

/-- **The task manager refines the dependency graph.** After every run of faithful operations the
deployed tasks are those of the graph, and `submit` is stopped at the matrix exactly for those of
them that wait for a deployed task. -/
theorem refines_of_faithful (ops : List Op) (h : Along Faithful graphStep .empty ops) :
    ∃ tm, reach ops = .ok tm ∧ ∀ t, t ∈ tm.tasks →
      (tm.submit t = .ok .stopped ↔ (ops.foldl graphStep .empty).Waits t) := by
  obtain ⟨tm, hr, hrep⟩ := run_simulates Taskmanager.step Faithful graphStep Represents
    (fun _ _ _ h hg => represents_step h hg) ⟨placed_new, DepGraph.closed_empty⟩ h
  exact ⟨tm, hr, fun t ht => hrep.submit_stopped ((hrep.mem_iff t).mp ht)⟩

/-- Two tasks of which the second waits for the first, which is not deployed last. -/
theorem refines_of_faithful_run : ∃ tm,
    reach [plain 1, plain 2, .addDeps 2 [1], plain 3, .removeTask 3 false] = .ok tm ∧
      ∀ t, t ∈ tm.tasks → (tm.submit t = .ok .stopped ↔
        ([plain 1, plain 2, .addDeps 2 [1], plain 3, .removeTask 3 false].foldl graphStep
          .empty).Waits t) :=
  refines_of_faithful _ ⟨trivial, trivial, fun _ => .inl (List.forall_mem_singleton.mpr (by decide)),
    trivial, fun _ => by decide, trivial⟩

/-- **A dependency is lost** when a task deployed earlier is removed: task `2` waits for `3`, and
after task `1` is removed its row is read in the place of `3`'s. -/
theorem submit_forgets : ∃ tm,
    reach [plain 1, plain 2, plain 3, .addDeps 2 [3], .removeTask 1 false] = .ok tm ∧
      2 ∈ tm.tasks ∧ tm.submit 2 ≠ .ok .stopped ∧
      ([plain 1, plain 2, plain 3, .addDeps 2 [3], .removeTask 1 false].foldl graphStep
        .empty).Waits 2 :=
  ⟨_, rfl, by decide, by decide, 3, by decide, by decide⟩

/-- **A dependency is kept** from an `add_deps` that failed. -/
theorem submit_remembers : ∃ tm, reach [plain 1, plain 2, .addDeps 2 [1, 3]] = .ok tm ∧
    2 ∈ tm.tasks ∧ tm.submit 2 = .ok .stopped ∧
    ¬ ([plain 1, plain 2, .addDeps 2 [1, 3]].foldl graphStep .empty).Waits 2 :=
  ⟨_, rfl, by decide, by decide, by
    rintro ⟨d, -, hd⟩
    exact absurd hd (by simp [plain, graphStep, DepGraph.deploy, DepGraph.record, DepGraph.empty])⟩

end Jxtd.Infer
