import Jxtd.Computation.Infer.Taskmanager
import Jxtd.Lib.Table

/-!
# Where the tasks stand in the matrix

A task keeps the position it was given when it was deployed, while `removeTask` deletes the row and
the column at that position. The positions stay the numbers `0, …, n - 1` exactly as long as every
task that is removed is the one deployed last.

* `RepInv`, `IndexSafe`: the matrix is square, the positions are `0, …, n - 1`, no index is wrong.
* `Placed tm order f`: the matrix of `tm` is the table of `f` over the tasks in the `order` of their
  deployment; `Placed.deployTask`, `Placed.addDeps`, `Placed.eraseIdx`, `Placed.removeTask`.
* **`repInv_iff_lifo`**: the invariant holds all along a run iff the run removes in reverse order of
  deployment.
-/

namespace Jxtd.Infer

open Lib Taskdep

/-- **The representation invariant**: a square matrix of side `n`, and positions `0, …, n - 1`. -/
structure Taskmanager.RepInv (tm : Taskmanager) : Prop where
  rows : tm.edges.length = tm.size
  cols : ∀ row ∈ tm.edges, row.length = tm.size
  positions : (tm.tasks.entries.map fun e => e.2.depPos).Perm (List.range tm.size)

/-- Every index that `add_deps`, `submit` and `remove_task` use is in range. -/
structure Taskmanager.IndexSafe (tm : Taskmanager) : Prop where
  addDeps : ∀ t deps, ∃ r, tm.addDeps t deps = .ok r
  submit : ∀ t, ∃ r, tm.submit t = .ok r
  removeTask : ∀ t send, ∃ r, tm.removeTask t send = .ok r

/-! ## What the invariant gives -/

theorem setEdge_ok {edges : List (List Bool)} {n i j : ℕ} (hr : edges.length = n)
    (hc : ∀ row ∈ edges, row.length = n) (hi : i < n) (hj : j < n) :
    ∃ row, edges[i]? = some row ∧ setEdge edges i j = .ok (edges.set i (row.set j true)) := by
  have hlt : i < edges.length := hr ▸ hi
  have hl : edges[i].length = n := hc _ (List.getElem_mem hlt)
  refine ⟨edges[i], List.getElem?_eq_getElem hlt, ?_⟩
  simp only [setEdge, List.getElem?_eq_getElem hlt, hl, if_pos hj]

theorem length_of_mem_set {edges : List (List Bool)} {n i j : ℕ} {row : List Bool}
    (hc : ∀ row ∈ edges, row.length = n) (hrow : edges[i]? = some row) :
    ∀ row' ∈ edges.set i (row.set j true), row'.length = n := by
  intro row' h
  rcases List.mem_or_eq_of_mem_set h with h | rfl
  · exact hc row' h
  · rw [List.length_set]
    exact hc row (List.mem_of_getElem? hrow)

section RepInv

variable {tm : Taskmanager}

theorem Taskmanager.RepInv.depPos_lt (h : tm.RepInv) {t : UInt64} {info : Taskinfo}
    (ht : tm.tasks.lookup t = some info) : info.depPos < tm.size := by
  have hm : (⟨t, info⟩ : Σ _ : UInt64, Taskinfo) ∈ tm.tasks.entries := AList.mem_lookup_iff.mp ht
  have hp : info.depPos ∈ tm.tasks.entries.map fun e => e.2.depPos :=
    List.mem_map.mpr ⟨_, hm, rfl⟩
  exact List.mem_range.mp (h.positions.mem_iff.mp hp)

theorem addDepsLoop_ok {n pos : ℕ} (hpos : pos < n) (deps : List UInt64) (tm : Taskmanager)
    (hr : tm.edges.length = n) (hc : ∀ row ∈ tm.edges, row.length = n)
    (hp : ∀ t info, tm.tasks.lookup t = some info → info.depPos < n) :
    ∃ r, tm.addDepsLoop pos deps = .ok r := by
  induction deps generalizing tm with
  | nil => exact ⟨_, rfl⟩
  | cons dep deps ih =>
    simp only [Taskmanager.addDepsLoop]
    cases hd : tm.tasks.lookup dep with
    | none => exact ⟨_, rfl⟩
    | some it =>
      obtain ⟨row, hrow, hset⟩ := setEdge_ok hr hc hpos (hp dep it hd)
      simp only [hset]
      exact ih _ (by rw [List.length_set, hr]) (length_of_mem_set hc hrow) hp

/-- **Under the invariant no operation uses an index out of range.** -/
theorem Taskmanager.RepInv.indexSafe (h : tm.RepInv) : tm.IndexSafe where
  addDeps t deps := by
    unfold Taskmanager.addDeps
    cases ht : tm.tasks.lookup t with
    | none => exact ⟨_, rfl⟩
    | some iter => exact addDepsLoop_ok (h.depPos_lt ht) deps tm h.rows h.cols fun _ _ => h.depPos_lt
  submit t := by
    unfold Taskmanager.submit
    cases ht : tm.tasks.lookup t with
    | none => exact ⟨_, rfl⟩
    | some iter =>
      have hlt : iter.depPos < tm.edges.length := by rw [h.rows]; exact h.depPos_lt ht
      simp only [List.getElem?_eq_getElem hlt]
      split_ifs
      · exact ⟨_, rfl⟩
      · exact ⟨_, rfl⟩
  removeTask t send := by
    unfold Taskmanager.removeTask
    cases ht : tm.tasks.lookup t with
    | none => exact ⟨_, rfl⟩
    | some iter =>
      have hlt := h.depPos_lt ht
      have hall : (tm.edges.eraseIdx iter.depPos).all
          fun single_edge => iter.depPos < single_edge.length := by
        rw [List.all_eq_true]
        intro row hrow
        rw [decide_eq_true_eq, h.cols row (List.mem_of_mem_eraseIdx hrow)]
        exact hlt
      simp only [Taskmanager.eraseTask, h.rows, if_pos hlt, hall, if_true]
      exact ⟨_, rfl⟩

end RepInv

/-! ## The matrix in the order of deployment -/

/-- The deployed tasks in the order of their deployment, after one more operation. -/
def orderStep (order : List UInt64) : Op → List UInt64
  | .deployTask t .. => if t ∈ order then order else order ++ [t]
  | .addDeps .. => order
  | .removeTask t _ => order.erase t

/-- A task that is removed is the one deployed last. -/
def Lifo (order : List UInt64) : Op → Prop
  | .removeTask t _ => t ∈ order → order.getLast? = some t
  | _ => True

instance (order : List UInt64) (op : Op) : Decidable (Lifo order op) := by
  unfold Lifo
  split <;> infer_instance

/-- The tasks stand in the order of their deployment and the matrix is the table of `f`. -/
structure Placed (tm : Taskmanager) (order : List UInt64) (f : UInt64 → UInt64 → Bool) : Prop where
  nodup : order.Nodup
  mem_iff : ∀ t, t ∈ tm.tasks ↔ t ∈ order
  pos : ∀ t info, tm.tasks.lookup t = some info → info.depPos = order.idxOf t
  edges : tm.edges = table f order

theorem placed_new : Placed .new [] fun _ _ => false where
  nodup := List.nodup_nil
  mem_iff t := by simp [Taskmanager.new]
  pos t info h := by simp [Taskmanager.new] at h
  edges := rfl

section Placed

variable {tm : Taskmanager} {order : List UInt64} {f : UInt64 → UInt64 → Bool}

theorem Placed.keys_perm (h : Placed tm order f) : tm.tasks.keys.Perm order :=
  (List.perm_ext_iff_of_nodup tm.tasks.keys_nodup h.nodup).mpr fun t =>
    AList.mem_keys.symm.trans (h.mem_iff t)

theorem Placed.size_eq (h : Placed tm order f) : tm.size = order.length := by
  rw [← h.keys_perm.length_eq, Taskmanager.size, AList.keys, List.keys, List.length_map]

theorem Placed.lookup (h : Placed tm order f) {t : UInt64} (ht : t ∈ order) :
    ∃ info, tm.tasks.lookup t = some info ∧ info.depPos = order.idxOf t := by
  obtain ⟨info, hi⟩ := Option.isSome_iff_exists.mp (AList.lookup_isSome.mpr ((h.mem_iff t).mpr ht))
  exact ⟨info, hi, h.pos t info hi⟩

theorem Placed.lookup_none (h : Placed tm order f) {t : UInt64} (ht : t ∉ order) :
    tm.tasks.lookup t = none :=
  AList.lookup_eq_none.mpr fun hm => ht ((h.mem_iff t).mp hm)

theorem Placed.positions (h : Placed tm order f) :
    (tm.tasks.entries.map fun e => e.2.depPos).Perm (List.range tm.size) := by
  have he : (tm.tasks.entries.map fun e => e.2.depPos) =
      tm.tasks.keys.map fun t => order.idxOf t := by
    rw [AList.keys, List.keys, List.map_map]
    refine List.map_congr_left fun e he => ?_
    exact h.pos e.1 e.2 (AList.mem_lookup_iff.mpr he)
  rw [he, h.size_eq, ← map_idxOf_self h.nodup]
  exact h.keys_perm.map _

theorem Placed.repInv (h : Placed tm order f) : tm.RepInv where
  rows := by rw [h.edges, length_table, h.size_eq]
  cols row hrow := by
    rw [h.edges] at hrow
    rw [length_of_mem_table hrow, h.size_eq]
  positions := h.positions

theorem Placed.congr {g : UInt64 → UInt64 → Bool} (h : Placed tm order f)
    (hfg : ∀ x ∈ order, ∀ y ∈ order, f x y = g x y) : Placed tm order g :=
  ⟨h.nodup, h.mem_iff, h.pos, h.edges.trans (table_congr hfg)⟩

/-- **A new task** gets a row and a column of `false`. -/
theorem Placed.deployTask (h : Placed tm order f) {t : UInt64} (ht : t ∉ order)
    (ip d op : Str) (dp ep p rp tp : UInt32) (b : List UInt32) :
    Placed (tm.deployTask t ip d op dp ep p rp tp b).2 (order ++ [t])
      fun x y => if x = t ∨ y = t then false else f x y := by
  have hm : t ∉ tm.tasks := fun hm => ht ((h.mem_iff t).mp hm)
  have hidx : (order ++ [t]).idxOf t = order.length := by
    rw [List.idxOf_append_of_notMem ht]; simp
  simp only [Taskmanager.deployTask, if_neg hm]
  refine ⟨?_, fun t' => ?_, fun t' info hl => ?_, ?_⟩
  · exact List.nodup_append.mpr ⟨h.nodup, List.nodup_singleton t, fun a ha b hb e => ht (by
      rw [List.mem_singleton.mp hb] at e; exact e ▸ ha)⟩
  · rw [AList.mem_insert, h.mem_iff, List.mem_append, List.mem_singleton, or_comm]
  · by_cases e : t' = t
    · subst e
      rw [AList.lookup_insert] at hl
      cases hl
      rw [hidx, h.size_eq]
    · rw [AList.lookup_insert_ne e] at hl
      rw [h.pos t' info hl, List.idxOf_append_of_mem]
      exact (h.mem_iff t').mp (AList.lookup_isSome.mp (Option.isSome_iff_exists.mpr ⟨info, hl⟩))
  · have hlen : (AList.insert t (⟨tm.size, ip, d, op, dp, ep, p, b, rp, tp⟩ : Taskinfo)
        tm.tasks).entries.length = order.length + 1 := by
      rw [AList.entries_insert_of_notMem hm, List.length_cons]
      exact congrArg (· + 1) h.size_eq
    rw [hlen, table_concat, h.edges, table, List.map_map, List.replicate_succ']
    refine congrArg₂ (· ++ ·) ?_ ?_
    · refine List.map_congr_left fun x hx => ?_
      have hxt : x ≠ t := fun e => ht (e ▸ hx)
      simp only [Function.comp_apply, hxt, false_or, if_true]
      congr 1
      refine List.map_congr_left fun y hy => ?_
      rw [if_neg fun e : y = t => ht (e ▸ hy)]
    · simp

/-- The dependencies that `add_deps` sets: those listed before the first unknown task. -/
def recorded (order deps : List UInt64) : List UInt64 := deps.takeWhile fun d => d ∈ order

theorem Placed.setEdge (h : Placed tm order f) {t d : UInt64} (ht : t ∈ order) (hd : d ∈ order) :
    setEdge tm.edges (order.idxOf t) (order.idxOf d) =
      .ok (table (fun x y => if x = t ∧ y = d then true else f x y) order) := by
  have hrow : tm.edges[order.idxOf t]? = some (order.map (f t)) := by
    rw [h.edges, table, getElem?_map_idxOf ht]
  have hlt : order.idxOf d < (order.map (f t)).length := by
    rw [List.length_map]
    exact List.idxOf_lt_length_of_mem hd
  simp only [Infer.setEdge, hrow, if_pos hlt]
  rw [h.edges, table_set h.nodup]

theorem Placed.addDepsLoop {t : UInt64} (ht : t ∈ order) (deps : List UInt64)
    (h : Placed tm order f) :
    ∃ r tm', tm.addDepsLoop (order.idxOf t) deps = .ok (r, tm') ∧
      Placed tm' order fun x y => f x y || (x = t && y ∈ recorded order deps) := by
  induction deps generalizing tm f with
  | nil => exact ⟨0, tm, rfl, h.congr fun x _ y _ => by simp [recorded]⟩
  | cons d deps ih =>
    simp only [Taskmanager.addDepsLoop]
    by_cases hd : d ∈ order
    · obtain ⟨it, hit, hpos⟩ := h.lookup hd
      simp only [hit, hpos, h.setEdge ht hd]
      have h' : Placed { tm with
          edges := table (fun x y => if x = t ∧ y = d then true else f x y) order } order
          fun x y => if x = t ∧ y = d then true else f x y :=
        ⟨h.nodup, h.mem_iff, h.pos, rfl⟩
      obtain ⟨r, tm', hr, hp⟩ := ih h'
      refine ⟨r, tm', hr, hp.congr fun x _ y _ => ?_⟩
      have hrec : recorded order (d :: deps) = d :: recorded order deps :=
        List.takeWhile_cons_of_pos (by simpa using hd)
      rw [hrec]
      by_cases hx : x = t <;> by_cases hy : y = d <;> simp [hx, hy]
    · have hrec : recorded order (d :: deps) = [] :=
        List.takeWhile_cons_of_neg (by simpa using hd)
      simp only [h.lookup_none hd, hrec]
      exact ⟨-1, tm, rfl, h.congr fun x _ y _ => by simp⟩

/-- **Added dependencies** set the cells of the task's row. -/
theorem Placed.addDeps {t : UInt64} (ht : t ∈ order) (deps : List UInt64)
    (h : Placed tm order f) :
    ∃ r tm', tm.addDeps t deps = .ok (r, tm') ∧
      Placed tm' order fun x y => f x y || (x = t && y ∈ recorded order deps) := by
  obtain ⟨iter, hi, hpos⟩ := h.lookup ht
  simp only [Taskmanager.addDeps, hi, hpos]
  exact Placed.addDepsLoop ht deps h

/-- **A removed task** takes its row and its column with it, whatever its position is; the other
tasks keep their positions. -/
theorem Placed.eraseTask {t : UInt64} (ht : t ∈ order) (h : Placed tm order f) (send : Bool) :
    ∃ tm' r, tm.removeTask t send = .ok (tm', r) ∧ tm'.edges = table f (order.erase t) ∧
      tm'.tasks = tm.tasks.erase t := by
  obtain ⟨iter, hi, hpos⟩ := h.lookup ht
  have hlt : order.idxOf t < order.length := List.idxOf_lt_length_of_mem ht
  have hall : (tm.edges.eraseIdx (order.idxOf t)).all
      fun single_edge => order.idxOf t < single_edge.length := by
    rw [List.all_eq_true]
    intro row hrow
    rw [h.edges] at hrow
    rw [decide_eq_true_eq, length_of_mem_table (List.mem_of_mem_eraseIdx hrow)]
    exact hlt
  simp only [Taskmanager.removeTask, hi, Taskmanager.eraseTask, hpos, hall, if_true]
  rw [if_pos (by rw [h.edges, length_table]; exact hlt)]
  refine ⟨_, _, rfl, ?_, rfl⟩
  rw [h.edges, table_eraseIdx, List.eraseIdx_idxOf_eq_erase]

/-- **The last task removed**: the positions of the others are still right. -/
theorem Placed.removeLast {t : UInt64} (h : Placed tm (order ++ [t]) f) (send : Bool) :
    ∃ tm' r, tm.removeTask t send = .ok (tm', r) ∧ Placed tm' order f := by
  have hd := List.nodup_append.mp h.nodup
  have ht : t ∉ order := fun hm => hd.2.2 t hm t (List.mem_singleton_self t) rfl
  obtain ⟨tm', r, hr, he, htasks⟩ := h.eraseTask (t := t) (by simp) send
  rw [List.erase_append_right _ ht, List.erase_cons_head, List.append_nil] at he
  refine ⟨tm', r, hr, hd.1, fun t' => ?_, fun t' info hl => ?_, he⟩
  · rw [htasks, AList.mem_erase, h.mem_iff, List.mem_append, List.mem_singleton]
    constructor
    · rintro ⟨hne, hm | rfl⟩
      · exact hm
      · exact absurd rfl hne
    · intro hm
      exact ⟨fun e => ht (e ▸ hm), .inl hm⟩
  · rw [htasks] at hl
    by_cases e : t' = t
    · rw [e, AList.lookup_erase] at hl
      cases hl
    · rw [AList.lookup_erase_ne e] at hl
      have hm : t' ∈ order ++ [t] :=
        (h.mem_iff t').mp (AList.lookup_isSome.mp (Option.isSome_iff_exists.mpr ⟨info, hl⟩))
      have hm' : t' ∈ order := by simpa [e] using hm
      rw [h.pos t' info hl, List.idxOf_append_of_mem hm']

end Placed

/-! ## Whole runs -/

/-- One operation that removes no task but the last keeps the placement. -/
theorem placed_step {tm : Taskmanager} {order : List UInt64} {op : Op}
    (h : ∃ f, Placed tm order f) (hg : Lifo order op) :
    ∃ tm', tm.step op = .ok tm' ∧ ∃ f, Placed tm' (orderStep order op) f := by
  obtain ⟨f, h⟩ := h
  cases op with
  | deployTask t ip d op dp ep p rp tp b =>
    refine ⟨_, rfl, ?_⟩
    by_cases ht : t ∈ order
    · have hm : t ∈ tm.tasks := (h.mem_iff t).mpr ht
      simp only [orderStep, if_pos ht, Taskmanager.deployTask, if_pos hm]
      exact ⟨f, h⟩
    · simp only [orderStep, if_neg ht]
      exact ⟨_, h.deployTask ht ip d op dp ep p rp tp b⟩
  | addDeps t deps =>
    by_cases ht : t ∈ order
    · obtain ⟨r, tm', hr, hp⟩ := h.addDeps ht deps
      exact ⟨tm', by simp [Taskmanager.step, hr, Except.map], _, hp⟩
    · exact ⟨tm, by simp [Taskmanager.step, Taskmanager.addDeps, h.lookup_none ht, Except.map],
        f, h⟩
  | removeTask t send =>
    by_cases ht : t ∈ order
    · obtain ⟨init, rfl⟩ := List.getLast?_eq_some_iff.mp (hg ht)
      obtain ⟨tm', r, hr, hp⟩ := h.removeLast send
      refine ⟨tm', by simp [Taskmanager.step, hr, Except.map], f, ?_⟩
      have hn : t ∉ init := fun hm =>
        (List.nodup_append.mp h.nodup).2.2 t hm t (List.mem_singleton_self t) rfl
      simpa [orderStep, List.erase_append_right _ hn] using hp
    · refine ⟨tm, by simp [Taskmanager.step, Taskmanager.removeTask, h.lookup_none ht, Except.map],
        f, ?_⟩
      simpa [orderStep, List.erase_of_not_mem ht] using h

theorem placed_of_lifo {ops : List Op} (hg : Along Lifo orderStep [] ops) :
    ∃ tm, reach ops = .ok tm ∧ ∃ f, Placed tm (ops.foldl orderStep []) f :=
  run_simulates Taskmanager.step Lifo orderStep (fun tm order => ∃ f, Placed tm order f)
    (fun _ _ _ h hg => placed_step h hg) ⟨_, placed_new⟩ hg

/-- **A removal out of order** leaves a task whose position is no longer in the matrix. -/
theorem Placed.not_repInv_of_erase {tm tm' : Taskmanager} {order : List UInt64}
    {f : UInt64 → UInt64 → Bool} {t : UInt64} (h : Placed tm order f) (ht : t ∈ order)
    (hl : order.getLast? ≠ some t) (he : tm'.tasks = tm.tasks.erase t)
    (hedges : tm'.edges = table f (order.erase t)) : ¬ tm'.RepInv := by
  intro hinv
  obtain ⟨init, u, rfl⟩ : ∃ init u, order = init ++ [u] :=
    ⟨_, _, (List.dropLast_append_getLast (List.ne_nil_of_mem ht)).symm⟩
  have hut : u ≠ t := fun e => hl (by rw [List.getLast?_concat, e])
  have hn : u ∉ init := fun hm =>
    (List.nodup_append.mp h.nodup).2.2 u hm u (List.mem_singleton_self u) rfl
  obtain ⟨info, hi, hpos⟩ := h.lookup (t := u) (by simp)
  have hi' : tm'.tasks.lookup u = some info := by rw [he, AList.lookup_erase_ne hut, hi]
  have hlt := hinv.depPos_lt hi'
  rw [← hinv.rows, hedges, length_table, hpos, List.idxOf_append_of_notMem hn,
    List.length_erase_of_mem ht] at hlt
  simp at hlt

/-- **The representation invariant along a run.** From the empty manager, every state of a run is
reached without a fault, satisfies the invariant and makes every index safe if and only if every
task that the run removes is the deployed task that was deployed last. -/
theorem repInv_iff_lifo (ops : List Op) :
    (∀ pre, pre <+: ops → ∃ tm, reach pre = .ok tm ∧ tm.RepInv ∧ tm.IndexSafe) ↔
      Along Lifo orderStep [] ops := by
  constructor
  · intro h
    by_contra hg
    obtain ⟨pre, op, post, rfl, hpre, hv⟩ := exists_first_violation hg
    obtain ⟨tm, hr, f, hp⟩ := placed_of_lifo hpre
    cases op with
    | deployTask => exact hv trivial
    | addDeps => exact hv trivial
    | removeTask t send =>
      obtain ⟨ht, hl⟩ := Classical.not_imp.mp hv
      obtain ⟨tm', r, he, hedges, htasks⟩ := hp.eraseTask ht send
      obtain ⟨tm'', hr', hinv, -⟩ := h (pre ++ [.removeTask t send]) ⟨post, by simp⟩
      have hs : tm.step (.removeTask t send) = .ok tm' := by simp [Taskmanager.step, he, Except.map]
      rw [reach, run_append hr, run_cons_ok hs, run_nil] at hr'
      cases hr'
      exact hp.not_repInv_of_erase ht hl htasks hedges hinv
  · intro hg pre hpre
    obtain ⟨tm, hr, f, hp⟩ := placed_of_lifo (hg.of_isPrefix hpre)
    exact ⟨tm, hr, hp.repInv, hp.repInv.indexSafe⟩

/-- A deployment with empty settings. -/
def plain (t : UInt64) : Op := .deployTask t [] [] [] 0 0 0 0 0 []

/-- An index that `submit` gets wrong breaks the invariant. -/
theorem not_repInv_of_submit {tm : Taskmanager} {t : UInt64} {f : Fault}
    (h : tm.submit t = .error f) : ¬ tm.RepInv := by
  intro hinv
  obtain ⟨r, hr⟩ := hinv.indexSafe.submit t
  rw [h] at hr
  cases hr

/-- **A position out of range**: task `2` keeps position `1` in a matrix of one row when task `1`
is removed before it, and `submit` throws. -/
theorem removal_out_of_order : ∃ tm, reach [plain 1, plain 2, .removeTask 1 false] = .ok tm ∧
    ¬ tm.RepInv ∧ tm.submit 2 = .error .outOfRange := by
  refine ⟨_, rfl, not_repInv_of_submit (t := 2) (f := .outOfRange) ?_, ?_⟩
  · decide
  · decide

end Jxtd.Infer
