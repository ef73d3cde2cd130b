import Jxtd.Computation.Taskdep
import Jxtd.Lib.Except
import Jxtd.Lib.Run

/-!
# Runs of the cluster

The requests that the taskdep server handles and the completions of tasks, in any order.

* `ClusterEvent`, `clusterStep`: the steps; `square_step`: the matrix stays square.
* **`failed_deploy_restores`**: a deployment that fails leaves the tasks and the matrix as they were.
* `DependsOn`, `Acyclic`, `Ordered`: the dependencies of the tasks, as `submit` sees them.
* **`acyclic_iff_ordered`**: exactly which runs keep them acyclic.
-/

namespace Jxtd.Computation

open Lib Taskdep Infer

/-- A request with the servers that are loaded then, or the completion of a task. -/
inductive ClusterEvent
  | request (manager : DrccpServerManager) (req : Request)
  | done (taskid : UInt64)

/-- The server's endpoint and the name it submits to are fixed at its start. -/
def clusterStep (endpoint : Endpoint) (name : Str) (tm : Taskmanager) :
    ClusterEvent → Except Fault Taskmanager
  | .request manager req => (process endpoint manager name tm req).map Outcome.manager
  | .done taskid => (tm.removeTask taskid true).map Prod.fst

/-- A manager without tasks. -/
structure Blank (tm : Taskmanager) : Prop where
  tasks : tm.tasks = ∅
  edges : tm.edges = []

/-- The matrix is square, with a row for each task. -/
def SquareManager (tm : Taskmanager) : Prop := Square tm.size tm.edges

variable {endpoint : Endpoint} {name : Str} {tm tm' tm₀ : Taskmanager} {taskid : UInt64}
  {info : Taskinfo} {row : List Bool} {es : List ClusterEvent}

theorem Blank.square (h : Blank tm) : SquareManager tm := by
  have hsize : tm.size = 0 := by
    rw [Taskmanager.size, h.tasks]
    rfl
  rw [SquareManager, h.edges, hsize]
  exact square_nil

theorem SquareManager.registered (h : SquareManager tm) (hnew : taskid ∉ tm.tasks)
    (hrow : row.length = tm.size + 1) : SquareManager (registered tm taskid info row) := by
  have hsize : (Computation.registered tm taskid info row).size = tm.size + 1 := size_insert hnew info
  rw [SquareManager, hsize]
  exact h.grow hrow

theorem size_removed (h : tm.tasks.lookup taskid = some info) :
    tm.size = (removed tm taskid info).size + 1 := by
  have hmem : (⟨taskid, info⟩ : Σ _ : UInt64, Taskinfo) ∈ tm.tasks.entries :=
    AList.mem_lookup_iff.mp h
  have hlen : (removed tm taskid info).size = tm.tasks.entries.length - 1 :=
    List.length_eraseP_of_mem hmem (by simp)
  have hpos := List.length_pos_of_mem hmem
  rw [hlen, Nat.sub_add_cancel hpos]
  rfl

theorem SquareManager.removed (h : SquareManager tm) (hinfo : tm.tasks.lookup taskid = some info)
    (hlt : info.depPos < tm.edges.length) : SquareManager (removed tm taskid info) := by
  have hsize := size_removed hinfo
  have hsq : Square ((Computation.removed tm taskid info).size + 1) tm.edges := hsize ▸ h
  exact hsq.shrink (by rw [← hsq.rows]; exact hlt)

/-- What one event does to the manager. -/
theorem clusterStep_cases (h : SquareManager tm) {e : ClusterEvent}
    (he : clusterStep endpoint name tm e = .ok tm') :
    tm' = tm ∨
    (∃ taskid info, tm.tasks.lookup taskid = some info ∧ info.depPos < tm.edges.length ∧
      tm' = removed tm taskid info) ∨
    ∃ manager req attr info row, e = .request manager req ∧ Registers req attr ∧
      req.taskid ∉ tm.tasks ∧ info.depPos = tm.size ∧ tm' = registered tm req.taskid info row ∧
      DepsRow tm req.taskid info attr row := by
  cases e with
  | request manager req =>
    rw [clusterStep] at he
    cases hout : process endpoint manager name tm req with
    | error f =>
      rw [hout] at he
      cases he
    | ok out =>
      rw [hout] at he
      cases he
      cases process_effect h hout with
      | same hsame => exact .inl hsame
      | removed info hinfo hlt hremoved => exact .inr (.inl ⟨_, info, hinfo, hlt, hremoved⟩)
      | registered attr info row hchecks hnew hpos hreg hrow =>
        exact .inr (.inr ⟨manager, req, attr, info, row, rfl, hchecks, hnew, hpos, hreg, hrow⟩)
  | done taskid =>
    rw [clusterStep] at he
    cases hout : tm.removeTask taskid true with
    | error f =>
      rw [hout] at he
      cases he
    | ok out =>
      rw [hout] at he
      cases he
      rcases of_removeTask hout with hsame | ⟨info, hinfo, hlt, hremoved⟩
      · exact .inl hsame
      · exact .inr (.inl ⟨taskid, info, hinfo, hlt, hremoved⟩)

theorem square_step (h : SquareManager tm) {e : ClusterEvent}
    (he : clusterStep endpoint name tm e = .ok tm') : SquareManager tm' := by
  rcases clusterStep_cases h he with rfl | ⟨taskid, info, hinfo, hlt, rfl⟩ |
    ⟨manager, req, attr, info, row, -, -, hnew, -, rfl, hrow⟩
  · exact h
  · exact h.removed hinfo hlt
  · exact h.registered hnew hrow.length

theorem square_run (h : Blank tm₀) (hrun : run (clusterStep endpoint name) tm₀ es = .ok tm) :
    SquareManager tm :=
  run_invariant (fun _ _ _ hs he => square_step hs he) h.square hrun

/-! ## Failed deployments -/

/-- **A deployment that fails leaves the tasks and the matrix as they were**, in every state that
a run without a fault reaches. -/
theorem failed_deploy_restores (h : Blank tm₀)
    (hrun : run (clusterStep endpoint name) tm₀ es = .ok tm) {manager : DrccpServerManager}
    {req : Request} {out : Outcome} (hout : process endpoint manager name tm req = .ok out)
    {resp : Response} (hreply : out.reply = some resp)
    (hstatus : HasStatus resp .err ∨ HasStatus resp .illegal ∨ HasStatus resp .depsbroken) :
    out.manager.tasks = tm.tasks ∧ out.manager.edges = tm.edges := by
  cases process_effect (square_run h hrun) hout with
  | same hsame =>
    rw [hsame]
    exact ⟨rfl, rfl⟩
  | removed info hinfo hlt hremoved hnone =>
    have hnone := hnone resp hreply
    rcases hstatus with ⟨d, hd, -⟩ | ⟨d, hd, -⟩ | ⟨d, hd, -⟩ <;>
    · rw [hnone] at hd
      cases hd
  | registered attr info row hchecks hnew hpos hreg hrow hsucceed =>
    obtain ⟨d, hd, hs⟩ := hsucceed resp hreply
    rcases hstatus with ⟨d', hd', hs'⟩ | ⟨d', hd', hs'⟩ | ⟨d', hd', hs'⟩ <;>
    · obtain rfl := Option.some.inj (hd.symm.trans hd')
      rw [hs] at hs'
      exact absurd hs' (by decide)

/-- A cluster with the one server `c`. -/
def oneServer : DrccpServerManager := ⟨[lit "c"]⟩

/-- A deployment of a task that waits for others. -/
def depsRequest (taskid : UInt64) (deps : List UInt64) : Request :=
  let req := ((Request.new.setType .management .cluster .deploy).setTaskid taskid).setObjectManagement
    Endpoint.new
  let req := (req.setDatasource ⟨[], lit "data"⟩ ⟨[], 0, 0⟩).2
  deps.foldl Request.addAttrDep (req.setAttrMaster Trigger.deps.toUInt32 false).2

/-- A third task that waits for the first one and for one that is unknown. -/
theorem failed_deploy_restores_deps : ∃ tm out,
    run (clusterStep Endpoint.new (lit "c")) .new
      [.request oneServer (depsRequest 1 []), .request oneServer (depsRequest 2 [1])] = .ok tm ∧
    process Endpoint.new oneServer (lit "c") tm (depsRequest 3 [1, 9]) = .ok out ∧
    out.manager.tasks = tm.tasks ∧ out.manager.edges = tm.edges := by
  have hrun : run (clusterStep Endpoint.new (lit "c")) .new
      [.request oneServer (depsRequest 1 []), .request oneServer (depsRequest 2 [1])] = .ok _ := rfl
  refine ⟨_, _, hrun, rfl, ?_⟩
  exact failed_deploy_restores ⟨rfl, rfl⟩ hrun
    (rfl : process Endpoint.new oneServer (lit "c") _ (depsRequest 3 [1, 9]) = .ok _) rfl
    (.inr (.inr ⟨_, rfl, rfl⟩))

/-! ## Cycles -/

/-- The row of `a` has an entry at the position of `b`: `submit` refuses `a` for it. -/
def DependsOn (tm : Taskmanager) (a b : UInt64) : Prop :=
  ∃ infoA infoB, tm.tasks.lookup a = some infoA ∧ tm.tasks.lookup b = some infoB ∧
    entry tm.edges infoA.depPos infoB.depPos = true

/-- No task depends on itself, through whatever others. -/
def Acyclic (tm : Taskmanager) : Prop := ∀ a, ¬ Relation.TransGen (DependsOn tm) a a

/-- A deployment whose dependencies are all known names neither itself nor a task that has the
position that it is given itself. -/
def Ordered (tm : Taskmanager) : ClusterEvent → Prop
  | .request _ req => ∀ attr, Registers req attr → req.taskid ∉ tm.tasks →
      attr.trigger = Trigger.deps.toUInt32 → (∀ d ∈ attr.deps, d ∈ tm.tasks ∨ d = req.taskid) →
      ∀ d ∈ attr.deps, d ≠ req.taskid ∧
        ∀ it, tm.tasks.lookup d = some it → it.depPos ≠ tm.size
  | .done _ => True

/-- The tasks stand in the order of the rows, and depend on rows above only. -/
theorem acyclic_of_lower (h : Lower tm.edges) : Acyclic tm := by
  refine not_transGen_of_lt (fun t => ((tm.tasks.lookup t).map Taskinfo.depPos).getD 0)
    fun a b hab => ?_
  obtain ⟨infoA, infoB, ha, hb, hentry⟩ := hab
  rw [ha, hb]
  exact h _ _ hentry

theorem lower_step (h : SquareManager tm) (hl : Lower tm.edges) {e : ClusterEvent}
    (hord : Ordered tm e) (he : clusterStep endpoint name tm e = .ok tm') : Lower tm'.edges := by
  rcases clusterStep_cases h he with rfl | ⟨taskid, info, -, -, rfl⟩ |
    ⟨manager, req, attr, info, row, rfl, hchecks, hnew, hpos, rfl, hrow⟩
  · exact hl
  · exact hl.shrink _
  · refine hl.grow h fun j hj => ?_
    obtain ⟨hdeps, d, hd, it, hit, rfl⟩ := hrow.only j hj
    have hknown (d' : UInt64) (hd' : d' ∈ attr.deps) : d' ∈ tm.tasks ∨ d' = req.taskid := by
      obtain ⟨it', hit', -⟩ := hrow.all hdeps d' hd'
      rcases eq_or_ne d' req.taskid with rfl | hne
      · exact .inr rfl
      · rw [AList.lookup_insert_ne hne] at hit'
        exact .inl (AList.lookup_isSome.mp (by rw [hit']; rfl))
    obtain ⟨hne, hposne⟩ := hord attr hchecks hnew hdeps hknown d hd
    rw [AList.lookup_insert_ne hne] at hit
    have hlt : it.depPos < row.length := by
      by_contra hge
      rw [List.getElem?_eq_none (not_lt.mp hge)] at hj
      cases hj
    have := hposne it hit
    rw [hrow.length] at hlt
    omega

/-- A deployment that is not ordered makes the new task wait for itself. -/
theorem cyclic_of_not_ordered (h : SquareManager tm) {e : ClusterEvent} (hord : ¬ Ordered tm e)
    (he : clusterStep endpoint name tm e = .ok tm') : ¬ Acyclic tm' := by
  cases e with
  | done taskid => exact absurd trivial hord
  | request manager req =>
    unfold Ordered at hord
    push Not at hord
    obtain ⟨attr, hchecks, hnew, hdeps, hknown, d, hd, hself⟩ := hord
    rw [clusterStep] at he
    cases hout : process endpoint manager name tm req with
    | error f =>
      rw [hout] at he
      cases he
    | ok out =>
      rw [hout] at he
      cases he
      cases process_effect h hout with
      | same hsame hbroken =>
        obtain ⟨d', hd', hunknown, hne⟩ := hbroken attr hchecks hnew hdeps
        exact absurd (hknown d' hd') (not_or.mpr ⟨hunknown, hne⟩)
      | removed info hinfo hlt hremoved hnone hmsg => exact absurd hchecks.msg hmsg
      | registered attr' info row hchecks' _ hpos hreg hrow =>
        obtain rfl : attr = attr' := Option.some.inj (hchecks.attr.symm.trans hchecks'.attr)
        obtain ⟨it, hit, hentry⟩ := hrow.all hdeps d hd
        -- the dependency stands where the new task does
        have hitpos : it.depPos = tm.size := by
          by_cases hne : d = req.taskid
          · rw [hne, AList.lookup_insert] at hit
            cases hit
            exact hpos
          · rw [AList.lookup_insert_ne hne] at hit
            obtain ⟨it', hit', hpos'⟩ := hself hne
            rw [hit] at hit'
            cases hit'
            exact hpos'
        have hinfo : out.manager.tasks.lookup req.taskid = some info := by
          rw [hreg]
          exact AList.lookup_insert _
        refine fun hacyclic => hacyclic req.taskid (.single ⟨info, info, hinfo, hinfo, ?_⟩)
        rw [hreg, hpos]
        exact (entry_grow_last h row tm.size).trans (hitpos ▸ hentry)

/-- **Exactly which runs keep the dependencies acyclic**: those all of whose deployments are
ordered. -/
theorem acyclic_iff_ordered (h : Blank tm₀)
    (hrun : run (clusterStep endpoint name) tm₀ es = .ok tm) :
    (∀ pre post s, es = pre ++ post → run (clusterStep endpoint name) tm₀ pre = .ok s → Acyclic s) ↔
      ∀ pre e post s, es = pre ++ e :: post → run (clusterStep endpoint name) tm₀ pre = .ok s →
        Ordered s e := by
  constructor
  · intro hacyclic pre e post s hes hpre
    by_contra hord
    have hes' : es = pre ++ [e] ++ post := by
      rw [hes, List.append_assoc]
      rfl
    obtain ⟨s', hs'⟩ := run_of_append (hes' ▸ hrun)
    obtain ⟨s₁, hs₁, hstep⟩ := run_concat hs'
    obtain rfl := Except.ok.inj (hpre.symm.trans hs₁)
    exact cyclic_of_not_ordered (square_run h hpre) hord hstep (hacyclic _ post s' hes' hs')
  · intro hord pre post s hes hpre
    refine acyclic_of_lower ?_
    induction pre using List.reverseRecOn generalizing post s with
    | nil =>
      cases hpre
      rw [h.edges]
      exact lower_nil
    | append_singleton pre e ih =>
      obtain ⟨s₁, hs₁, hstep⟩ := run_concat hpre
      rw [List.append_assoc] at hes
      exact lower_step (square_run h hs₁) (ih (e :: post) s₁ hes hs₁) (hord pre e post s₁ hes hs₁) hstep

/-- A chain of two tasks. -/
theorem acyclic_chain : ∃ tm, run (clusterStep Endpoint.new (lit "c")) .new
    [.request oneServer (depsRequest 1 []), .request oneServer (depsRequest 2 [1])] = .ok tm ∧
    Acyclic tm := by
  have hrun : run (clusterStep Endpoint.new (lit "c")) .new
      [.request oneServer (depsRequest 1 []), .request oneServer (depsRequest 2 [1])] = .ok _ := rfl
  refine ⟨_, hrun, (acyclic_iff_ordered ⟨rfl, rfl⟩ hrun).mpr ?_ _ [] _ rfl hrun⟩
  rintro (_ | ⟨e₁, _ | ⟨e₂, pre⟩⟩) e post s hes hpre
  · cases hes
    intro attr hreg _ _ _ d hd
    cases hreg.attr
    cases hd
  · cases hes
    cases hpre
    intro attr hreg _ _ _ d hd
    cases hreg.attr
    obtain rfl := List.mem_singleton.mp hd
    refine ⟨by decide, fun it hit => ?_⟩
    cases hit
    decide
  · simp at hes

/-- **Two cycles.** A task that names itself, and, after an earlier task is gone, a task that waits
for the one deployed before it: each is deployed with the answer `succeed`. -/
theorem cyclic_runs :
    (∃ tm, run (clusterStep Endpoint.new (lit "c")) .new
      [.request oneServer (depsRequest 5 [5])] = .ok tm ∧ ¬ Acyclic tm) ∧
    ∃ tm, run (clusterStep Endpoint.new (lit "c")) .new
      [.request oneServer (depsRequest 1 []), .request oneServer (depsRequest 2 []), .done 1,
        .request oneServer (depsRequest 3 [2])] = .ok tm ∧ ¬ Acyclic tm := by
  refine ⟨⟨_, rfl, fun h => h 5 (.single ⟨_, _, rfl, rfl, rfl⟩)⟩,
    _, rfl, fun h => h 3 (.single ⟨_, _, rfl, rfl, rfl⟩)⟩

end Jxtd.Computation
