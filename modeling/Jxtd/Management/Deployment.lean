import Jxtd.Lib.Iterate
import Jxtd.Management.Taskdep

/-!
# The deployment on the management side

One call of `create_deploy_task`, a state machine in the manner of the negotiation. Neither a
`busy` answer nor a failure ends the repeated requests.

* `deployRequest`: the request of the first task and of the repeated ones.
* `firstDeployCallback`, `repeaterDeployCallback`: the callbacks.
* `Deployment.deliver`: the callback of the running task.
* **`deployment_bounded_iff`**: when a call that gets only `busy` answers and failures is bounded.
-/

namespace Jxtd.Management

open Lib Taskdep

/-- What a deployment needs besides the storage. -/
structure ComputationContext extends TaskdepClientContext where
  computation : Endpoint

/-- The request that deploys `taskid`. What a setter refuses is left unset. -/
def deployRequest (ctx : ComputationContext) (taskid : UInt64) (datasource : Datasource)
    (attr : Attr) : Request :=
  let req := Request.new.setType .management .cluster .deploy
  let req := (req.setObjectManagement ctx.management).setObjectCluster ctx.computation
  let req := (req.setToken ctx.token).setTaskid taskid
  let req := (req.setDatasource datasource.src datasource.dest).2
  let req := (req.setAttrMaster attr.trigger attr.virtstorage).2
  let req :=
    match attr.period with
    | none => req
    | some period =>
      (req.setAttrPeriod period.interval period.resultpolicy period.triggerpolicy period.backupid).2
  attr.deps.foldl Request.addAttrDep req

theorem header_setDatasource (req : Request) (src : Datasource.Src) (dest : Datasource.Dest) :
    header (req.setDatasource src dest).2 = header req := by
  unfold Request.setDatasource
  split_ifs <;> rfl

theorem header_setAttrMaster (req : Request) (trigger : UInt32) (virtstorage : Bool) :
    header (req.setAttrMaster trigger virtstorage).2 = header req := by
  unfold Request.setAttrMaster
  split_ifs <;> rfl

theorem header_setAttrPeriod (req : Request) (interval resultpolicy triggerpolicy : UInt32)
    (backupid : List UInt32) :
    header (req.setAttrPeriod interval resultpolicy triggerpolicy backupid).2 = header req := by
  unfold Request.setAttrPeriod
  split_ifs <;> rfl

theorem header_deployRequest (ctx : ComputationContext) (taskid : UInt64) (datasource : Datasource)
    (attr : Attr) : header (deployRequest ctx taskid datasource attr) =
      (AddrType.management.toUInt32, AddrType.cluster.toUInt32, MsgType.deploy.toUInt32, taskid) := by
  unfold deployRequest
  rw [header_foldl Request.addAttrDep fun _ _ => rfl]
  cases attr.period with
  | none =>
    dsimp only
    rw [header_setAttrMaster, header_setDatasource]
    rfl
  | some period =>
    dsimp only
    rw [header_setAttrPeriod, header_setAttrMaster, header_setDatasource]
    rfl

/-- The variables of a call: the retries that are left, its result, `success` of the task context,
and the number of requests before the present one. -/
structure Deployment where
  phase : Phase
  busyRetryMax : ℤ
  result : ℤ
  success : Bool
  attempt : ℕ
  deriving DecidableEq

def Deployment.start (busyRetryMax : ℤ) : Deployment := ⟨.first, busyRetryMax, -1, false, 0⟩

/-- Is this an answer of the cluster to a deployment of `taskid`? -/
def answersDeploy (resp : Response) (taskid : UInt64) : Bool :=
  !(resp.src ≠ AddrType.cluster.toUInt32 || resp.dest ≠ AddrType.management.toUInt32 ||
    resp.msg ≠ MsgType.deploy.toUInt32 || resp.taskid ≠ taskid)

/-- The repeater creates its next task unless `success` is set. -/
def Deployment.again (d : Deployment) : Deployment :=
  if d.success then { d with phase := .returned }
  else { d with phase := .repeater, attempt := d.attempt + 1 }

/-- The callback of the first task; no result for the use of a null pointer. -/
def firstDeployCallback (taskid : UInt64) (d : Deployment) : Option Response → Option Deployment
  | none => some { d with phase := .returned }
  | some resp =>
    if !answersDeploy resp taskid then some { d with phase := .returned }
    else
      match resp.deploy with
      | none => none
      | some deploy =>
        if deploy.status = DeployStatus.succeed.toUInt32 then
          some { d with phase := .returned, result := deploy.taskstatus.toInt32.toInt }
        else if deploy.status = DeployStatus.busy.toUInt32 then some d.again
        else some { d with phase := .returned }

/-- The callback of a repeated task, and what the repeater does next. The callback refers to the
parameter `taskid` of the repeater, which has returned: `dangling` is what it finds there. -/
def repeaterDeployCallback (dangling : UInt64) (d : Deployment) :
    Option Response → Option Deployment
  | none => some { d with success := false }.again
  | some resp =>
    if !answersDeploy resp dangling then some { d with success := true }.again
    else
      match resp.deploy with
      | none => none
      | some deploy =>
        if deploy.status = DeployStatus.succeed.toUInt32 then
          some { d with result := deploy.taskstatus.toInt32.toInt, success := true }.again
        else if deploy.status = DeployStatus.busy.toUInt32 then
          -- the `success` that the last retry sets is overwritten in the next line
          let d := if d.busyRetryMax = 0 then { d with success := true } else d
          some { d with success := false, busyRetryMax := d.busyRetryMax - 1 }.again
        else some { d with success := true }.again

/-- What the running task receives goes to its callback. -/
def Deployment.deliver (taskid dangling : UInt64) (d : Deployment) (resp : Option Response) :
    Option Deployment :=
  match d.phase with
  | .first => firstDeployCallback taskid d resp
  | .repeater => repeaterDeployCallback dangling d resp
  | .returned => some d

/-- The next callback of a call whose `n`-th request gets `answers n`. -/
def Deployment.next (taskid : UInt64) (dangling : ℕ → UInt64) (answers : ℕ → Option Response)
    (d : Deployment) : Option Deployment :=
  d.deliver taskid (dangling d.attempt) (answers d.attempt)

/-! ## Busy answers and failures -/

/-- The cluster's answer `busy` to a deployment of `taskid`. -/
structure Busy (taskid : UInt64) (resp : Response) : Prop where
  src : resp.src = AddrType.cluster.toUInt32
  dest : resp.dest = AddrType.management.toUInt32
  msg : resp.msg = MsgType.deploy.toUInt32
  id : resp.taskid = taskid
  deploy : ∃ deploy, resp.deploy = some deploy ∧ deploy.status = DeployStatus.busy.toUInt32

theorem Busy.answersDeploy {taskid : UInt64} {resp : Response} (h : Busy taskid resp)
    (taskid' : UInt64) : Management.answersDeploy resp taskid' = decide (taskid = taskid') := by
  simp [Management.answersDeploy, h.src, h.dest, h.msg, h.id]

/-- The repeated request `n` is answered, but the callback compares the answer with another id. -/
def Misread (taskid : UInt64) (dangling : ℕ → UInt64) (answers : ℕ → Option Response) (n : ℕ) :
    Prop :=
  (answers n).isSome ∧ dangling n ≠ taskid

section Refused

variable {taskid : UInt64} {dangling : ℕ → UInt64} {answers : ℕ → Option Response}
  {d d' : Deployment}

theorem firstDeployCallback_busy {resp : Response} (h : Busy taskid resp) (d : Deployment) :
    firstDeployCallback taskid d (some resp) = some d.again := by
  obtain ⟨deploy, hdeploy, hstatus⟩ := h.deploy
  simp [firstDeployCallback, h.answersDeploy, hdeploy, hstatus, DeployStatus.toUInt32]

theorem repeaterDeployCallback_busy {resp : Response} (h : Busy taskid resp) (d : Deployment) :
    ∃ busyRetryMax, repeaterDeployCallback taskid d (some resp) =
      some { d with
        phase := .repeater, busyRetryMax := busyRetryMax, success := false
        attempt := d.attempt + 1 } := by
  obtain ⟨deploy, hdeploy, hstatus⟩ := h.deploy
  simp only [repeaterDeployCallback, h.answersDeploy, hdeploy, hstatus, DeployStatus.toUInt32]
  by_cases hmax : d.busyRetryMax = 0
  · exact ⟨d.busyRetryMax - 1, by simp [hmax, Deployment.again]⟩
  · exact ⟨d.busyRetryMax - 1, by simp [hmax, Deployment.again]⟩

/-- A repeated request leads to the next one. -/
theorem next_repeater (hanswers : ∀ n resp, answers n = some resp → Busy taskid resp)
    (hphase : d.phase = .repeater) (hread : ¬ Misread taskid dangling answers d.attempt) :
    ∃ d', d.next taskid dangling answers = some d' ∧ d'.phase = .repeater ∧
      d'.attempt = d.attempt + 1 ∧ d'.result = d.result := by
  rw [Deployment.next, Deployment.deliver, hphase]
  cases hans : answers d.attempt with
  | none => exact ⟨_, rfl, rfl, rfl, rfl⟩
  | some resp =>
    have hdangling : dangling d.attempt = taskid := by
      by_contra hne
      exact hread ⟨by rw [hans]; rfl, hne⟩
    obtain ⟨busyRetryMax, hback⟩ := repeaterDeployCallback_busy (hanswers _ _ hans) d
    rw [hdangling]
    exact ⟨_, hback, rfl, rfl, rfl⟩

/-- A misread answer ends the call. -/
theorem next_misread (hanswers : ∀ n resp, answers n = some resp → Busy taskid resp)
    (hphase : d.phase = .repeater) (hread : Misread taskid dangling answers d.attempt) :
    ∃ d', d.next taskid dangling answers = some d' ∧ d'.phase = .returned ∧
      d'.attempt = d.attempt ∧ d'.result = d.result := by
  obtain ⟨hsome, hne⟩ := hread
  obtain ⟨resp, hans⟩ := Option.isSome_iff_exists.mp hsome
  rw [Deployment.next, Deployment.deliver, hphase, hans]
  simp only [repeaterDeployCallback, (hanswers _ _ hans).answersDeploy, Ne.symm hne]
  exact ⟨_, rfl, rfl, rfl, rfl⟩

theorem attempt_le_again (d : Deployment) : d.attempt ≤ d.again.attempt := by
  unfold Deployment.again
  split_ifs
  · exact le_refl _
  · exact Nat.le_succ _

theorem attempt_le_next (hanswers : ∀ n resp, answers n = some resp → Busy taskid resp)
    (h : d.next taskid dangling answers = some d') : d.attempt ≤ d'.attempt := by
  cases hphase : d.phase with
  | first =>
    rw [Deployment.next, Deployment.deliver, hphase] at h
    cases hans : answers d.attempt with
    | none =>
      rw [hans] at h
      cases h
      exact le_refl _
    | some resp =>
      rw [hans, firstDeployCallback_busy (hanswers _ _ hans)] at h
      cases h
      exact attempt_le_again d
  | repeater =>
    by_cases hread : Misread taskid dangling answers d.attempt
    · obtain ⟨e, he, -, hattempt, -⟩ := next_misread hanswers hphase hread
      obtain rfl := Option.some.inj (he.symm.trans h)
      omega
    · obtain ⟨e, he, -, hattempt, -⟩ := next_repeater hanswers hphase hread
      obtain rfl := Option.some.inj (he.symm.trans h)
      omega
  | returned =>
    rw [Deployment.next, Deployment.deliver, hphase] at h
    cases h
    exact le_refl _

/-! ## The bound -/

/-- Until an answer is misread, every request is followed by one more. -/
theorem iterate_repeater (hanswers : ∀ n resp, answers n = some resp → Busy taskid resp) (k : ℤ)
    (h0 : answers 0 ≠ none) {n : ℕ}
    (hread : ∀ j, 1 ≤ j → j ≤ n → ¬ Misread taskid dangling answers j) :
    ∃ d, iterate (Deployment.next taskid dangling answers) (n + 1) (.start k) = some d ∧
      d.phase = .repeater ∧ d.attempt = n + 1 ∧ d.result = -1 := by
  induction n with
  | zero =>
    obtain ⟨resp, hresp⟩ := Option.ne_none_iff_exists'.mp h0
    have hnext : (Deployment.start k).next taskid dangling answers = some (Deployment.start k).again := by
      show firstDeployCallback taskid (.start k) (answers 0) = _
      rw [hresp]
      exact firstDeployCallback_busy (hanswers 0 resp hresp) _
    rw [iterate_succ hnext]
    exact ⟨_, rfl, rfl, rfl, rfl⟩
  | succ n ih =>
    obtain ⟨d, hd, hphase, hattempt, hresult⟩ := ih fun j hj hjn => hread j hj (by omega)
    have hnot : ¬ Misread taskid dangling answers d.attempt := by
      rw [hattempt]
      exact hread (n + 1) (by omega) (le_refl _)
    obtain ⟨d', hd', hphase', hattempt', hresult'⟩ := next_repeater hanswers hphase hnot
    rw [iterate_succ_right, hd]
    exact ⟨d', hd', hphase', by omega, by omega⟩

variable (taskid dangling answers) in
/-- The call returns `-1` after at most `k + 2` requests. -/
def BoundedRetry (k : ℕ) : Prop :=
  ∃ n d, iterate (Deployment.next taskid dangling answers) n (.start k) = some d ∧
    d.phase = .returned ∧ d.attempt + 1 ≤ k + 2 ∧ d.result = -1

theorem boundedRetry_of_failure (h0 : answers 0 = none) (k : ℕ) :
    BoundedRetry taskid dangling answers k := by
  have hnext : (Deployment.start k).next taskid dangling answers =
      some { Deployment.start k with phase := .returned } := by
    show firstDeployCallback taskid (.start k) (answers 0) = _
    rw [h0]
    rfl
  exact ⟨1, _, iterate_succ hnext 0, rfl, by simp [Deployment.start], rfl⟩

open Classical in
theorem boundedRetry_of_misread (hanswers : ∀ n resp, answers n = some resp → Busy taskid resp)
    {j k : ℕ} (hj : 1 ≤ j) (hjk : j ≤ k + 1) (hread : Misread taskid dangling answers j) :
    BoundedRetry taskid dangling answers k := by
  by_cases h0 : answers 0 = none
  · exact boundedRetry_of_failure h0 k
  have hex : ∃ i, Misread taskid dangling answers (i + 1) := ⟨j - 1, by rwa [Nat.sub_add_cancel hj]⟩
  -- the first answer that is misread
  have hfirst := Nat.find_spec hex
  have hle : Nat.find hex ≤ j - 1 := Nat.find_min' hex (by rwa [Nat.sub_add_cancel hj])
  obtain ⟨d, hd, hphase, hattempt, hresult⟩ := iterate_repeater (n := Nat.find hex) hanswers k h0
    fun i hi hin => by
      have hmin := Nat.find_min hex (m := i - 1) (by omega)
      rwa [Nat.sub_add_cancel hi] at hmin
  rw [← hattempt] at hfirst
  obtain ⟨d', hd', hphase', hattempt', hresult'⟩ := next_misread hanswers hphase hfirst
  refine ⟨Nat.find hex + 1 + 1, d', ?_, hphase', by omega, by omega⟩
  rw [iterate_succ_right, hd]
  exact hd'

theorem not_boundedRetry (hanswers : ∀ n resp, answers n = some resp → Busy taskid resp) {k : ℕ}
    (h0 : answers 0 ≠ none) (hread : ∀ j, 1 ≤ j → j ≤ k + 1 → ¬ Misread taskid dangling answers j) :
    ¬ BoundedRetry taskid dangling answers k := by
  rintro ⟨n, d, hd, hphase, hattempt, -⟩
  cases n with
  | zero =>
    cases hd
    cases hphase
  | succ n =>
    by_cases hn : n ≤ k + 1
    · have hread_le (j : ℕ) (hj : 1 ≤ j) (hjn : j ≤ n) : ¬ Misread taskid dangling answers j :=
        hread j hj (hjn.trans hn)
      obtain ⟨e, he, hrepeater, -⟩ := iterate_repeater hanswers k h0 hread_le
      obtain rfl := Option.some.inj (hd.symm.trans he)
      rw [hphase] at hrepeater
      cases hrepeater
    · -- the call is past its last request already
      obtain ⟨e, he, -, hlate, -⟩ := iterate_repeater hanswers k h0 hread
      rw [show n + 1 = k + 1 + 1 + (n - (k + 1)) by omega, iterate_add, he, Option.bind_some] at hd
      have hle : k + 1 + 1 ≤ d.attempt := iterate_invariant (I := fun d => k + 1 + 1 ≤ d.attempt)
        (fun s s' hs hnext => hs.trans (attempt_le_next hanswers hnext)) hlate.ge hd
      omega

/-- **Exactly when the retry is bounded**, for a call that gets only `busy` answers and failures:
the first request fails, or an answer is misread in time. -/
theorem deployment_bounded_iff (hanswers : ∀ n resp, answers n = some resp → Busy taskid resp)
    (k : ℕ) :
    BoundedRetry taskid dangling answers k ↔
      answers 0 = none ∨ ∃ j, 1 ≤ j ∧ j ≤ k + 1 ∧ Misread taskid dangling answers j := by
  constructor
  · intro hbounded
    by_contra hno
    push Not at hno
    exact not_boundedRetry hanswers hno.1 hno.2 hbounded
  · rintro (h0 | ⟨j, hj, hjk, hread⟩)
    · exact boundedRetry_of_failure h0 k
    · exact boundedRetry_of_misread hanswers hj hjk hread

end Refused

/-- The answer `busy` of the cluster to a deployment of `5`. -/
def busyAnswer : Response :=
  ((Response.new.setType .cluster .management .deploy).setTaskid 5).setDeployStatus .busy

/-- A call whose first request fails. -/
theorem deployment_bounded_failure : BoundedRetry 5 (fun _ => 5) (fun _ => none) 0 :=
  (deployment_bounded_iff (fun _ _ h => by cases h) 0).mpr (.inl rfl)

/-- **A cluster that stays busy is asked for ever**, also when the dangling reference still finds
the id. -/
theorem busy_forever :
    (∀ n resp, (fun _ : ℕ => some busyAnswer) n = some resp → Busy 5 resp) ∧
    ¬ BoundedRetry 5 (fun _ => 5) (fun _ => some busyAnswer) 0 ∧
    ∀ n, ∃ d, iterate (Deployment.next 5 (fun _ => 5) fun _ => some busyAnswer) (n + 1) (.start 0) =
      some d ∧ d.phase = .repeater ∧ d.attempt = n + 1 := by
  have hanswers : ∀ n resp, (fun _ : ℕ => some busyAnswer) n = some resp → Busy 5 resp := by
    rintro n resp ⟨⟩
    exact ⟨rfl, rfl, rfl, rfl, _, rfl, rfl⟩
  have hread (j : ℕ) : ¬ Misread 5 (fun _ => 5) (fun _ => some busyAnswer) j := fun h => h.2 rfl
  refine ⟨hanswers, not_boundedRetry hanswers (by simp) fun j _ _ => hread j, fun n => ?_⟩
  obtain ⟨d, hd, hphase, hattempt, -⟩ :=
    iterate_repeater hanswers 0 (by simp) (n := n) fun j _ _ => hread j
  exact ⟨d, hd, hphase, hattempt⟩

end Jxtd.Management
