import Jxtd.Router.Session

/-!
# The slot after a start

* `Refused`: an answer that reports an error; `Free`: the slot is idle, it is reported as idle, and a
  start is not refused for it.
* `Slot.Coming`: data is about to be written; **`idle_foldl_iff`**: a slot that stays idle.
* `Early`, `Undeployed`, `Failed`: the ways out of a start that report an error; `CPSTART_cases`.
* **`idle_iff`**: a start that reports an error leaves the slot idle exactly when its task is not
  undeployed and no data is about to be written.
-/

namespace Jxtd.Router

open Lib Lib.Posix

/-- The answers that report an error. -/
def Refused (answer : Str) : Prop := answer = lit "AT+ENVAL" ∨ lit "AT+CPRES=-" <+: answer

/-- What is answered for a success. -/
theorem not_refused (rest : Str) : ¬ Refused (lit "AT+CPRES=0," ++ rest) := by
  rintro (heq | ⟨tail, heq⟩)
  · have hhead : (lit "AT+CPRES=0," ++ rest).take 4 = (lit "AT+ENVAL").take 4 := by rw [heq]
    revert hhead
    exact (by decide : ¬ lit "AT+C" = lit "AT+E")
  · have hhead : (lit "AT+CPRES=-" ++ tail).take 10 = (lit "AT+CPRES=0," ++ rest).take 10 := by
      rw [heq]
    revert hhead
    exact (by decide : ¬ lit "AT+CPRES=-" = lit "AT+CPRES=0")

theorem refused_running {answer : Str} (h : lit "AT+CPRES=-9" <+: answer) : Refused answer :=
  .inr ((by decide : lit "AT+CPRES=-" <+: lit "AT+CPRES=-9").trans h)

/-! ## The slot -/

namespace Slot

variable {t : Slot}

@[simp] theorem taskid_process (t : Slot) (arrival : Arrival) :
    (t.process arrival).taskid = t.taskid := by
  cases arrival with
  | found body => simp only [process]; split_ifs <;> rfl
  | written body => simp only [process]; split_ifs <;> rfl
  | failed => simp only [process]; split_ifs <;> rfl

@[simp] theorem taskid_foldl (t : Slot) (arrivals : List Arrival) :
    (arrivals.foldl process t).taskid = t.taskid := by
  induction arrivals generalizing t with
  | nil => rfl
  | cons arrival arrivals ih => rw [List.foldl_cons, ih, taskid_process]

/-- Data is about to be written: its task was found. -/
def Coming (t : Slot) : Prop := ∃ body ∈ t.writing, body ≠ []

instance (t : Slot) : Decidable t.Coming := inferInstanceAs (Decidable (∃ body ∈ t.writing, _))

/-- An idle slot where no data is about to be written. -/
theorem idle_process (h : t.Idle ∧ ¬ t.Coming) (arrival : Arrival) :
    (t.process arrival).Idle ∧ ¬ (t.process arrival).Coming := by
  obtain ⟨⟨htask, hdata⟩, hcoming⟩ := h
  cases arrival with
  | found body => exact ⟨by simp [process, htask, Taskresult.Idle, hdata], by simpa [process, htask]⟩
  | written body =>
    by_cases hbody : body ∈ t.writing
    · simp only [process, if_pos hbody]
      have hnil : body = [] := by
        by_contra hne
        exact hcoming ⟨body, hbody, hne⟩
      refine ⟨⟨htask, hnil⟩, ?_⟩
      rintro ⟨body', hmem, hne⟩
      exact hcoming ⟨body', List.mem_of_mem_erase hmem, hne⟩
    · simp only [process, if_neg hbody]
      exact ⟨⟨htask, hdata⟩, hcoming⟩
  | failed =>
    simp only [process]
    split_ifs
    · exact ⟨⟨htask, hdata⟩, hcoming⟩
    · exact ⟨⟨htask, hdata⟩, hcoming⟩

/-- **A slot stays idle**, whatever results come in, exactly when it is idle and no data is about to
be written. -/
theorem idle_foldl_iff :
    (∀ arrivals : List Arrival, (arrivals.foldl process t).Idle) ↔ t.Idle ∧ ¬ t.Coming := by
  constructor
  · intro h
    refine ⟨h [], ?_⟩
    rintro ⟨body, hbody, hne⟩
    have hwritten := (h [.written body]).2
    rw [List.foldl_cons, List.foldl_nil, process, if_pos hbody] at hwritten
    exact hne hwritten
  · intro h arrivals
    exact (List.foldlRecOn (motive := fun t : Slot => t.Idle ∧ ¬ t.Coming) arrivals _ h
      fun _ h arrival _ => idle_process h arrival).1

end Slot

namespace Session

variable {φ : Type} {ops : FileOps φ} {s : Session φ} {remote : Remote} {message : ATMessage}

/-- The answers that refuse a start without an engine. -/
def refusals : List Str :=
  [lit "AT+ENVAL", lit "AT+CPRES=-1,the model is not existed",
    lit "AT+CPRES=-4,the service is not registered"]

theorem refused_of_mem {answer : Str} (h : answer ∈ refusals) : Refused answer := by
  simp only [refusals, List.mem_cons, List.not_mem_nil, or_false] at h
  obtain rfl | rfl | rfl := h
  · exact .inl rfl
  · exact .inr (by decide)
  · exact .inr (by decide)

theorem not_running_of_mem : ∀ answer ∈ refusals, ¬ lit "AT+CPRES=-9" <+: answer := by decide

theorem orMissing_error {o : Option Taskdep.Engine} {answer : Str} (h : orMissing o = .error answer) :
    answer ∈ refusals := by
  cases o with
  | none =>
    cases h
    decide
  | some engine => cases h

theorem findEngine_error (judge temp : Str) {answer : Str}
    (h : (s.findEngine ops judge temp).1 = .error answer) : answer ∈ refusals := by
  unfold findEngine at h
  dsimp only at h
  split_ifs at h
  · exact orMissing_error h
  · exact orMissing_error h
  · split at h
    · cases h
    · exact orMissing_error h
  · cases h
    decide

/-- **What is answered before the negotiation**: a refusal, or that a task is running. -/
theorem startEngine_error {answer : Str} (h : (s.startEngine ops message).1 = .error answer) :
    answer ∈ refusals ∨ s.task.taskid ≠ 0 ∧ lit "AT+CPRES=-9" <+: answer := by
  unfold startEngine at h
  split at h
  · cases h
    exact .inl (by decide)
  · split_ifs at h with h₁ h₂ h₃ hrunning
    · cases h
      exact .inl (by decide)
    · cases h
      exact .inl (by decide)
    · cases h
      exact .inl (by decide)
    · cases h
      refine .inr ⟨hrunning, ?_⟩
      rw [List.append_assoc]
      exact (by decide : lit "AT+CPRES=-9" <+: lit "AT+CPRES=-9,").trans (List.prefix_append _ _)
    split at h
    · cases h
      exact .inl (by decide)
    · exact .inl (findEngine_error _ _ h)

/-- An idle slot is not reported as running. -/
theorem startEngine_idle (hs : s.task.Idle) {answer : Str}
    (h : (s.startEngine ops message).1 = .error answer) : ¬ lit "AT+CPRES=-9" <+: answer := by
  obtain hmem | ⟨hrunning, -⟩ := startEngine_error h
  · exact not_running_of_mem _ hmem
  · exact absurd hs.1 hrunning

theorem startEngine_refused {answer : Str} (h : (s.startEngine ops message).1 = .error answer) :
    Refused answer := by
  obtain hmem | ⟨-, hrunning⟩ := startEngine_error h
  · exact refused_of_mem hmem
  · exact refused_running hrunning

/-! ## The ways out of a start -/

/-- The start is refused before it takes the slot. -/
def Early (ops : FileOps φ) (s : Session φ) (remote : Remote) (message : ATMessage) : Prop :=
  (∃ answer, (s.startEngine ops message).1 = .error answer) ∨
    ∃ engine, (s.startEngine ops message).1 = .ok engine ∧ remote.negotiate engine = 0

/-- The management node gives a number to the task, and then does not take it. -/
def Undeployed (ops : FileOps φ) (s : Session φ) (remote : Remote) (message : ATMessage) : Prop :=
  ∃ engine, (s.startEngine ops message).1 = .ok engine ∧ remote.negotiate engine ≠ 0 ∧
    remote.deploy (remote.negotiate engine) (datasource message) startAttr = -1

/-- The slot of the task when it is deployed. -/
def deployed (s : Session φ) (remote : Remote) (engine : Taskdep.Engine) : Slot :=
  remote.deploying.foldl Slot.process
    ((remote.negotiating.foldl Slot.process s.task).set (remote.negotiate engine))

/-- A result without data ends the wait; `t` is the slot that is then given back. -/
def Failed (ops : FileOps φ) (s : Session φ) (remote : Remote) (message : ATMessage) (t : Slot) :
    Prop :=
  ∃ engine task, (s.startEngine ops message).1 = .ok engine ∧ remote.negotiate engine ≠ 0 ∧
    remote.deploy (remote.negotiate engine) (datasource message) startAttr ≠ -1 ∧
    message.param.length = 2 ∧ (s.deployed remote engine).wait remote.waiting = some task ∧
    (remote.woken.foldl Slot.process task).status = false ∧
    t = remote.leaving.foldl Slot.process (remote.woken.foldl Slot.process task)

theorem CPSTART_of_early (h : s.Early ops remote message) :
    ∃ answer, (s.CPSTART ops remote message).1 = some answer ∧ Refused answer ∧
      (s.CPSTART ops remote message).2.task = s.task := by
  unfold CPSTART
  obtain ⟨answer, hanswer⟩ | ⟨engine, hengine, hnegotiated⟩ := h
  · simp only [hanswer]
    exact ⟨answer, rfl, startEngine_refused hanswer, trivial⟩
  · simp only [hengine, if_pos hnegotiated]
    exact ⟨_, rfl, .inr (by decide), trivial⟩

theorem CPSTART_of_undeployed (h : s.Undeployed ops remote message) :
    (s.CPSTART ops remote message).1 = some (lit "AT+CPRES=-7,cannot deploy task") ∧
      (s.CPSTART ops remote message).2.task.taskid ≠ 0 := by
  obtain ⟨engine, hengine, hnegotiated, hdeployed⟩ := h
  unfold CPSTART
  simp only [hengine, if_neg hnegotiated, if_pos hdeployed]
  refine ⟨trivial, ?_⟩
  rw [Slot.taskid_foldl]
  exact hnegotiated

theorem CPSTART_of_failed {t : Slot} (h : s.Failed ops remote message t) :
    (s.CPSTART ops remote message).1 = some (lit "AT+CPRES=-8,unable to get result") ∧
      (s.CPSTART ops remote message).2.task = t.remove := by
  obtain ⟨engine, task, hengine, hnegotiated, hdeployed, hblock, hwait, hstatus, rfl⟩ := h
  rw [deployed] at hwait
  unfold CPSTART
  simp [hengine, hnegotiated, hdeployed, hblock, hwait, hstatus]

/-- **Every way out of a start** that reports an error is one of these. -/
theorem CPSTART_cases {answer : Str} (h : (s.CPSTART ops remote message).1 = some answer)
    (hrefused : Refused answer) : s.Early ops remote message ∨ s.Undeployed ops remote message ∨
      ∃ t, s.Failed ops remote message t := by
  unfold CPSTART at h
  dsimp only at h
  split at h
  · rename_i error herror
    exact .inl (.inl ⟨error, herror⟩)
  · rename_i engine hengine
    split_ifs at h with hnegotiated hdeployed hblock
    · exact .inl (.inr ⟨engine, hengine, hnegotiated⟩)
    · exact .inr (.inl ⟨engine, hengine, hnegotiated, hdeployed⟩)
    · split at h
      · cases h
      · rename_i task hwait
        split_ifs at h with hstatus
        · cases h
          exact absurd hrefused (not_refused (lit "data\r\n" ++ _ ++ _))
        · exact .inr (.inr ⟨_, engine, task, hengine, hnegotiated, hdeployed, hblock, hwait,
            Bool.eq_false_iff.mpr hstatus, rfl⟩)
    · cases h
      exact absurd hrefused (not_refused _)

/-! ## A start -/

/-- The slot is idle, the commands that ask for it answer so, and a start is not refused for it. -/
structure Free (ops : FileOps φ) (s : Session φ) : Prop where
  idle : s.task.Idle
  busy : ∀ data, s.RTBUSY ⟨.TEST, [], data⟩ = lit "AT+IDLE"
  ready : ∀ data, s.CPRDY ⟨.TEST, [], data⟩ = lit "AT+READY"
  start : ∀ remote message answer, (s.CPSTART ops remote message).1 = some answer →
    ¬ lit "AT+CPRES=-9" <+: answer

theorem free_of_idle (h : s.task.Idle) : s.Free ops where
  idle := h
  busy _ := if_pos h.1
  ready _ := if_pos h.1
  start remote message answer hanswer hrunning := by
    unfold CPSTART at hanswer
    dsimp only at hanswer
    split at hanswer
    · rename_i error herror
      cases hanswer
      exact startEngine_idle h herror hrunning
    · split_ifs at hanswer
      · cases hanswer
        exact absurd hrunning (by decide)
      · cases hanswer
        exact absurd hrunning (by decide)
      · split at hanswer
        · cases hanswer
        · split_ifs at hanswer
          · cases hanswer
            exact not_refused (lit "data\r\n" ++ _ ++ _) (refused_running hrunning)
          · cases hanswer
            exact absurd hrunning (by decide)
      · cases hanswer
        exact not_refused _ (refused_running hrunning)

/-- Results come in. -/
def arrive (s : Session φ) (arrivals : List Arrival) : Session φ :=
  { s with task := arrivals.foldl Slot.process s.task }

/-- **A start that reports an error** leaves the slot idle, and so it stays until another start,
exactly when its task is not undeployed and no data is about to be written as it leaves: that way
out does not give the slot back, and data is written without asking for the task again. -/
theorem idle_iff (hs : s.task.Idle) :
    (∀ answer arrivals, (s.CPSTART ops remote message).1 = some answer → Refused answer →
      ((s.CPSTART ops remote message).2.arrive arrivals).Free ops) ↔
    ¬ s.Undeployed ops remote message ∧ (s.Early ops remote message → ¬ s.task.Coming) ∧
      ∀ t, s.Failed ops remote message t → ¬ t.Coming := by
  constructor
  · intro h
    refine ⟨fun hundeployed => ?_, fun hearly => ?_, fun t hfailed => ?_⟩
    · obtain ⟨hanswer, htask⟩ := CPSTART_of_undeployed hundeployed
      exact htask (h _ [] hanswer (.inr (by decide))).idle.1
    · obtain ⟨answer, hanswer, hrefused, htask⟩ := CPSTART_of_early hearly
      refine (Slot.idle_foldl_iff.mp fun arrivals => ?_).2
      rw [← htask]
      exact (h answer arrivals hanswer hrefused).idle
    · obtain ⟨hanswer, htask⟩ := CPSTART_of_failed hfailed
      refine (Slot.idle_foldl_iff (t := t.remove).mp fun arrivals => ?_).2
      rw [← htask]
      exact (h _ arrivals hanswer (.inr (by decide))).idle
  · rintro ⟨hdeployed, hearly, hfailed⟩ answer arrivals hanswer hrefused
    refine free_of_idle (Slot.idle_foldl_iff.mpr ?_ arrivals)
    obtain h | h | ⟨t, h⟩ := CPSTART_cases hanswer hrefused
    · obtain ⟨-, -, -, htask⟩ := CPSTART_of_early h
      rw [htask]
      exact ⟨hs, hearly h⟩
    · exact absurd h hdeployed
    · rw [(CPSTART_of_failed h).2]
      exact ⟨⟨rfl, rfl⟩, hfailed t h⟩

/-- A session with one model of the cloud. -/
def cloudSession : Session Unit where
  user := lit "u"
  engineCloud := [(lit "m", lit "7")]
  files := ()

/-- No file can be used. -/
def noFiles : FileOps Unit :=
  ⟨fun _ _ => (false, ()), fun _ _ => (false, ()), fun _ _ => (false, ()),
    fun _ _ _ => (false, ()), fun _ _ => (none, ())⟩

/-- The start of a task with the model of the cloud. -/
def startCloud : ATMessage := ⟨.CMD, [lit "mid_7", lit "x"], []⟩

/-- A management node that gives a number and takes no task. -/
def unwilling : Remote where
  negotiate _ := 5
  deploy _ _ _ := -1

/-- A result with data and one without are put for a task that is taken; the one with data is
written before the slot is given back. -/
def willing : Remote where
  negotiate _ := 5
  deploy _ _ _ := 0
  deploying := [.found (lit "y"), .found []]
  waiting := [.written [], .failed]
  leaving := [.written (lit "y")]

/-- The slot is given back before the data is written. -/
def overtaken : Remote := { willing with leaving := [] }

/-- The data of `willing` is cleared with the slot. -/
theorem idle_iff_willing :
    (∀ answer arrivals, (cloudSession.CPSTART noFiles willing startCloud).1 = some answer →
      Refused answer →
        ((cloudSession.CPSTART noFiles willing startCloud).2.arrive arrivals).Free noFiles) ∧
    (cloudSession.CPSTART noFiles willing startCloud).1 =
      some (lit "AT+CPRES=-8,unable to get result") := by
  refine ⟨(idle_iff ⟨rfl, rfl⟩).mpr ⟨?_, fun _ => by decide, ?_⟩, by decide +kernel⟩
  · rintro ⟨engine, -, -, hdeployed⟩
    exact (by decide : ¬ (0 : ℤ) = -1) hdeployed
  · rintro t ⟨engine, task, hengine, -, -, -, hwait, -, rfl⟩
    cases hengine
    cases hwait
    decide

/-- **A task that is not deployed** keeps the slot, and data that is written late is left in it. -/
theorem undeployed_busy :
    (¬ ∀ (s : Session Unit) (remote : Remote) (message : ATMessage), s.task.Idle →
      ∀ answer, (s.CPSTART noFiles remote message).1 = some answer → Refused answer →
        (s.CPSTART noFiles remote message).2.task.Idle) ∧
    ¬ ∀ (s : Session Unit) (remote : Remote) (message : ATMessage), s.task.Idle →
      ¬ s.Undeployed noFiles remote message → ∀ answer arrivals,
        (s.CPSTART noFiles remote message).1 = some answer → Refused answer →
          ((s.CPSTART noFiles remote message).2.arrive arrivals).task.Idle := by
  constructor
  · intro h
    have hundeployed : cloudSession.Undeployed noFiles unwilling startCloud :=
      ⟨{ Taskdep.Engine.new with id := lit "7", name := lit "m" }, rfl, by decide, rfl⟩
    obtain ⟨hanswer, htask⟩ := CPSTART_of_undeployed hundeployed
    exact htask (h _ _ _ ⟨rfl, rfl⟩ _ hanswer (.inr (by decide))).1
  · intro h
    have hdeployed : ¬ cloudSession.Undeployed noFiles overtaken startCloud := by
      rintro ⟨engine, -, -, hdeployed⟩
      exact (by decide : ¬ (0 : ℤ) = -1) hdeployed
    have hlate := h cloudSession overtaken startCloud ⟨rfl, rfl⟩ hdeployed
      (lit "AT+CPRES=-8,unable to get result") [.written (lit "y")] (by decide +kernel)
      (.inr (by decide))
    revert hlate
    decide +kernel

end Session

end Jxtd.Router
