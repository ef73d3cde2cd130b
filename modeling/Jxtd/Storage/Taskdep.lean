import Jxtd.Lib.Lease
import Jxtd.Storage.Datamanagement

/-!
# The taskdep server of the storage

`process` answers one request. What it does is read off the reply alone: `Event.effect` says for a
request with its reply who has taken or given up a task id.

* `neogiate`, `release`: the locked parts of the branches of `process`.
* **`process_cases`**: everything that one request can do.
* `serve`: a sequence of requests, each with the number that `random_uint64_t` would give.
-/

namespace Jxtd.Storage

open Lib Taskdep

def anonymousMid : Str := lit "0000aaaa"

/-- The storage node: the manager and the state of its file operations. -/
structure State (σ : Type) where
  dManager : Datamanager
  fs : σ

/-- The name under which the engine of a negotiation is bound. -/
def engineKey (taskid : UInt64) (engine : Engine) : Str × Str :=
  if engine.binary ≠ [] then (anonymousMid, decimal taskid.toNat) else (engine.id, engine.name)

variable {σ : Type} (ops : Operations σ)

/-- The negotiation of a free task id, under the lock. -/
def accept (st : State σ) (taskid : UInt64) (engine : Engine) : State σ :=
  let (mid, name) := engineKey taskid engine
  let fs :=
    if engine.binary ≠ [] then (st.dManager.enginePush ops st.fs mid name engine.binary).2
    else st.fs
  let d := st.dManager.taskBind taskid (mid, name) engine.deps
  ⟨if engine.extfiles ≠ [] then d.addExtfiles taskid engine.extfiles else d, fs⟩

/-- The negotiation under the lock. -/
def neogiate (random : UInt64) (st : State σ) (taskid : UInt64) (engine : Engine)
    (resp : Response) : Response × State σ :=
  if st.dManager.taskExist taskid then
    ((resp.setNeogiateStatus .conflict).addNeogiateAlternative random, st)
  else (resp.setNeogiateStatus .succeed, accept ops st taskid engine)

/-- What `terminate` and `done` do under the lock. -/
def release (st : State σ) (taskid : UInt64) : State σ :=
  let st :=
    match st.dManager.getTaskEngine taskid with
    | none => st
    | some engine =>
      let fs :=
        if engine.1.1 = anonymousMid then
          st.dManager.engineRemove ops st.fs anonymousMid (decimal taskid.toNat)
        else st.fs
      ⟨st.dManager.taskUnbind taskid, fs⟩
  if st.dManager.extfilesExist taskid then
    { st with dManager := st.dManager.removeExtfiles taskid }
  else st

/-- `process`; no response stands for `noreply`. -/
def process (endpoint : Endpoint) (random : UInt64) (st : State σ) (req : Request) :
    Option Response × State σ :=
  if !st.dManager.isInit then (none, st)
  else if req.src = AddrType.management.toUInt32 then
    match req.object.management with
    | none => (none, st)
    | some management =>
      if req.dest ≠ AddrType.storage.toUInt32 then (none, st)
      else if req.msg = MsgType.neogiate.toUInt32 then
        match req.engine with
        | none => (none, st)
        | some engine =>
          let resp := Response.new.setType .storage .management .neogiate
          let (resp, st) := neogiate ops random st req.taskid engine resp
          (some (((resp.setTaskid req.taskid).setObjectManagement management).setObjectStorage
            endpoint), st)
      else if req.msg = MsgType.terminate.toUInt32 then
        let resp := Response.new.setType .storage .management .terminate
        (some (((resp.setTaskid req.taskid).setObjectManagement management).setObjectStorage
          endpoint), release ops st req.taskid)
      else (none, st)
  else if req.src = AddrType.cluster.toUInt32 then
    if req.dest ≠ AddrType.storage.toUInt32 ∨ req.msg ≠ MsgType.done.toUInt32 then (none, st)
    else
      match req.object.cluster with
      | none => (none, st)
      | some cluster =>
        let resp := (Response.new.setTaskid req.taskid).setType .storage .cluster .done
        (some ((resp.setObjectCluster cluster).setObjectStorage endpoint),
          release ops st req.taskid)
  else (none, st)

/-! ## Requests and their replies -/

/-- A request that was processed, with its reply. -/
structure Event where
  request : Request
  reply : Option Response

namespace Event

/-- The request was a negotiation for `taskid` and was answered `succeed`. -/
def Succeeds (e : Event) (taskid : UInt64) : Prop :=
  e.request.taskid = taskid ∧ ∃ r, e.reply = some r ∧ r.msg = MsgType.neogiate.toUInt32 ∧
    ∃ n, r.neogiate = some n ∧ n.status = NeogiateStatus.succeed.toUInt32

/-- The request was a negotiation and was answered `conflict`. -/
def Conflicts (e : Event) : Prop :=
  ∃ r, e.reply = some r ∧ r.msg = MsgType.neogiate.toUInt32 ∧
    ∃ n, r.neogiate = some n ∧ n.status = NeogiateStatus.conflict.toUInt32

/-- The request was a `terminate` or `done` for `taskid` and was processed. -/
def Releases (e : Event) (taskid : UInt64) : Prop :=
  e.request.taskid = taskid ∧ ∃ r, e.reply = some r ∧
    (r.msg = MsgType.terminate.toUInt32 ∨ r.msg = MsgType.done.toUInt32)

/-- What the request did to the task ids. -/
def effect (e : Event) : Lease.Effect UInt64 Engine :=
  match e.reply with
  | none => .none
  | some r =>
    if r.msg = MsgType.neogiate.toUInt32 then
      match r.neogiate, e.request.engine with
      | some n, some engine =>
        if n.status = NeogiateStatus.succeed.toUInt32 then .acquire e.request.taskid engine
        else .none
      | _, _ => .none
    else if r.msg = MsgType.terminate.toUInt32 ∨ r.msg = MsgType.done.toUInt32 then
      .release e.request.taskid
    else .none

theorem effect_release_iff {e : Event} {taskid : UInt64} :
    e.effect = .release taskid ↔ e.Releases taskid := by
  obtain ⟨req, reply⟩ := e
  cases reply with
  | none => simp [effect, Releases]
  | some r =>
    by_cases hm : r.msg = MsgType.neogiate.toUInt32
    · have h₁ : MsgType.neogiate.toUInt32 ≠ MsgType.terminate.toUInt32 := by decide
      have h₂ : MsgType.neogiate.toUInt32 ≠ MsgType.done.toUInt32 := by decide
      simp only [effect, Releases, hm, if_true, Option.some.injEq, exists_eq_left', h₁, h₂,
        or_self, and_false, iff_false]
      split
      · split_ifs <;> simp
      · simp
    · simp only [effect, Releases, hm, if_false, Option.some.injEq, exists_eq_left']
      split_ifs with hr
      · simp [hr]
      · simp [hr]

theorem effect_acquire_iff {e : Event} {taskid : UInt64} {engine : Engine} :
    e.effect = .acquire taskid engine ↔ e.Succeeds taskid ∧ e.request.engine = some engine := by
  obtain ⟨req, reply⟩ := e
  cases reply with
  | none => simp [effect, Succeeds]
  | some r =>
    by_cases hm : r.msg = MsgType.neogiate.toUInt32
    · cases hn : r.neogiate with
      | none => simp [effect, Succeeds, hm, hn]
      | some n =>
        cases he : req.engine with
        | none => simp [effect, Succeeds, hm, hn, he]
        | some engine' =>
          by_cases hs : n.status = NeogiateStatus.succeed.toUInt32
          · simp [effect, Succeeds, hm, hn, he, hs]
          · simp [effect, Succeeds, hm, hn, he, hs]
    · simp only [effect, Succeeds, hm, if_false, Option.some.injEq, exists_eq_left', false_and,
        and_false, iff_false]
      split_ifs <;> simp

end Event

/-! ## What one request does -/

section Step

variable {ops} {st : State σ} {req : Request}

/-- The outcome of a request does what its reply says. -/
def Does (ops : Operations σ) (st : State σ) (req : Request) (out : Option Response × State σ) :
    Prop :=
  match (Event.mk req out.1).effect with
  | .none => out.2 = st
  | .acquire taskid engine =>
    st.dManager.taskExist taskid = false ∧ out.2 = accept ops st taskid engine
  | .release taskid => out.2 = release ops st taskid

variable {out : Option Response × State σ}

theorem Does.none (h : Does ops st req out) (heff : (Event.mk req out.1).effect = .none) :
    out.2 = st := by
  rwa [Does, heff] at h

theorem Does.acquire (h : Does ops st req out) {taskid : UInt64} {engine : Engine}
    (heff : (Event.mk req out.1).effect = .acquire taskid engine) :
    st.dManager.taskExist taskid = false ∧ out.2 = accept ops st taskid engine := by
  rwa [Does, heff] at h

theorem Does.release (h : Does ops st req out) {taskid : UInt64}
    (heff : (Event.mk req out.1).effect = .release taskid) :
    out.2 = Storage.release ops st taskid := by
  rwa [Does, heff] at h

theorem does_noreply : Does ops st req (none, st) := rfl

theorem does_release {r : Response}
    (h : r.msg = MsgType.terminate.toUInt32 ∨ r.msg = MsgType.done.toUInt32) :
    Does ops st req (some r, release ops st req.taskid) := by
  have he : (Event.mk req (some r)).effect = .release req.taskid :=
    Event.effect_release_iff.mpr ⟨rfl, r, rfl, h⟩
  unfold Does
  rw [he]

theorem does_succeed {r : Response} {engine : Engine} (hengine : req.engine = some engine)
    (hmsg : r.msg = MsgType.neogiate.toUInt32)
    (hstatus : r.neogiate = some ⟨NeogiateStatus.succeed.toUInt32, [], []⟩)
    (hfree : st.dManager.taskExist req.taskid = false) :
    Does ops st req (some r, accept ops st req.taskid engine) := by
  have he : (Event.mk req (some r)).effect = .acquire req.taskid engine :=
    Event.effect_acquire_iff.mpr ⟨⟨rfl, r, rfl, hmsg, _, hstatus, rfl⟩, hengine⟩
  unfold Does
  rw [he]
  exact ⟨hfree, rfl⟩

theorem does_conflict {r : Response} {random : UInt64} (hmsg : r.msg = MsgType.neogiate.toUInt32)
    (hstatus : r.neogiate = some ⟨NeogiateStatus.conflict.toUInt32, [], [random]⟩) :
    Does ops st req (some r, st) := by
  have he : (Event.mk req (some r)).effect = .none := by
    unfold Event.effect
    cases req.engine <;> simp [hmsg, hstatus, NeogiateStatus.toUInt32]
  unfold Does
  rw [he]

variable (ops) in
/-- **Everything that one request can do**, read off its reply. -/
theorem process_does (endpoint : Endpoint) (random : UInt64) (st : State σ) (req : Request) :
    Does ops st req (process ops endpoint random st req) := by
  unfold process
  split
  · exact does_noreply
  split
  · split
    · exact does_noreply
    split
    · exact does_noreply
    split
    · split
      · exact does_noreply
      rename_i engine hengine
      unfold neogiate
      cases hex : st.dManager.taskExist req.taskid with
      | true => exact does_conflict rfl rfl
      | false => exact does_succeed hengine rfl rfl hex
    split
    · exact does_release (.inl rfl)
    · exact does_noreply
  split
  · split
    · exact does_noreply
    split
    · exact does_noreply
    · exact does_release (.inr rfl)
  · exact does_noreply

/-- **A reply has the type of its request**, and one to a negotiation with an engine has a status. -/
theorem process_reply {endpoint : Endpoint} {random : UInt64} {st : State σ} {req : Request}
    {r : Response} (h : (process ops endpoint random st req).1 = some r) :
    r.msg = req.msg ∧ (req.msg = MsgType.neogiate.toUInt32 →
      ∃ engine n, req.engine = some engine ∧ r.neogiate = some n) := by
  have hother {m : MsgType} (hm : m ≠ .neogiate) (hreq : req.msg = m.toUInt32) :
      req.msg ≠ MsgType.neogiate.toUInt32 := by
    rw [hreq]
    revert hm
    cases m <;> decide
  unfold process at h
  split at h
  · cases h
  split at h
  · split at h
    · cases h
    split at h
    · cases h
    split at h
    · rename_i hreq
      split at h
      · cases h
      rename_i engine hengine
      unfold neogiate at h
      split_ifs at h
      · cases h
        exact ⟨hreq.symm, fun _ => ⟨engine, _, hengine, rfl⟩⟩
      · cases h
        exact ⟨hreq.symm, fun _ => ⟨engine, _, hengine, rfl⟩⟩
    split at h
    · rename_i hreq
      cases h
      exact ⟨hreq.symm, fun hn => absurd hn (hother (by decide) hreq)⟩
    · cases h
  split at h
  · split at h
    · cases h
    rename_i hnot
    have hreq : req.msg = MsgType.done.toUInt32 := not_not.mp (not_or.mp hnot).2
    split at h
    · cases h
    · cases h
      exact ⟨hreq.symm, fun hn => absurd hn (hother (by decide) hreq)⟩
  · cases h

/-- A reply to a negotiation has its status, and the request was one and had an engine. -/
theorem process_neogiate {endpoint : Endpoint} {random : UInt64} {st : State σ} {req : Request}
    {r : Response} (h : (process ops endpoint random st req).1 = some r)
    (hmsg : r.msg = MsgType.neogiate.toUInt32) :
    req.msg = MsgType.neogiate.toUInt32 ∧
      ∃ engine n, req.engine = some engine ∧ r.neogiate = some n := by
  obtain ⟨hsame, hengine⟩ := process_reply h
  rw [hsame] at hmsg
  exact ⟨hmsg, hengine hmsg⟩

end Step

end Jxtd.Storage
