import Jxtd.Storage.EngineArea

/-!
# The task state of the storage

Three stores hold what a negotiation brings: the table of bound tasks, the table of their extra
files, and the file of an engine that came without a name. Each is a function of the requests and
replies so far.

* `holders`: who has which task id, read off the replies.
* `EngineTable`, `ExtfileTable`, `AnonymousFiles`: the three stores, each with its step lemma.
* **`task_state`**: what holds after every sequence of requests.
-/

namespace Jxtd.Storage

open Lib Taskdep

/-- The negotiations that bind a task id, after the requests of `log`. -/
def holders (log : List Event) : UInt64 → Option Engine := Lease.holder (log.map Event.effect)

theorem holders_concat (log : List Event) (e : Event) :
    holders (log ++ [e]) = Lease.step (holders log) e.effect := by
  rw [holders, List.map_append]
  exact Lease.holder_concat ..

/-! ## The tables -/

section Tables

variable {σ : Type} {ops : Operations σ} {st : State σ}

theorem getTaskEngine_accept {t : UInt64} (hfree : st.dManager.taskExist t = false) (e : Engine) :
    (accept ops st t e).dManager.getTaskEngine =
      Function.update st.dManager.getTaskEngine t (some (engineKey t e, e.deps)) := by
  rw [← Datamanager.getTaskEngine_taskBind hfree]
  unfold accept
  dsimp only
  split_ifs
  · exact Datamanager.getTaskEngine_addExtfiles ..
  · rfl

/-- The extra files that an engine leaves in the table. -/
def extfilesOf (e : Engine) : Option (List Extfile) :=
  if e.extfiles ≠ [] then some e.extfiles else none

theorem getTaskExtfiles_accept {t : UInt64} (hnone : st.dManager.getTaskExtfiles t = none)
    (e : Engine) :
    (accept ops st t e).dManager.getTaskExtfiles =
      Function.update st.dManager.getTaskExtfiles t (extfilesOf e) := by
  unfold accept extfilesOf
  dsimp only
  split_ifs
  · rw [Datamanager.getTaskExtfiles_addExtfiles (by simpa using hnone),
      Datamanager.getTaskExtfiles_taskBind]
  · rw [Datamanager.getTaskExtfiles_taskBind]
    exact (Function.update_eq_self_iff.mpr hnone.symm).symm

theorem getTaskEngine_release (t : UInt64) :
    (release ops st t).dManager.getTaskEngine =
      Function.update st.dManager.getTaskEngine t none := by
  unfold release
  cases hg : st.dManager.getTaskEngine t with
  | none =>
    have hself : Function.update st.dManager.getTaskEngine t none = st.dManager.getTaskEngine :=
      Function.update_eq_self_iff.mpr hg.symm
    rw [hself]
    dsimp only
    split_ifs <;> rfl
  | some engine =>
    rw [← Datamanager.getTaskEngine_taskUnbind]
    dsimp only
    split_ifs <;> rfl

theorem getTaskExtfiles_release (t : UInt64) :
    (release ops st t).dManager.getTaskExtfiles =
      Function.update st.dManager.getTaskExtfiles t none := by
  have hkeep (st' : State σ) (h : st'.dManager.getTaskExtfiles = st.dManager.getTaskExtfiles) :
      (if st'.dManager.extfilesExist t then
        { st' with dManager := st'.dManager.removeExtfiles t } else st').dManager.getTaskExtfiles =
        Function.update st.dManager.getTaskExtfiles t none := by
    rw [← h]
    split_ifs with hex
    · exact Datamanager.getTaskExtfiles_removeExtfiles ..
    · rw [Datamanager.extfilesExist_eq, Option.isSome_iff_ne_none, not_not] at hex
      exact (Function.update_eq_self_iff.mpr hex.symm).symm
  unfold release
  cases st.dManager.getTaskEngine t with
  | none => exact hkeep st rfl
  | some engine => exact hkeep _ rfl

/-- The tables are those of the negotiations in force. -/
structure Tables (d : Datamanager) (log : List Event) : Prop where
  engine : d.getTaskEngine = fun t => (holders log t).map fun e => (engineKey t e, e.deps)
  extfiles : d.getTaskExtfiles = fun t => (holders log t).bind extfilesOf

theorem tables_nil {d : Datamanager} (hengine : d.taskEngine = ∅) (hextfiles : d.taskExtfiles = ∅) :
    Tables d [] := by
  constructor
  · funext t
    rw [Datamanager.getTaskEngine, hengine]
    rfl
  · funext t
    rw [Datamanager.getTaskExtfiles, hextfiles]
    rfl

theorem Tables.taskExist {d : Datamanager} {log : List Event} (h : Tables d log) (t : UInt64) :
    d.taskExist t = (holders log t).isSome := by
  rw [Datamanager.taskExist_eq, h.engine, Option.isSome_map]

/-- **One request keeps the tables in step with the replies.** -/
theorem Tables.step {log : List Event} (h : Tables st.dManager log) {req : Request}
    {out : Option Response × State σ} (hdoes : Does ops st req out) :
    Tables out.2.dManager (log ++ [⟨req, out.1⟩]) := by
  have hlog := holders_concat log ⟨req, out.1⟩
  cases heff : (Event.mk req out.1).effect with
  | none =>
    rw [heff] at hlog
    rw [hdoes.none heff]
    exact ⟨by rw [hlog]; exact h.engine, by rw [hlog]; exact h.extfiles⟩
  | acquire t e =>
    rw [heff] at hlog
    obtain ⟨hfree, hout⟩ := hdoes.acquire heff
    have hnone : st.dManager.getTaskExtfiles t = none := by
      rw [h.taskExist, Option.isSome_eq_false_iff, Option.isNone_iff_eq_none] at hfree
      rw [congrFun h.extfiles t, hfree, Option.bind_none]
    constructor
    · rw [hout, getTaskEngine_accept hfree, hlog, h.engine]
      exact (Lease.read_acquire (fun k => Option.map fun e => (engineKey k e, e.deps)) _ t e).symm
    · rw [hout, getTaskExtfiles_accept hnone, hlog, h.extfiles]
      exact (Lease.read_acquire (fun _ o => o.bind extfilesOf) _ t e).symm
  | release t =>
    rw [heff] at hlog
    rw [hdoes.release heff]
    constructor
    · rw [getTaskEngine_release, hlog, h.engine]
      exact (Lease.read_release (fun k => Option.map fun e => (engineKey k e, e.deps)) _ t).symm
    · rw [getTaskExtfiles_release, hlog, h.extfiles]
      exact (Lease.read_release (fun _ o => o.bind extfilesOf) _ t).symm

@[simp] theorem rootPath_accept (t : UInt64) (e : Engine) :
    (accept ops st t e).dManager.rootPath = st.dManager.rootPath := by
  unfold accept Datamanager.addExtfiles Datamanager.taskBind
  dsimp only
  split_ifs <;> rfl

@[simp] theorem rootPath_release (t : UInt64) :
    (release ops st t).dManager.rootPath = st.dManager.rootPath := by
  unfold release
  split <;> dsimp only <;> split_ifs <;> rfl

end Tables

/-! ## The files -/

section Files

open Posix

variable {st : State Fs} {dir : Path} {log : List Event}

/-- The anonymous files are those of the negotiations in force. -/
structure AnonymousFiles (d : Datamanager) (fs : Fs) (dir : Path) (log : List Event) : Prop where
  area : EngineArea d fs dir
  node : ∀ t, fs.node (dir ++ [anonymousFile t]) =
    (holders log t).bind fun e => if e.binary ≠ [] then some (.file e.binary) else none

theorem fs_accept (t : UInt64) (e : Engine) :
    (accept localFileoperations st t e).fs =
      if e.binary ≠ [] then
        (st.dManager.enginePush localFileoperations st.fs anonymousMid (decimal t.toNat)
          e.binary).2
      else st.fs := by
  unfold accept engineKey
  dsimp only
  split_ifs <;> rfl

theorem fs_release (t : UInt64) :
    (release localFileoperations st t).fs =
      match st.dManager.getTaskEngine t with
      | none => st.fs
      | some engine =>
        if engine.1.1 = anonymousMid then
          st.dManager.engineRemove localFileoperations st.fs anonymousMid (decimal t.toNat)
        else st.fs := by
  unfold release
  cases st.dManager.getTaskEngine t <;> dsimp only <;> split_ifs <;> rfl

theorem AnonymousFiles.accept (h : AnonymousFiles st.dManager st.fs dir log) {t : UInt64}
    (hfree : holders log t = none) (e : Engine) :
    EngineArea st.dManager (accept localFileoperations st t e).fs dir ∧
      ∀ t', (accept localFileoperations st t e).fs.node (dir ++ [anonymousFile t']) =
        (Function.update (holders log) t (some e) t').bind fun e =>
          if e.binary ≠ [] then some (.file e.binary) else none := by
  have hnone : st.fs.node (dir ++ [anonymousFile t]) = none := by rw [h.node, hfree, Option.bind_none]
  rw [fs_accept]
  split_ifs with he
  · rw [enginePush_new (h.area.resolve_anonymous t) hnone]
    refine ⟨h.area.keepsDirs (Fs.grows_set hnone _).keepsDirs rfl, fun t' => ?_⟩
    rcases eq_or_ne t' t with rfl | hne
    · rw [Fs.node_set _ (Fs.ne_nil_of_node_none hnone), Function.update_self, Option.bind_some,
        if_pos he]
    · rw [Fs.node_set_ne _ (anonymous_ne hne dir), Function.update_of_ne hne, h.node]
  · refine ⟨h.area, fun t' => ?_⟩
    rcases eq_or_ne t' t with rfl | hne
    · rw [hnone, Function.update_self, Option.bind_some, if_neg he]
    · rw [Function.update_of_ne hne, h.node]

theorem AnonymousFiles.release (h : AnonymousFiles st.dManager st.fs dir log)
    (htables : Tables st.dManager log) (t : UInt64) :
    EngineArea st.dManager (release localFileoperations st t).fs dir ∧
      ∀ t', (release localFileoperations st t).fs.node (dir ++ [anonymousFile t']) =
        (Function.update (holders log) t none t').bind fun e =>
          if e.binary ≠ [] then some (.file e.binary) else none := by
  -- nothing changes when the task has no anonymous file
  have hkeep (hnone : st.fs.node (dir ++ [anonymousFile t]) = none) :
      ∀ t', st.fs.node (dir ++ [anonymousFile t']) =
        (Function.update (holders log) t none t').bind fun e =>
          if e.binary ≠ [] then some (.file e.binary) else none := by
    intro t'
    rcases eq_or_ne t' t with rfl | hne
    · rw [hnone, Function.update_self, Option.bind_none]
    · rw [Function.update_of_ne hne, h.node]
  have hnode := h.node t
  have hget := congrFun htables.engine t
  rw [fs_release]
  cases hh : holders log t with
  | none =>
    rw [hh, Option.bind_none] at hnode
    rw [hget, hh]
    exact ⟨h.area, hkeep hnode⟩
  | some e =>
    rw [hh, Option.bind_some] at hnode
    rw [hh, Option.map_some] at hget
    simp only [hget]
    by_cases he : e.binary ≠ []
    · rw [if_pos he] at hnode
      rw [if_pos (by rw [engineKey, if_pos he]),
        engineRemove_file (h.area.resolve_anonymous t) hnode]
      have hdir : ¬ st.fs.IsDir (dir ++ [anonymousFile t]) := fun hd => by
        rw [Fs.IsDir, hnode] at hd
        cases hd
      refine ⟨h.area.keepsDirs (Fs.keepsDirs_del hdir) rfl, fun t' => ?_⟩
      rcases eq_or_ne t' t with rfl | hne
      · rw [Fs.node_del _ (Fs.ne_nil_of_node_file hnode), Function.update_self, Option.bind_none]
      · rw [Fs.node_del_ne _ (anonymous_ne hne dir), Function.update_of_ne hne, h.node]
    · rw [if_neg he] at hnode
      -- an id that happens to be the anonymous one: there is no file to remove
      rw [engineRemove_other (h.area.resolve_anonymous t) (by simp [hnode]), ite_self]
      exact ⟨h.area, hkeep hnode⟩

/-- **One request keeps the anonymous files in step with the replies.** -/
theorem AnonymousFiles.step (h : AnonymousFiles st.dManager st.fs dir log)
    (htables : Tables st.dManager log) {req : Request} {out : Option Response × State Fs}
    (hdoes : Does localFileoperations st req out) :
    AnonymousFiles out.2.dManager out.2.fs dir (log ++ [⟨req, out.1⟩]) := by
  have hlog := holders_concat log ⟨req, out.1⟩
  cases heff : (Event.mk req out.1).effect with
  | none =>
    rw [heff] at hlog
    rw [hdoes.none heff]
    exact ⟨h.area, by rw [hlog]; exact h.node⟩
  | acquire t e =>
    rw [heff] at hlog
    obtain ⟨hfree, hout⟩ := hdoes.acquire heff
    rw [htables.taskExist, Option.isSome_eq_false_iff, Option.isNone_iff_eq_none] at hfree
    obtain ⟨harea, hnode⟩ := h.accept hfree e
    rw [hout]
    exact ⟨harea.keepsDirs (.refl _) (rootPath_accept t e), by rw [hlog]; exact hnode⟩
  | release t =>
    rw [heff] at hlog
    obtain ⟨harea, hnode⟩ := h.release htables t
    rw [hdoes.release heff]
    exact ⟨harea.keepsDirs (.refl _) (rootPath_release t), by rw [hlog]; exact hnode⟩

end Files

/-! ## Sequences of requests -/

/-- One more request of a sequence, with the number that `random_uint64_t` gives. -/
def serveOne {σ : Type} (ops : Operations σ) (endpoint : Endpoint) (x : State σ × List Event)
    (i : Request × UInt64) : State σ × List Event :=
  let out := process ops endpoint i.2 x.1 i.1
  (out.2, x.2 ++ [⟨i.1, out.1⟩])

/-- The state after a sequence of requests, and the requests with their replies. -/
def serve {σ : Type} (ops : Operations σ) (endpoint : Endpoint) (st : State σ)
    (reqs : List (Request × UInt64)) : State σ × List Event :=
  reqs.foldl (serveOne ops endpoint) (st, [])

section Serve

variable {st : State Posix.Fs} {dir : Posix.Path}

theorem serve_invariant (h : Fresh st.dManager st.fs dir) (endpoint : Endpoint)
    (reqs : List (Request × UInt64)) :
    Tables (serve localFileoperations endpoint st reqs).1.dManager
        (serve localFileoperations endpoint st reqs).2 ∧
      AnonymousFiles (serve localFileoperations endpoint st reqs).1.dManager
        (serve localFileoperations endpoint st reqs).1.fs dir
        (serve localFileoperations endpoint st reqs).2 := by
  have hfiles : AnonymousFiles st.dManager st.fs dir [] := ⟨h.area, fun t => h.empty _⟩
  refine List.foldlRecOn reqs (serveOne localFileoperations endpoint) (b := (st, []))
    (motive := fun x => Tables x.1.dManager x.2 ∧ AnonymousFiles x.1.dManager x.1.fs dir x.2)
    ⟨tables_nil h.taskEngine h.taskExtfiles, hfiles⟩ fun x hx i _ => ?_
  have hdoes := process_does localFileoperations endpoint i.2 x.1 i.1
  exact ⟨hx.1.step hdoes, hx.2.step hx.1 hdoes⟩

/-- A request with no reply, or one that is answered `conflict`, changes nothing. -/
theorem process_unchanged {σ : Type} {ops : Operations σ} {endpoint : Endpoint} {random : UInt64}
    {st : State σ} {req : Request}
    (h : (process ops endpoint random st req).1 = none ∨
      (Event.mk req (process ops endpoint random st req).1).Conflicts) :
    (process ops endpoint random st req).2 = st := by
  have hdoes := process_does ops endpoint random st req
  have heff : (Event.mk req (process ops endpoint random st req).1).effect = .none := by
    rcases h with h | ⟨r, hr, hmsg, n, hn, hs⟩
    · rw [h]
      rfl
    · have hr' : (process ops endpoint random st req).1 = some r := hr
      rw [hr']
      unfold Event.effect
      cases req.engine <;> simp [hmsg, hn, hs, NeogiateStatus.toUInt32]
  exact hdoes.none heff

/-- **The task state of the storage.** After every sequence of requests the extra files belong to
bound tasks, the bound tasks with their dependencies and extra files are those of the negotiations
in force, the anonymous file of a task is there exactly while it is bound by a negotiation that
carried a binary, and holds it; and a request that is answered `conflict` or not at all changes
nothing. -/
theorem task_state (h : Fresh st.dManager st.fs dir) (endpoint : Endpoint)
    (reqs : List (Request × UInt64)) :
    let x := serve localFileoperations endpoint st reqs
    (∀ t, x.1.dManager.extfilesExist t → x.1.dManager.taskExist t) ∧
    (∀ t, x.1.dManager.taskExist t ↔ (holders x.2 t).isSome) ∧
    (∀ t e, holders x.2 t = some e →
      x.1.dManager.getTaskEngine t = some (engineKey t e, e.deps) ∧
      (x.1.dManager.getTaskExtfiles t).getD [] = e.extfiles) ∧
    (∀ t b, x.1.fs.contents (x.1.dManager.enginePath anonymousMid (decimal t.toNat)) = some b ↔
      ∃ e, holders x.2 t = some e ∧ e.binary = b ∧ b ≠ []) ∧
    ∀ random req, (process localFileoperations endpoint random x.1 req).1 = none ∨
        (Event.mk req (process localFileoperations endpoint random x.1 req).1).Conflicts →
      (process localFileoperations endpoint random x.1 req).2 = x.1 := by
  intro x
  obtain ⟨htables, hfiles⟩ := serve_invariant h endpoint reqs
  have hexist (t : UInt64) : x.1.dManager.taskExist t ↔ (holders x.2 t).isSome := by
    rw [htables.taskExist t]
  refine ⟨fun t ht => ?_, hexist, fun t e he => ⟨?_, ?_⟩, fun t b => ?_,
    fun random req => process_unchanged⟩
  · rw [Datamanager.extfilesExist_eq, congrFun htables.extfiles t] at ht
    rw [hexist]
    exact Option.isSome_of_isSome_bind ht
  · rw [congrFun htables.engine t, he, Option.map_some]
  · rw [congrFun htables.extfiles t, he, Option.bind_some, extfilesOf]
    split_ifs with hext
    · rfl
    · exact (not_not.mp hext).symm
  · rw [Posix.Fs.contents, hfiles.area.resolve_anonymous t, Option.bind_some, hfiles.node t]
    cases holders x.2 t with
    | none => simp
    | some e =>
      by_cases he : e.binary = []
      · simp [he]
      · have hne : e.binary = b → b ≠ [] := by
          rintro rfl
          exact he
        simpa [he] using hne

/-- A negotiation of task `5` whose engine is one byte. -/
def oneByteRequest : Request :=
  (((Request.new.setType .management .storage .neogiate).setTaskid 5).setEngineBinary
    [0x7f]).setObjectManagement Endpoint.new

theorem task_state_newNode :
    (serve localFileoperations Endpoint.new newNode [(oneByteRequest, 9)]).1.fs.contents
      (lit "/data/engine/JXTDENGINE_0000aaaa_5.so") = some [0x7f] :=
  ((task_state newNode_fresh Endpoint.new [(oneByteRequest, 9)]).2.2.2.1 5 [0x7f]).mpr
    ⟨_, rfl, rfl, by decide⟩

end Serve

end Jxtd.Storage
