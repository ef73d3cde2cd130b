import Jxtd.Management.Taskdep
import Jxtd.Proto.Datatransfer.Codec
import Jxtd.Proto.Taskdep.Codec
import Jxtd.Router.Cmd
import Jxtd.Storage.Fidelity

/-!
# The name of a model in the router and in the storage

A push sends the name of a model before its id, a start the id before the name. The two servers of
the storage work on one manager, and anybody may send them anything between a push and a pull.

* `World`, `Action`, `step`: the router with one storage node, and what they do.
* `Run`: runs all of whose steps meet a condition.
* `Agrees`: the condition at a push; `Spares`: the one at the other steps.
* **`agrees_iff_of_clean`**: for ordinary names, a push agrees when name and id can change places.
* **`pushed_pulled`**: then the pull of a task that refers to the model returns what was pushed.
* `push_misses`: a push that does not agree.
-/

namespace Jxtd.Router

open Lib Posix Storage Management

/-! ## The router and the storage -/

structure World where
  router : Registry
  node : State Fs
  log : List Event

/-- A new router, and a storage in which nothing is bound. -/
structure World.Initial (w : World) : Prop where
  models : w.router.models = []
  taskEngine : w.node.dManager.taskEngine = ∅
  taskExtfiles : w.node.dManager.taskExtfiles = ∅
  log : w.log = []

/-- What the router and the node can do. A push or a negotiation that does not reach its end in the
router is one of the node. -/
inductive Action
  | account (user : Str)
  | running (taskid : UInt64)
  | mddecl (id : Str) (opened : Bool) (message : ATMessage)
  | mdrm (message : ATMessage)
  | mdpush (flag : Flag) (id : Str) (infile : Str → Option Str) (message : ATMessage)
  | cpstart (infile : Str → Option Str) (message : ATMessage) (ctx : TaskdepClientContext)
    (taskid random : UInt64)
  | node (e : NodeEvent)

/-- A push is processed, and a negotiation answered, as it arrives. -/
def step (endpoint : Taskdep.Endpoint) (w : World) : Action → Except Fault World
  | .account user => .ok { w with router := { w.router with user := user } }
  | .running taskid => .ok { w with router := { w.router with taskid := taskid } }
  | .mddecl id opened message => .ok { w with router := (MDDECL w.router id opened message).2 }
  | .mdrm message => .ok { w with router := (MDRM w.router message).2 }
  | .mdpush flag id infile message =>
    match MDPUSH w.router flag id infile message with
    | .error _ => .ok w
    | .ok push => do
      let req := Datatransfer.Request.new.assign (push.request flag).encode
      let (_, fs) ← Datatrans.process localFileoperations w.node.dManager w.node.fs req
      .ok { w with router := push.after, node := { w.node with fs := fs } }
  | .cpstart infile message ctx taskid random =>
    match CPSTART w.router infile message with
    | .error _ => .ok w
    | .ok engine =>
      let req := Taskdep.Request.new.assign (neogiateRequest ctx taskid engine).encode
      let (node, log) := serveOne localFileoperations endpoint (w.node, w.log) (req, random)
      .ok { w with node := node, log := log }
  | .node e => do
    let (node, log) ← nodeStep endpoint (w.node, w.log) e
    .ok { w with node := node, log := log }

/-- An id that is drawn passes the test of `create_id`. -/
def Action.Drawn (w : World) : Action → Prop
  | .mddecl id _ _ => w.router.checkId id = true
  | .mdpush _ id _ _ => w.router.checkId id = true
  | _ => True

/-- The runs from a state all of whose steps meet a condition. -/
inductive Run (endpoint : Taskdep.Endpoint) (P : World → Action → Prop) (w₀ : World) : World → Prop
  | refl : Run endpoint P w₀ w₀
  | tail {w w' : World} (h : Run endpoint P w₀ w) (a : Action) (hdrawn : a.Drawn w) (hP : P w a)
    (ha : step endpoint w a = .ok w') : Run endpoint P w₀ w'

/-! ## What the steps do -/

section Steps

variable {endpoint : Taskdep.Endpoint} {w w' : World} {flag : Flag} {id : Str}
  {infile : Str → Option Str} {message : ATMessage} {push : Push}

/-- The pair of a pushed model as it arrives. -/
def Push.stored (push : Push) : Str × Str :=
  (Datatransfer.bothOrNone (push.name, push.mid)).getD ([], [])

/-- **What a push does to the storage.** -/
theorem process_push (d : Datamanager) (fs : Fs) (push : Push) (flag : Flag) :
    Datatrans.process localFileoperations d fs
      (Datatransfer.Request.new.assign (push.request flag).encode) =
        .ok (⟨flag.datatransferStorage, flag.datatransferRouter, [], []⟩,
          (d.enginePush localFileoperations fs push.stored.1 push.stored.2 push.data).2) := by
  have hsource : (push.request flag).encode.master.map Datatransfer.assignAdtsrc =
      [{ push.adtsrc with engineattr := push.stored }] := by
    show [Datatransfer.assignAdtsrc (Datatransfer.assignadtsrc push.adtsrc)] = _
    rw [Datatransfer.assignAdtsrc_assignadtsrc]
    rfl
  show Datatrans.processAll localFileoperations d 1 fs _
    ((push.request flag).encode.master.map Datatransfer.assignAdtsrc) = _
  rw [hsource]
  rfl

theorem step_mdpush (hpush : MDPUSH w.router flag id infile message = .ok push)
    (h : step endpoint w (.mdpush flag id infile message) = .ok w') :
    w' = { w with
      router := push.after
      node := { w.node with fs := (w.node.dManager.enginePush localFileoperations w.node.fs
        push.stored.1 push.stored.2 push.data).2 } } := by
  simp only [step, hpush, process_push] at h
  cases h
  rfl

/-- The request of a negotiation as it arrives. -/
def negotiation (ctx : TaskdepClientContext) (t : UInt64) (engine : Taskdep.Engine) : Taskdep.Request :=
  Taskdep.Request.new.assign (neogiateRequest ctx t engine).encode

theorem header_negotiation (ctx : TaskdepClientContext) (t : UInt64) (engine : Taskdep.Engine) :
    header (negotiation ctx t engine) = header (neogiateRequest ctx t engine) := by
  rw [negotiation, Taskdep.Request.assign_encode]
  rfl

/-- An engine without dependencies and extra files arrives as it is. -/
theorem engine_negotiation (ctx : TaskdepClientContext) (t : UInt64) (engine : Taskdep.Engine)
    (hdeps : engine.deps = []) (hextfiles : engine.extfiles = []) :
    (negotiation ctx t engine).engine = some engine := by
  obtain ⟨binary, id, name, deps, extfiles⟩ := engine
  cases hdeps
  cases hextfiles
  rw [negotiation, Taskdep.Request.assign_encode]
  rfl

/-! ## What stays under a name -/

theorem contents_of_keeps {fs fs' : Fs} {s data : Str} (h : fs.contents s = some data)
    (hkeeps : ∀ q, fs.resolve s = some q → Keeps q fs fs') : fs'.contents s = some data := by
  obtain ⟨q, hr, hq⟩ := Fs.of_contents h
  exact Fs.contents_eq ((hkeeps q hr).dirs.resolve hr) ((hkeeps q hr).node _ hq)

/-- The step removes no file to which `s` leads, and appends no runtime data to it. -/
def NodeSpares (s : Str) (st : State Fs) : NodeEvent → Prop
  | .taskdep req _ =>
    req.msg = Taskdep.MsgType.terminate.toUInt32 ∨ req.msg = Taskdep.MsgType.done.toUInt32 →
      ∀ engine, st.dManager.getTaskEngine req.taskid = some engine → engine.1.1 = anonymousMid →
        st.fs.resolve (st.dManager.enginePath anonymousMid (decimal req.taskid.toNat)) ≠
          st.fs.resolve s
  | .datatrans direction master =>
    direction ≠ 0 → master.type = Datatrans.Datatype.endpoint.toUInt32 →
      st.fs.resolve (st.dManager.runtimePath master.taskid.toUInt64) ≠ st.fs.resolve s

/-- What a step of the node keeps: its tables, its root, and every file that the step spares. -/
structure Kept (x y : State Fs × List Event) (e : NodeEvent) : Prop where
  tables : Tables x.1.dManager x.2 → Tables y.1.dManager y.2
  rootPath : y.1.dManager.rootPath = x.1.dManager.rootPath
  contents : ∀ s data, NodeSpares s x.1 e → x.1.fs.contents s = some data →
    y.1.fs.contents s = some data

theorem kept_taskdep (x : State Fs × List Event) (req : Taskdep.Request) (random : UInt64) :
    Kept x (serveOne localFileoperations endpoint x (req, random)) (.taskdep req random) := by
  have hdoes := process_does localFileoperations endpoint random x.1 req
  refine ⟨fun h => h.step hdoes, ?_, fun s data hspares h => contents_of_keeps h fun q hr => ?_⟩
  · show (process localFileoperations endpoint random x.1 req).2.dManager.rootPath = _
    cases heff : (Event.mk req (process localFileoperations endpoint random x.1 req).1).effect with
    | none => rw [hdoes.none heff]
    | acquire t engine => rw [(hdoes.acquire heff).2, rootPath_accept]
    | release t => rw [hdoes.release heff, rootPath_release]
  · show Keeps q x.1.fs (process localFileoperations endpoint random x.1 req).2.fs
    cases heff : (Event.mk req (process localFileoperations endpoint random x.1 req).1).effect with
    | none =>
      rw [hdoes.none heff]
      exact keeps_of_grows (.refl x.1.fs)
    | acquire t engine =>
      rw [(hdoes.acquire heff).2]
      exact keeps_of_grows (grows_accept x.1 t engine)
    | release t =>
      obtain ⟨rfl, r, hreply, hmsg⟩ := Event.effect_release_iff.mp heff
      have hnode := node_release fun engine hengine hmid =>
        hr ▸ hspares ((process_reply hreply).1 ▸ hmsg) engine hengine hmid
      rw [hdoes.release heff]
      exact ⟨keepsDirs_release x.1 _, fun n hn => hnode.trans hn⟩

theorem kept_nodeStep {x y : State Fs × List Event} {e : NodeEvent}
    (he : nodeStep endpoint x e = .ok y) : Kept x y e := by
  cases e with
  | taskdep req random =>
    cases he
    exact kept_taskdep x req random
  | datatrans direction master =>
    obtain ⟨out, hout, heq⟩ := bind_eq_ok.mp he
    cases heq
    exact ⟨id, rfl, fun s data hspares h => contents_of_keeps h fun q hr =>
      keeps_processOne (fun hruntime hdirection htype =>
        hspares hdirection htype (hruntime.trans hr.symm)) hout⟩

/-! ## Steps and runs -/

/-- The action spares the file, if it is one of the node. -/
def Spares (s : Str) (w : World) : Action → Prop
  | .node e => NodeSpares s w.node e
  | _ => True

/-- The router's own negotiations spare every file. -/
theorem nodeSpares_negotiation (s : Str) (st : State Fs) (ctx : TaskdepClientContext) (t random : UInt64)
    (engine : Taskdep.Engine) : NodeSpares s st (.taskdep (negotiation ctx t engine) random) := by
  have hmsg : (negotiation ctx t engine).msg = Taskdep.MsgType.neogiate.toUInt32 :=
    (congrArg (·.2.2.1) (header_negotiation ctx t engine)).trans
      (congrArg (·.2.2.1) (header_neogiateRequest ctx t engine))
  intro h
  rw [hmsg] at h
  exact absurd h (by decide)

/-- Everything that an action can do. -/
inductive Effect (endpoint : Taskdep.Endpoint) (w : World) (a : Action) (w' : World) : Prop
  | router (unique : w.router.Unique → w'.router.Unique) (node : w'.node = w.node)
    (log : w'.log = w.log)
  | push (push : Push) (unique : w.router.Unique → push.after.Unique) (eq : w' = { w with
      router := push.after
      node := { w.node with fs := (w.node.dManager.enginePush localFileoperations w.node.fs
        push.stored.1 push.stored.2 push.data).2 } })
  | node (e : NodeEvent) (router : w'.router = w.router)
    (spares : ∀ s, Spares s w a → NodeSpares s w.node e)
    (step : nodeStep endpoint (w.node, w.log) e = .ok (w'.node, w'.log))

theorem step_effect {a : Action} (hdrawn : a.Drawn w) (h : step endpoint w a = .ok w') :
    Effect endpoint w a w' := by
  cases a with
  | account user =>
    cases h
    exact .router id rfl rfl
  | running taskid =>
    cases h
    exact .router id rfl rfl
  | mddecl id opened message =>
    cases h
    exact .router (fun hunique => MDDECL_unique hunique hdrawn opened message) rfl rfl
  | mdrm message =>
    cases h
    exact .router (fun hunique => MDRM_unique hunique message) rfl rfl
  | mdpush flag id infile message =>
    cases hpush : MDPUSH w.router flag id infile message with
    | error e =>
      rw [step, hpush] at h
      cases h
      exact .router (fun hunique => hunique) rfl rfl
    | ok push =>
      exact .push push (fun hunique => MDPUSH_unique hunique hdrawn hpush) (step_mdpush hpush h)
  | cpstart infile message ctx t random =>
    rw [step] at h
    split at h
    · cases h
      exact .router id rfl rfl
    · rename_i engine _
      cases h
      exact .node (.taskdep (negotiation ctx t engine) random) rfl
        (fun s _ => nodeSpares_negotiation s w.node ctx t random engine) rfl
  | node e =>
    obtain ⟨x, hx, heq⟩ := bind_eq_ok.mp h
    cases heq
    exact .node e rfl (fun s hs => hs) hx

/-- What holds in every state of a run. -/
structure Inv (rootPath : Str) (w : World) : Prop where
  unique : w.router.Unique
  tables : Tables w.node.dManager w.log
  rootPath : w.node.dManager.rootPath = rootPath

theorem World.Initial.inv (h : w.Initial) : Inv w.node.dManager.rootPath w := by
  refine ⟨?_, ?_, rfl⟩
  · rw [Registry.Unique, h.models]
    exact List.Pairwise.nil
  · rw [h.log]
    exact tables_nil h.taskEngine h.taskExtfiles

theorem Effect.inv {a : Action} {rootPath : Str} (h : Effect endpoint w a w') (hw : Inv rootPath w) :
    Inv rootPath w' := by
  cases h with
  | router unique node log => exact ⟨unique hw.unique, node ▸ log ▸ hw.tables, node ▸ hw.rootPath⟩
  | push push unique eq =>
    rw [eq]
    exact ⟨unique hw.unique, hw.tables, hw.rootPath⟩
  | node e router spares step =>
    have hkept := kept_nodeStep step
    exact ⟨router ▸ hw.unique, hkept.tables hw.tables, hkept.rootPath.trans hw.rootPath⟩

/-- **A file that is spared stays.** -/
theorem Effect.contents {a : Action} {s data : Str} (h : Effect endpoint w a w')
    (hspares : Spares s w a) (hs : w.node.fs.contents s = some data) :
    w'.node.fs.contents s = some data := by
  cases h with
  | router unique node log => exact node ▸ hs
  | push push unique eq =>
    rw [eq]
    exact contents_of_keeps hs fun _ _ => keeps_of_grows (Local.grows_push ..)
  | node e router spares step => exact (kept_nodeStep step).contents s data (spares s hspares) hs

theorem Run.inv {P : World → Action → Prop} {rootPath : Str} (h : Run endpoint P w w')
    (hw : Inv rootPath w) : Inv rootPath w' := by
  induction h with
  | refl => exact hw
  | tail _ a hdrawn _ ha ih => exact (step_effect hdrawn ha).inv ih

theorem Run.contents {s data : Str} (h : Run endpoint (Spares s) w w')
    (hs : w.node.fs.contents s = some data) : w'.node.fs.contents s = some data := by
  induction h with
  | refl => exact hs
  | tail _ a hdrawn hspares ha ih => exact (step_effect hdrawn ha).contents hspares ih

end Steps

/-! ## Pushing, starting and pulling -/

/-- **Where a push and a later pull agree**: the name that the push stores under and the one that is
pulled lead to one place with nothing there, or the second one holds the data already. -/
structure Agrees (w : World) (push : Push) : Prop where
  length : push.data.length < 2 ^ 31
  file : (∃ p, w.node.fs.resolve (w.node.dManager.enginePath push.stored.1 push.stored.2) = some p ∧
      w.node.fs.resolve (w.node.dManager.enginePath push.mid push.name) = some p ∧
      w.node.fs.node p = none) ∨
    w.node.fs.contents (w.node.dManager.enginePath push.mid push.name) = some push.data

/-- **For names that make a file name**, and a model that was not stored before: a push agrees when
its name and its id can change places. -/
theorem agrees_iff_of_clean {w : World} {push : Push} {dir : Path}
    (harea : EngineArea w.node.dManager w.node.fs dir) (hname : Clean push.name)
    (hmid : Clean push.mid) (hname₀ : push.name ≠ []) (hmid₀ : push.mid ≠ [])
    (hnew : w.node.fs.node (dir ++ [Datamanager.engineFile push.mid push.name]) = none) :
    Agrees w push ↔ push.data.length < 2 ^ 31 ∧
      push.name ++ lit "_" ++ push.mid = push.mid ++ lit "_" ++ push.name := by
  have hstored : push.stored = (push.name, push.mid) := by
    rw [Push.stored, Datatransfer.bothOrNone, if_pos ⟨hname₀, hmid₀⟩]
    rfl
  have hfile : Datamanager.engineFile push.name push.mid = Datamanager.engineFile push.mid push.name ↔
      push.name ++ lit "_" ++ push.mid = push.mid ++ lit "_" ++ push.name := by
    simp only [Datamanager.engineFile, List.append_assoc, List.append_cancel_left_eq]
    rw [← List.append_assoc, ← List.append_assoc, ← List.append_assoc, ← List.append_assoc,
      List.append_cancel_right_eq, List.append_assoc, List.append_assoc]
  have hpush := harea.resolve_enginePath hname hmid
  have hpull := harea.resolve_enginePath hmid hname
  constructor
  · rintro ⟨hlength, ⟨p, hp, hp', -⟩ | hcontents⟩
    · rw [hstored, hpush] at hp
      rw [hpull] at hp'
      have heq := Option.some.inj (hp.trans hp'.symm)
      exact ⟨hlength, hfile.mp (List.singleton_inj.mp (List.append_cancel_left heq))⟩
    · obtain ⟨p, hr, hp⟩ := Fs.of_contents hcontents
      rw [hpull, Option.some_inj] at hr
      rw [← hr, hnew] at hp
      cases hp
  · rintro ⟨hlength, hswap⟩
    refine ⟨hlength, .inl ⟨_, ?_, hpull, hnew⟩⟩
    rw [hstored, hpush, hfile.mpr hswap]

/-- The command starts task `t`: its negotiation is answered `succeed`. -/
def Starts (endpoint : Taskdep.Endpoint) (w : World) (infile : Str → Option Str)
    (message : ATMessage) (ctx : TaskdepClientContext) (t random : UInt64) (w' : World) : Prop :=
  step endpoint w (.cpstart infile message ctx t random) = .ok w' ∧
    ∃ e, w'.log = w.log ++ [e] ∧ e.Succeeds t

/-- An `EnginePull` for task `t` returns `data`. -/
def Pulled (w : World) (t : UInt64) (data : Str) : Prop :=
  ∃ dtsrc fs, Datatrans.enginePull localFileoperations w.node.dManager w.node.fs
    { Datatransfer.Adtsrc.new with taskid := t.toUInt32 } = .ok (dtsrc, fs) ∧
      dtsrc.master.binary = data

section Agreement

variable {endpoint : Taskdep.Endpoint} {w w₀ w₁ w₂ w₃ w₄ : World} {flag : Flag} {id : Str}
  {infile infile' : Str → Option Str} {message message' : ATMessage} {push : Push}
  {ctx : TaskdepClientContext} {t random : UInt64}

theorem contents_mdpush (hpush : MDPUSH w.router flag id infile message = .ok push)
    (h : step endpoint w (.mdpush flag id infile message) = .ok w₁) :
    w₁.node.fs.contents (w.node.dManager.enginePath push.mid push.name) = some push.data ↔
      (∃ p, w.node.fs.resolve (w.node.dManager.enginePath push.stored.1 push.stored.2) = some p ∧
        w.node.fs.resolve (w.node.dManager.enginePath push.mid push.name) = some p ∧
        w.node.fs.node p = none) ∨
      w.node.fs.contents (w.node.dManager.enginePath push.mid push.name) = some push.data := by
  rw [step_mdpush hpush h]
  exact Local.contents_push_iff _ _ _ _

theorem Starts.effect (h : Starts endpoint w infile message ctx t random w₁) :
    Effect endpoint w (.cpstart infile message ctx t random) w₁ :=
  step_effect trivial h.1

/-- **What is negotiated** is the model, by its id and its name. -/
theorem Starts.held (h : Starts endpoint w infile message ctx t random w₁)
    (hunique : w.router.Unique) {name mid : Str} (hmem : (name, mid) ∈ w.router.engineCloud)
    (hrefers : message.Refers (name, mid)) :
    holders w₁.log t = some { Taskdep.Engine.new with id := mid, name := name } := by
  obtain ⟨hstep, e, hlog, hsucceeds⟩ := h
  rw [step] at hstep
  split at hstep
  · cases hstep
    simp at hlog
  · rename_i engine hstart
    obtain rfl := CPSTART_cloud hunique hmem hrefers hstart
    cases hstep
    obtain rfl := List.singleton_inj.mp (List.append_cancel_left hlog)
    have hengine := engine_negotiation ctx t { Taskdep.Engine.new with id := mid, name := name } rfl rfl
    have heff := Event.effect_acquire_iff.mpr ⟨hsucceeds, hengine⟩
    rw [hlog, holders_concat, heff]
    exact Lease.step_acquire (holders w.log) t _

/-- A pull for a task whose engine is known by its id and its name. -/
theorem pulled_iff {log : List Event} (htables : Tables w.node.dManager log) (hpos : t ≠ 0)
    (hlt : t.toNat < 2 ^ 32) {name mid : Str}
    (hheld : holders log t = some { Taskdep.Engine.new with id := mid, name := name }) (data : Str) :
    Pulled w t data ↔ ∃ fs,
      w.node.dManager.enginePull localFileoperations w.node.fs mid name = .ok (data, fs) := by
  have hget : w.node.dManager.getTaskEngine t.toUInt32.toUInt64 = some ((mid, name), []) := by
    rw [toUInt64_toUInt32 hlt, congrFun htables.engine t, hheld]
    rfl
  unfold Pulled Datatrans.enginePull
  dsimp only
  rw [if_neg (toUInt32_ne_zero hpos hlt), hget]
  constructor
  · rintro ⟨dtsrc, fs, hpull, rfl⟩
    obtain ⟨⟨binary, fs₁⟩, hbinary, hpull⟩ := bind_eq_ok.mp hpull
    cases hpull
    exact ⟨fs₁, hbinary⟩
  · rintro ⟨fs, hpull⟩
    exact ⟨_, fs, bind_eq_ok.mpr ⟨_, hpull, rfl⟩, rfl⟩

/-- **The router and the storage agree on the name of a model.** In every run from a new router and
storage: a model is pushed, a task that refers to it is started and granted an id `0 < t < 2 ^ 32`,
and while it is bound an `EnginePull` is made for it. If the push agrees and all steps after it spare
the file, the pull returns what was pushed. If the file is as the push left it, and neither empty nor
too long, only a push that agrees is returned. -/
theorem pushed_pulled (hinit : w₀.Initial) (hbefore : Run endpoint (fun _ _ => True) w₀ w)
    (hdrawn : (Action.mdpush flag id infile message).Drawn w)
    (hpush : MDPUSH w.router flag id infile message = .ok push)
    (hstep : step endpoint w (.mdpush flag id infile message) = .ok w₁)
    (hbetween : Run endpoint (Spares (w.node.dManager.enginePath push.mid push.name)) w₁ w₂)
    (hmem : (push.name, push.mid) ∈ w₂.router.engineCloud)
    (hrefers : message'.Refers (push.name, push.mid))
    (hstarts : Starts endpoint w₂ infile' message' ctx t random w₃)
    (hafter : Run endpoint (Spares (w.node.dManager.enginePath push.mid push.name)) w₃ w₄)
    (hheld : holders w₄.log t = holders w₃.log t) (hpos : t ≠ 0) (hlt : t.toNat < 2 ^ 32) :
    (Agrees w push → Pulled w₄ t push.data) ∧
      (w₄.node.fs.contents (w.node.dManager.enginePath push.mid push.name) =
          w₁.node.fs.contents (w.node.dManager.enginePath push.mid push.name) →
        Local.Small w₄.node.fs → push.data ≠ [] → Pulled w₄ t push.data → Agrees w push) := by
  have hinv := hbefore.inv hinit.inv
  have hinv₁ := (step_effect hdrawn hstep).inv hinv
  have hinv₂ := hbetween.inv hinv₁
  have hinv₃ := hstarts.effect.inv hinv₂
  have hinv₄ := hafter.inv hinv₃
  rw [hstarts.held hinv₂.unique hmem hrefers] at hheld
  have hiff := pulled_iff hinv₄.tables hpos hlt hheld push.data
  have hpath : w₄.node.dManager.enginePath push.mid push.name =
      w.node.dManager.enginePath push.mid push.name := by
    rw [Datamanager.enginePath, Datamanager.enginePath, hinv₄.rootPath, hinv.rootPath]
  have hcontents := contents_mdpush hpush hstep
  constructor
  · intro hagrees
    have h₁ := hcontents.mpr hagrees.file
    have h₂ := hbetween.contents h₁
    have h₃ := hstarts.effect.contents trivial h₂
    have h₄ := hafter.contents h₃
    rw [← hpath] at h₄
    obtain ⟨p, hr, hp⟩ := Fs.of_contents h₄
    exact hiff.mpr ⟨_, enginePull_file hr hp hagrees.length⟩
  · intro hsame hsmall hne hpulled
    obtain ⟨fs, hpull⟩ := hiff.mp hpulled
    obtain ⟨fs', hpull'⟩ := hsmall.pull (w₄.node.dManager.enginePath push.mid push.name)
    have hdata : (w₄.node.fs.contents (w₄.node.dManager.enginePath push.mid push.name)).getD [] =
        push.data := congrArg Prod.fst (Except.ok.inj (hpull'.symm.trans hpull))
    rw [hpath] at hdata
    cases hsome : w₄.node.fs.contents (w.node.dManager.enginePath push.mid push.name) with
    | none =>
      rw [hsome] at hdata
      exact absurd hdata.symm hne
    | some data =>
      rw [hsome, Option.getD_some] at hdata
      obtain ⟨p, hr, hp⟩ := Fs.of_contents hsome
      rw [hdata] at hsome hp
      exact ⟨hsmall p _ hp, hcontents.mp (hsame.symm.trans hsome)⟩

end Agreement

/-! ## One push -/

/-- A new router with a registered user, and a new node. -/
def newWorld : World := ⟨⟨lit "user", [], [], 0⟩, newNode, []⟩

theorem newWorld_initial : newWorld.Initial :=
  ⟨rfl, newNode_fresh.taskEngine, newNode_fresh.taskExtfiles, rfl⟩

def newFlag : Flag := ⟨lit "router:1", lit "storage:2"⟩

/-- The push of one byte under a name. -/
def pushMessage (name : Str) : ATMessage := ⟨.LONG, [name], [0x01]⟩

/-- The start of a task with the model of an id. -/
def startMessage (mid : Str) : ATMessage := ⟨.CMD, [lit "mid_" ++ mid, lit "input"], []⟩

def newContext : TaskdepClientContext := ⟨.new, .new, []⟩

/-- The push of a model with its own id as its name, and the start of a task with it. -/
theorem pushed_pulled_sameName : ∃ w₁ w₂,
    step .new newWorld
      (.mdpush newFlag (lit "1234abcd") (fun _ => none) (pushMessage (lit "1234abcd"))) = .ok w₁ ∧
    Starts .new w₁ (fun _ => none) (startMessage (lit "1234abcd")) newContext 1 9 w₂ ∧
    Pulled w₂ 1 [0x01] := by
  have hpush : MDPUSH newWorld.router newFlag (lit "1234abcd") (fun _ => none)
      (pushMessage (lit "1234abcd")) = .ok ⟨lit "1234abcd", lit "1234abcd", [0x01],
        ⟨lit "user", [], [(lit "1234abcd", lit "1234abcd")], 0⟩⟩ := rfl
  have hrefers : (startMessage (lit "1234abcd")).Refers (lit "1234abcd", lit "1234abcd") := .inl rfl
  refine ⟨_, _, rfl, ⟨rfl, _, rfl, rfl, _, rfl, rfl, _, rfl, rfl⟩, ?_⟩
  refine (pushed_pulled newWorld_initial .refl rfl hpush rfl .refl ?_ hrefers
    (?_ : Starts .new _ (fun _ => none) _ newContext 1 9 _) .refl rfl (by decide) (by decide)).1 ?_
  · exact mem_engineCloud_of_MDPUSH hpush
  · exact ⟨rfl, _, rfl, rfl, _, rfl, rfl, _, rfl, rfl⟩
  · exact ⟨by decide, .inl ⟨[lit "data", lit "engine", lit "JXTDENGINE_1234abcd_1234abcd.so"],
      rfl, rfl, rfl⟩⟩

/-- **A model whose name is not its id** is stored under one name and looked for under another: the
pull returns nothing. -/
theorem push_misses : ∃ push w₁ w₂,
    MDPUSH newWorld.router newFlag (lit "1234abcd") (fun _ => none) (pushMessage (lit "m")) =
      .ok push ∧
    step .new newWorld
      (.mdpush newFlag (lit "1234abcd") (fun _ => none) (pushMessage (lit "m"))) = .ok w₁ ∧
    (push.name, push.mid) ∈ w₁.router.engineCloud ∧
    Starts .new w₁ (fun _ => none) (startMessage (lit "1234abcd")) newContext 1 9 w₂ ∧
    (startMessage (lit "1234abcd")).Refers (push.name, push.mid) ∧
    push.data = [0x01] ∧ Pulled w₂ 1 [] ∧ ¬ Pulled w₂ 1 push.data := by
  refine ⟨_, _, _, rfl, rfl, List.mem_singleton_self _, ⟨rfl, _, rfl, rfl, _, rfl, rfl, _, rfl, rfl⟩,
    .inl rfl, rfl, ⟨_, _, rfl, rfl⟩, ?_⟩
  rintro ⟨dtsrc, fs, hpull, hdata⟩
  cases hpull
  cases hdata

end Jxtd.Router
