import Jxtd.Management.Taskdep
import Jxtd.Storage.TaskState

/-!
# Negotiations with one storage server

Any number of calls of `create_neogiate_task` and one storage server. A request that was sent may
reach the server at any time and any number of times, a reply may come late or never, and anybody
may send the server any request in between.

* `System`, `Step`, `Reachable`: the server, the calls, and the requests processed so far.
* `Inv`, **`Reachable.inv`**: what every step keeps.
* **`neogiate_exclusive`**: a task id has one holder at a time, and a call returns its own.
-/

namespace Jxtd.Management

open Lib Taskdep Storage

/-- What a call of `create_neogiate_task` is given. -/
structure Client where
  ctx : TaskdepClientContext
  taskid : UInt64
  engine : Engine

/-- A processed request. The sender is a call and the number of its task, or somebody else. -/
structure Processed (ι : Type) where
  sender : Option (ι × ℕ)
  event : Event

structure System (ι σ : Type) where
  storage : State σ
  calls : ι → Option Call
  sent : List (ι × ℕ × Request)
  log : List (Processed ι)

variable {ι σ : Type} [DecidableEq ι]

/-- The system before the first call; the server has no bound task. -/
structure System.Initial (s : System ι σ) : Prop where
  taskEngine : s.storage.dManager.taskEngine = ∅
  taskExtfiles : s.storage.dManager.taskExtfiles = ∅
  calls : ∀ i, s.calls i = none
  sent : s.sent = []
  log : s.log = []

/-- The server processes a request. -/
def System.serve (ops : Operations σ) (endpoint : Endpoint) (random : UInt64) (s : System ι σ)
    (sender : Option (ι × ℕ)) (req : Request) : System ι σ :=
  let out := process ops endpoint random s.storage req
  { s with storage := out.2, log := s.log ++ [⟨sender, ⟨req, out.1⟩⟩] }

/-- The task that a call has just created sends its request. -/
def System.send (clients : ι → Client) (s : System ι σ) (i : ι) (c : Call) : System ι σ :=
  { s with
    calls := Function.update s.calls i (some c)
    sent := s.sent ++
      [(i, c.attempt, neogiateRequest (clients i).ctx c.taskid (clients i).engine)] }

/-- The response is one to the running task of call `i`. -/
def System.Replied (s : System ι σ) (i : ι) (c : Call) (resp : Response) : Prop :=
  ∃ x ∈ s.log, x.sender = some (i, c.attempt) ∧ x.event.reply = some resp

inductive Step (ops : Operations σ) (endpoint : Endpoint) (clients : ι → Client) :
    System ι σ → System ι σ → Prop
  | call {s : System ι σ} (i : ι) (h : s.calls i = none) :
    Step ops endpoint clients s (s.send clients i (Call.start (clients i).taskid))
  | serve {s : System ι σ} (random : UInt64) (hrandom : 1 ≤ random) (i : ι) (k : ℕ)
    (req : Request) (h : (i, k, req) ∈ s.sent) :
    Step ops endpoint clients s (s.serve ops endpoint random (some (i, k)) req)
  | other {s : System ι σ} (random : UInt64) (hrandom : 1 ≤ random) (req : Request) :
    Step ops endpoint clients s (s.serve ops endpoint random none req)
  | finish {s : System ι σ} (i : ι) (c c' : Call) (resp : Option Response)
    (hc : s.calls i = some c) (hphase : c.phase ≠ .returned)
    (hresp : ∀ r, resp = some r → s.Replied i c r) (h : c.deliver resp = some c')
    (hend : c'.phase = .returned) :
    Step ops endpoint clients s { s with calls := Function.update s.calls i (some c') }
  | again {s : System ι σ} (i : ι) (c c' : Call) (resp : Option Response)
    (hc : s.calls i = some c) (hphase : c.phase ≠ .returned)
    (hresp : ∀ r, resp = some r → s.Replied i c r) (h : c.deliver resp = some c')
    (hend : c'.phase ≠ .returned) :
    Step ops endpoint clients s (s.send clients i c')

inductive Reachable (ops : Operations σ) (endpoint : Endpoint) (clients : ι → Client)
    (s₀ : System ι σ) : System ι σ → Prop
  | refl : Reachable ops endpoint clients s₀ s₀
  | tail {s s' : System ι σ} (h : Reachable ops endpoint clients s₀ s)
    (hstep : Step ops endpoint clients s s') : Reachable ops endpoint clients s₀ s'

/-! ## The invariant -/

/-- The requests processed so far with their replies, whoever sent them. -/
def System.events (s : System ι σ) : List Event := s.log.map Processed.event

/-- The request of a call for the id that it asks for now. -/
def Client.request (client : Client) (taskid : UInt64) : Request :=
  neogiateRequest client.ctx taskid client.engine

/-- A call got an id: its own request for it was answered `succeed`. -/
def System.Granted (s : System ι σ) (clients : ι → Client) (i : ι) (taskid : UInt64) : Prop :=
  ∃ x ∈ s.log, ∃ k, x.sender = some (i, k) ∧ x.event.request = (clients i).request taskid ∧
    x.event.Succeeds taskid

structure Inv (ops : Operations σ) (clients : ι → Client) (s : System ι σ) : Prop where
  /-- The server's tables agree with its replies. -/
  tables : Tables s.storage.dManager s.events
  exclusive : Lease.Exclusive (s.events.map Event.effect)
  /-- The log is one of the server. -/
  genuine : ∀ e ∈ s.events, ∃ endpoint random st, e.reply = (process ops endpoint random st e.request).1
  first : ∀ i c, s.calls i = some c → c.phase = .first → c.success = false
  /-- What a call sends in its present task asks for its present id. -/
  sent : ∀ i k req, (i, k, req) ∈ s.sent → ∃ c, s.calls i = some c ∧ k ≤ c.attempt ∧
    (k = c.attempt → req = (clients i).request c.taskid)
  log : ∀ x ∈ s.log, ∀ i k, x.sender = some (i, k) → (i, k, x.event.request) ∈ s.sent
  result : ∀ i c, s.calls i = some c → c.result ≠ 0 → s.Granted clients i c.result

variable {ops : Operations σ} {endpoint : Endpoint} {clients : ι → Client} {s s' : System ι σ}

omit [DecidableEq ι] in
theorem Inv.init (h : s.Initial) : Inv ops clients s := by
  have hevents : s.events = [] := by rw [System.events, h.log, List.map_nil]
  refine ⟨?_, ?_, ?_, fun i c hc => ?_, fun i k req hmem => ?_, fun x hx => ?_, fun i c hc => ?_⟩
  · rw [hevents]
    exact tables_nil h.taskEngine h.taskExtfiles
  · rw [hevents]
    exact Lease.exclusive_nil
  · rw [hevents]
    exact fun e he => absurd he List.not_mem_nil
  · rw [h.calls i] at hc
    cases hc
  · rw [h.sent] at hmem
    cases hmem
  · rw [h.log] at hx
    cases hx
  · rw [h.calls i] at hc
    cases hc

omit [DecidableEq ι] in
/-- The server processes a request that was sent, or one of somebody else. -/
theorem Inv.serve (h : Inv ops clients s) (random : UInt64) (sender : Option (ι × ℕ))
    (req : Request) (hsent : ∀ i k, sender = some (i, k) → (i, k, req) ∈ s.sent) :
    Inv ops clients (s.serve ops endpoint random sender req) := by
  have hdoes := process_does ops endpoint random s.storage req
  have hevents : (s.serve ops endpoint random sender req).events =
      s.events ++ [⟨req, (process ops endpoint random s.storage req).1⟩] := by
    simp [System.events, System.serve]
  refine ⟨?_, ?_, ?_, h.first, h.sent, fun x hx i k hik => ?_, fun i c hc hr => ?_⟩
  · rw [hevents]
    exact h.tables.step hdoes
  · rw [hevents, List.map_append]
    refine h.exclusive.concat fun t e he => ?_
    have hfree := (hdoes.acquire he).1
    rwa [h.tables.taskExist, Option.isSome_eq_false_iff, Option.isNone_iff_eq_none] at hfree
  · rw [hevents]
    intro e he
    rcases List.mem_append.mp he with he | he
    · exact h.genuine e he
    · rw [List.mem_singleton.mp he]
      exact ⟨endpoint, random, s.storage, rfl⟩
  · rcases List.mem_append.mp hx with hx | hx
    · exact h.log x hx i k hik
    · rw [List.mem_singleton.mp hx] at hik ⊢
      exact hsent i k hik
  · obtain ⟨x, hx, hgranted⟩ := h.result i c hc hr
    exact ⟨x, List.mem_append_left _ hx, hgranted⟩

theorem update_cases {f : ι → Option Call} {i j : ι} {c c' : Call}
    (h : Function.update f i (some c) j = some c') :
    (j = i ∧ c' = c) ∨ (j ≠ i ∧ f j = some c') := by
  rcases eq_or_ne j i with rfl | hne
  · rw [Function.update_self] at h
    exact .inl ⟨rfl, (Option.some.inj h).symm⟩
  · rw [Function.update_of_ne hne] at h
    exact .inr ⟨hne, h⟩

/-- A new task of a call, numbered above all that the call has sent. -/
theorem Inv.send (h : Inv ops clients s) {i : ι} {c : Call}
    (hnew : ∀ k req, (i, k, req) ∈ s.sent → k < c.attempt)
    (hfirst : c.phase = .first → c.success = false)
    (hresult : c.result ≠ 0 → s.Granted clients i c.result) :
    Inv ops clients (s.send clients i c) := by
  refine ⟨h.tables, h.exclusive, h.genuine, fun j c' hc' => ?_, fun j k req hmem => ?_,
    fun x hx j k hjk => List.mem_append_left _ (h.log x hx j k hjk), fun j c' hc' => ?_⟩
  · rcases update_cases hc' with ⟨rfl, rfl⟩ | ⟨-, hold⟩
    · exact hfirst
    · exact h.first j c' hold
  · rcases List.mem_append.mp hmem with hold | hsend
    · rcases eq_or_ne j i with rfl | hne
      · have hlt := hnew k req hold
        exact ⟨c, Function.update_self .., hlt.le, fun hk => absurd hk hlt.ne⟩
      · obtain ⟨c', hc', hk⟩ := h.sent j k req hold
        exact ⟨c', (Function.update_of_ne hne ..).trans hc', hk⟩
    · cases List.mem_singleton.mp hsend
      exact ⟨c, Function.update_self .., le_refl _, fun _ => rfl⟩
  · rcases update_cases hc' with ⟨rfl, rfl⟩ | ⟨-, hold⟩
    · exact hresult
    · exact h.result j c' hold

/-- A call returns. -/
theorem Inv.finish (h : Inv ops clients s) {i : ι} {c c' : Call} (hc : s.calls i = some c)
    (hphase : c'.phase = .returned) (hattempt : c'.attempt = c.attempt)
    (htaskid : c'.taskid = c.taskid) (hresult : c'.result ≠ 0 → s.Granted clients i c'.result) :
    Inv ops clients { s with calls := Function.update s.calls i (some c') } := by
  refine ⟨h.tables, h.exclusive, h.genuine, fun j d hd => ?_, fun j k req hmem => ?_, h.log,
    fun j d hd => ?_⟩
  · rcases update_cases hd with ⟨rfl, rfl⟩ | ⟨-, hold⟩
    · exact fun hf => absurd (hphase.symm.trans hf) (by decide)
    · exact h.first j d hold
  · obtain ⟨d, hd, hk⟩ := h.sent j k req hmem
    rcases eq_or_ne j i with rfl | hne
    · obtain rfl : c = d := by simpa [hc] using hd
      exact ⟨c', Function.update_self .., by rw [hattempt]; exact hk.1,
        by rw [hattempt, htaskid]; exact hk.2⟩
    · exact ⟨d, (Function.update_of_ne hne ..).trans hd, hk⟩
  · rcases update_cases hd with ⟨rfl, rfl⟩ | ⟨-, hold⟩
    · exact hresult
    · exact h.result j d hold

omit [DecidableEq ι] in
/-- A response that grants the id answers the call's own request for it. -/
theorem Inv.granted (h : Inv ops clients s) {i : ι} {c : Call} {r : Response} {n : Neogiate}
    (hc : s.calls i = some c) (hr : s.Replied i c r) (hmsg : r.msg = MsgType.neogiate.toUInt32)
    (hn : r.neogiate = some n) (hstatus : n.status = NeogiateStatus.succeed.toUInt32) :
    s.Granted clients i c.taskid := by
  obtain ⟨x, hx, hsender, hreply⟩ := hr
  obtain ⟨c', hc', -, hreq⟩ := h.sent i c.attempt _ (h.log x hx i c.attempt hsender)
  obtain rfl : c = c' := by simpa [hc] using hc'
  have hrequest := hreq rfl
  refine ⟨x, hx, c.attempt, hsender, hrequest, ?_, r, hreply, hmsg, n, hn, hstatus⟩
  rw [hrequest]
  exact neogiateRequest_taskid ..

theorem Inv.step (h : Inv ops clients s) (hstep : Step ops endpoint clients s s') :
    Inv ops clients s' := by
  cases hstep with
  | call i hi =>
    refine h.send (fun k req hmem => ?_) (fun _ => rfl) fun h0 => absurd rfl h0
    obtain ⟨c, hc, -⟩ := h.sent i k req hmem
    rw [hi] at hc
    cases hc
  | serve random hrandom i k req hmem =>
    refine h.serve random _ req fun j l hjl => ?_
    cases hjl
    exact hmem
  | other random hrandom req => exact h.serve random none req fun j l hjl => by cases hjl
  | finish i c c' resp hc hphase hresp hdeliver hend =>
    cases Call.deliver_effect hdeliver hphase (h.first i c hc) with
    | stop _ hattempt htaskid hresult =>
      exact h.finish hc hend hattempt htaskid (by rw [hresult]; exact h.result i c hc)
    | grant _ hattempt htaskid hresult r hr hmsg n hn hstatus =>
      refine h.finish hc hend hattempt htaskid fun _ => ?_
      rw [hresult]
      exact h.granted hc (hresp r hr) hmsg hn hstatus
    | retry hp _ _ => exact absurd (hend.symm.trans hp) (by decide)
  | again i c c' resp hc hphase hresp hdeliver hend =>
    cases Call.deliver_effect hdeliver hphase (h.first i c hc) with
    | stop hp => exact absurd hp hend
    | grant hp => exact absurd hp hend
    | retry hp hattempt hresult =>
      refine h.send (fun k req hmem => ?_) (fun hf => absurd (hp.symm.trans hf) (by decide)) ?_
      · obtain ⟨d, hd, hle, -⟩ := h.sent i k req hmem
        obtain rfl : c = d := by simpa [hc] using hd
        omega
      · rw [hresult]
        exact h.result i c hc

theorem Reachable.inv {s₀ : System ι σ} (h : Reachable ops endpoint clients s₀ s)
    (hinit : s₀.Initial) : Inv ops clients s := by
  induction h with
  | refl => exact Inv.init hinit
  | tail _ hstep ih => exact ih.step hstep

/-! ## One holder at a time -/

omit [DecidableEq ι] in
theorem Inv.acquires (h : Inv ops clients s) {e : Event} (he : e ∈ s.events) {t : UInt64}
    (hs : e.Succeeds t) : ∃ g, e.effect = .acquire t g ∧ e.request.engine = some g := by
  obtain ⟨endpoint, random, st, hreply⟩ := h.genuine e he
  obtain ⟨-, r, hr, hmsg, -⟩ := id hs
  obtain ⟨-, g, -, hg, -⟩ := process_neogiate (hreply ▸ hr) hmsg
  exact ⟨g, Event.effect_acquire_iff.mpr ⟨hs, hg⟩, hg⟩

omit [DecidableEq ι] in
/-- Between two negotiations that succeed for an id, the server has processed a release of it. -/
theorem Inv.release_between (h : Inv ops clients s) {pre mid post : List Event} {e e' : Event}
    (hlog : s.events = pre ++ e :: mid ++ e' :: post) {t : UInt64} (he : e.Succeeds t)
    (he' : e'.Succeeds t) : ∃ x ∈ mid, x.Releases t := by
  obtain ⟨g, hg, -⟩ := h.acquires (by simp [hlog]) he
  obtain ⟨g', hg', -⟩ := h.acquires (by simp [hlog]) he'
  have hexclusive := h.exclusive
  rw [hlog, List.map_append, List.map_append, List.map_cons, List.map_cons, hg, hg']
    at hexclusive
  obtain ⟨x, hx, hrelease⟩ := List.mem_map.mp hexclusive.release_between
  exact ⟨x, hx, Event.effect_release_iff.mp hrelease⟩

omit [DecidableEq ι] in
/-- What the server has recorded for a bound id is from the last negotiation that succeeded. -/
theorem Inv.recorded (h : Inv ops clients s) {t : UInt64} {key : Str × Str} {deps : List Engine}
    (hbound : s.storage.dManager.getTaskEngine t = some (key, deps)) :
    ∃ pre e post, s.events = pre ++ e :: post ∧ e.Succeeds t ∧
      (∀ x ∈ post, ¬ x.Succeeds t ∧ ¬ x.Releases t) ∧
      ∃ g, e.request.engine = some g ∧ key = engineKey t g ∧ deps = g.deps := by
  rw [h.tables.engine] at hbound
  obtain ⟨g, hg, hkey⟩ := Option.map_eq_some_iff.mp hbound
  cases hkey
  obtain ⟨pre, post, hmap, hrelease, hacquire⟩ := Lease.last_of_holder hg
  obtain ⟨pre, rest, hevents, rfl, hrest⟩ := List.map_eq_append_iff.mp hmap
  obtain ⟨e, post, rfl, he, rfl⟩ := List.map_eq_cons_iff.mp hrest
  obtain ⟨hs, hengine⟩ := Event.effect_acquire_iff.mp he
  refine ⟨pre, e, post, hevents, hs, fun x hx => ⟨fun hxs => ?_, fun hxr => ?_⟩, g, hengine, rfl,
    rfl⟩
  · obtain ⟨g', hg', -⟩ := h.acquires (by simp [hevents, hx]) hxs
    exact hacquire g' (List.mem_map.mpr ⟨x, hx, hg'⟩)
  · exact hrelease (List.mem_map.mpr ⟨x, hx, Event.effect_release_iff.mpr hxr⟩)

/-- **A task id has one holder at a time.** In every reachable state: between two negotiations that
succeed for an id the server has processed a `terminate` or `done` for it; the engine and the
dependencies of a bound id are those of the last negotiation that succeeded for it; and an id that
a call returns was granted to its own request. -/
theorem neogiate_exclusive {s₀ : System ι σ} (hinit : s₀.Initial)
    (h : Reachable ops endpoint clients s₀ s) :
    (∀ pre e mid e' post t, s.events = pre ++ e :: mid ++ e' :: post → e.Succeeds t →
      e'.Succeeds t → ∃ x ∈ mid, x.Releases t) ∧
    (∀ t key deps, s.storage.dManager.getTaskEngine t = some (key, deps) →
      ∃ pre e post, s.events = pre ++ e :: post ∧ e.Succeeds t ∧
        (∀ x ∈ post, ¬ x.Succeeds t ∧ ¬ x.Releases t) ∧
        ∃ g, e.request.engine = some g ∧ key = engineKey t g ∧ deps = g.deps) ∧
    ∀ i c, s.calls i = some c → c.result ≠ 0 → ∃ x ∈ s.log, ∃ k, x.sender = some (i, k) ∧
      x.event.request = neogiateRequest (clients i).ctx c.result (clients i).engine ∧
      x.event.Succeeds c.result := by
  have hinv := h.inv hinit
  exact ⟨fun _ _ _ _ _ _ hlog he he' => hinv.release_between hlog he he',
    fun _ _ _ hbound => hinv.recorded hbound, hinv.result⟩

/-- One client that asks for the id `5`, and a server that has just started. -/
def oneClient (_ : Unit) : Client :=
  ⟨⟨Endpoint.new, Endpoint.new, []⟩, 5, { Engine.new with binary := [0x7f] }⟩

def oneSystem : System Unit Posix.Fs := ⟨newNode, fun _ => none, [], []⟩

theorem oneSystem_run : ∃ s c, Reachable localFileoperations Endpoint.new oneClient oneSystem s ∧
    s.calls () = some c ∧ c.result = 5 := by
  have hsent := Reachable.refl.tail (.call () rfl : Step localFileoperations Endpoint.new oneClient
    oneSystem _)
  have hserved := hsent.tail (.serve 1 (by decide) () 0 _ List.mem_cons_self)
  have hreturned := hserved.tail (.finish () (Call.start 5) ⟨.returned, 5, 5, false, 0⟩
    (process localFileoperations Endpoint.new 1 newNode ((oneClient ()).request 5)).1 rfl
    (by decide) (fun r hr => ⟨_, List.mem_cons_self, rfl, hr⟩) rfl rfl)
  exact ⟨_, _, hreturned, rfl, rfl⟩

theorem neogiate_exclusive_oneSystem : ∃ (s : System Unit Posix.Fs) (c : Call),
    s.calls () = some c ∧ c.result = 5 ∧ ∃ x ∈ s.log, ∃ k, x.sender = some ((), k) ∧
      x.event.request = (oneClient ()).request 5 ∧ x.event.Succeeds 5 := by
  obtain ⟨s, c, hreach, hc, hresult⟩ := oneSystem_run
  have hinit : oneSystem.Initial :=
    ⟨newNode_fresh.taskEngine, newNode_fresh.taskExtfiles, fun _ => rfl, rfl, rfl⟩
  have hgranted := (neogiate_exclusive hinit hreach).2.2 () c hc (by rw [hresult]; decide)
  rw [hresult] at hgranted
  exact ⟨s, c, hc, hresult, hgranted⟩

/-- No callback uses a null pointer, whatever it receives. -/
theorem deliver_isSome {s₀ : System ι σ} (hinit : s₀.Initial)
    (h : Reachable ops endpoint clients s₀ s) {i : ι} {c : Call} {resp : Option Response}
    (hresp : ∀ r, resp = some r → s.Replied i c r) : (c.deliver resp).isSome := by
  refine c.deliver_isSome fun r hr hmsg => ?_
  obtain ⟨x, hx, -, hreply⟩ := hresp r hr
  obtain ⟨endpoint, random, st, hgenuine⟩ := (h.inv hinit).genuine x.event
    (List.mem_map_of_mem hx)
  obtain ⟨-, -, n, -, hn⟩ := process_neogiate (hgenuine ▸ hreply) hmsg
  rw [hn]
  rfl

end Jxtd.Management
