import Jxtd.Computation.Program
import Jxtd.Management.Release

/-!
# How long a task id is held

The clients, the storage and the cluster of `System`, where the cluster is the one that its program
sets up. Its results are not reported to the storage, so that only a client can end a task there.

* `Unreported`: no `done` was sent, and none can be.
* `Unterminated`: no client has asked the storage to end a task.
* `Step.storage_cases`: what a step does to the storage.
* **`held_until_terminate`**: a task id that was granted is held until it is terminated.
-/

namespace Jxtd.Management.Release

open Lib Taskdep Infer Storage Jxtd.Computation

variable {ι σ : Type} {cfg : Config ι σ} {s s' s₀ : System ι σ} {t : UInt64}

/-- The cluster sends no `done`, and has sent none. -/
structure Unreported (s : System ι σ) : Prop where
  sends : ¬ s.cluster.Sends
  sent : ∀ m ∈ s.sent, m.request.msg ≠ MsgType.done.toUInt32

theorem Unreported.send (h : Unreported s) (origin : Origin ι) {req : Request}
    (hreq : req.msg ≠ MsgType.done.toUInt32) : Unreported (s.send origin req) := by
  refine ⟨h.sends, fun m hm => ?_⟩
  rcases List.mem_append.mp hm with hm | hm
  · exact h.sent m hm
  · rw [List.mem_singleton.mp hm]
    exact hreq

theorem Unreported.step (h : Unreported s) (hstep : Step cfg s s') : Unreported s' := by
  have hclient (i : ι) (req : Request) (dest : AddrType) (msg : MsgType) (t : UInt64)
      (hheader : header req = (AddrType.management.toUInt32, dest.toUInt32, msg.toUInt32, t))
      (hmsg : msg.toUInt32 ≠ MsgType.done.toUInt32) : Unreported (s.send (.client i) req) := by
    have hreq : req.msg = msg.toUInt32 := congrArg (·.2.2.1) hheader
    exact h.send (.client i) (by rwa [hreq])
  cases hstep with
  | neogiate i t engine =>
    exact hclient i _ .storage .neogiate t (header_neogiateRequest _ t engine) (by decide)
  | deploy i t datasource attr =>
    exact hclient i _ .cluster .deploy t (header_deployRequest _ t datasource attr) (by decide)
  | terminate i t => exact hclient i _ .storage .terminate t rfl (by decide)
  | terminateCluster i t m hm horigin hreq =>
    exact hclient i _ .cluster .terminate t rfl (by decide)
  | serve random k m hm hdest => exact ⟨h.sends, h.sent⟩
  | handle manager k m hm hdest out hout =>
    exact ⟨fun hsends => h.sends ((Taskmanager.sends_congr (ends_process hout)).mp hsends), h.sent⟩
  | complete t tm done hdone =>
    have hends := ends_removeTask hdone
    have hsends : ¬ tm.Sends := fun hsends => h.sends ((Taskmanager.sends_congr hends).mp hsends)
    cases done with
    | none => exact ⟨hsends, h.sent⟩
    | some req =>
      exact absurd (sends_of_removeTask hdone) hsends

/-! ## The storage -/

/-- No client has asked the storage to end the task. -/
def Unterminated (s : System ι σ) (t : UInt64) : Prop :=
  ∀ m ∈ s.sent, m.request.dest = AddrType.storage.toUInt32 →
    m.request.msg = MsgType.terminate.toUInt32 → m.request.taskid ≠ t

theorem Unterminated.send (h : Unterminated s t) (origin : Origin ι) {req : Request}
    (hreq : req.msg ≠ MsgType.terminate.toUInt32) : Unterminated (s.send origin req) t := by
  intro m hm hdest hmsg
  rcases List.mem_append.mp hm with hm | hm
  · exact h m hm hdest hmsg
  · rw [List.mem_singleton.mp hm] at hmsg
    exact absurd hmsg hreq

/-- **What a step does to the storage**: nothing, or it serves a message that was sent to it. -/
theorem Step.storage_cases (hstep : Step cfg s s') :
    s.sent ⊆ s'.sent ∧ (s'.storage = s.storage ∧ s'.log = s.log ∨
      ∃ random k, ∃ m ∈ s.sent, m.request.dest = AddrType.storage.toUInt32 ∧
        s' = s.serve cfg random k m.request) := by
  have hsend (origin : Origin ι) (req : Request) : s.sent ⊆ (s.send origin req).sent :=
    List.subset_append_left _ _
  cases hstep with
  | neogiate i t engine => exact ⟨hsend _ _, .inl ⟨rfl, rfl⟩⟩
  | deploy i t datasource attr => exact ⟨hsend _ _, .inl ⟨rfl, rfl⟩⟩
  | terminate i t => exact ⟨hsend _ _, .inl ⟨rfl, rfl⟩⟩
  | terminateCluster i t m hm horigin hreq => exact ⟨hsend _ _, .inl ⟨rfl, rfl⟩⟩
  | serve random k m hm hdest =>
    exact ⟨List.Subset.refl _, .inr ⟨random, k, m, List.mem_of_getElem? hm, hdest, rfl⟩⟩
  | handle manager k m hm hdest out hout => exact ⟨List.Subset.refl _, .inl ⟨rfl, rfl⟩⟩
  | complete t tm done hdone =>
    cases done with
    | none => exact ⟨List.Subset.refl _, .inl ⟨rfl, rfl⟩⟩
    | some req => exact ⟨hsend _ _, .inl ⟨rfl, rfl⟩⟩

section Process

variable {ops : Operations σ} {endpoint : Endpoint} {random : UInt64} {st : State σ} {req : Request}

/-- A negotiation for a task that is bound does not succeed. -/
theorem not_succeeds (hbound : st.dManager.taskExist t = true) :
    ¬ (Event.mk req (process ops endpoint random st req).1).Succeeds t := by
  intro hs
  have hdoes := process_does ops endpoint random st req
  obtain ⟨-, r, hr, hmsg, -⟩ := id hs
  obtain ⟨-, engine, -, hengine, -⟩ := process_neogiate hr hmsg
  obtain ⟨hfree, -⟩ := hdoes.acquire (Event.effect_acquire_iff.mpr ⟨hs, hengine⟩)
  rw [hbound] at hfree
  cases hfree

/-- **A bound task stays bound** in a request that does not release it. -/
theorem getTaskEngine_process (hbound : st.dManager.taskExist t = true)
    (hdone : req.msg ≠ MsgType.done.toUInt32)
    (hterminate : req.msg = MsgType.terminate.toUInt32 → req.taskid ≠ t) :
    (process ops endpoint random st req).2.dManager.getTaskEngine t =
      st.dManager.getTaskEngine t := by
  have hdoes := process_does ops endpoint random st req
  cases heff : (Event.mk req (process ops endpoint random st req).1).effect with
  | none => rw [hdoes.none heff]
  | acquire t' engine =>
    obtain ⟨hfree, hout⟩ := hdoes.acquire heff
    have hne : t ≠ t' := by
      rintro rfl
      rw [hbound] at hfree
      cases hfree
    rw [hout, getTaskEngine_accept hfree, Function.update_of_ne hne]
  | release t' =>
    obtain ⟨hid, r, hr, hmsg⟩ := Event.effect_release_iff.mp heff
    obtain ⟨hsame, -⟩ := process_reply hr
    have hne : t ≠ t' := by
      rintro rfl
      rcases hmsg with hmsg | hmsg
      · exact hterminate (hsame ▸ hmsg) hid
      · exact hdone (hsame ▸ hmsg)
    rw [hdoes.release heff, getTaskEngine_release, Function.update_of_ne hne]

end Process

/-! ## Runs -/

theorem Reachable.unreported (h : Reachable cfg s₀ s) (hstart : Unreported s₀) : Unreported s := by
  induction h with
  | refl => exact hstart
  | tail _ hstep ih => exact ih.step hstep

/-- The storage keeps the task, and grants it in none of the requests since. -/
structure Held (s : System ι σ) (t : UInt64) (s' : System ι σ) : Prop where
  engine : s'.storage.dManager.getTaskEngine t = s.storage.dManager.getTaskEngine t
  log : ∃ rest, s'.log = s.log ++ rest ∧ ∀ x ∈ rest, ¬ x.event.Succeeds t

theorem Held.refl (s : System ι σ) (t : UInt64) : Held s t s :=
  ⟨rfl, [], (List.append_nil _).symm, by simp⟩

/-- The storage serves a request that does not release the task. -/
theorem Held.serve (h : Held s t s') (hbound : s.storage.dManager.taskExist t = true)
    (random : UInt64) (k : ℕ) {req : Request} (hdone : req.msg ≠ MsgType.done.toUInt32)
    (hterminate : req.msg = MsgType.terminate.toUInt32 → req.taskid ≠ t) :
    Held s t (s'.serve cfg random k req) := by
  have hbound' : s'.storage.dManager.taskExist t = true := by
    rw [Datamanager.taskExist_eq, h.engine, ← Datamanager.taskExist_eq]
    exact hbound
  obtain ⟨rest, hlog, hrest⟩ := h.log
  refine ⟨(getTaskEngine_process hbound' hdone hterminate).trans h.engine,
    rest ++ [⟨k, req, (process cfg.ops cfg.storage random s'.storage req).1⟩], ?_, ?_⟩
  · rw [System.serve, hlog, List.append_assoc]
  · intro x hx
    rcases List.mem_append.mp hx with hx | hx
    · exact hrest x hx
    · rw [List.mem_singleton.mp hx]
      exact not_succeeds hbound'

theorem Reachable.held (h : Reachable cfg s s') (hstart : Unreported s)
    (hbound : s.storage.dManager.taskExist t = true) (hno : Unterminated s' t) : Held s t s' := by
  induction h with
  | refl => exact Held.refl s t
  | @tail s₁ s₂ h hstep ih =>
    obtain ⟨hsent, hsame | ⟨random, k, m, hm, hdest, rfl⟩⟩ := hstep.storage_cases
    · have hheld := ih fun m hm => hno m (hsent hm)
      exact ⟨hsame.1 ▸ hheld.engine, hsame.2 ▸ hheld.log⟩
    · have hheld := ih fun m hm => hno m (hsent hm)
      exact hheld.serve hbound random k ((h.unreported hstart).sent m hm) (hno m (hsent hm) hdest)

theorem unreported_initial {flags : Flags} (hinit : s₀.Initial)
    (hcluster : s₀.cluster = taskManager flags) : Unreported s₀ := by
  constructor
  · rw [hcluster]
    exact not_sends_taskManager flags
  · rw [hinit.sent]
    exact fun m hm => absurd hm List.not_mem_nil

/-- **A task id is held until it is terminated.** In every run with the cluster of the program: when
an id was granted and no client asks the storage to terminate it, the storage keeps what it is bound
to and grants it to nobody, also after the result of the task has come. -/
theorem held_until_terminate {flags : Flags} (hinit : s₀.Initial)
    (hcluster : s₀.cluster = taskManager flags) (h : Reachable cfg s₀ s) (h' : Reachable cfg s s')
    (hbound : s.storage.dManager.taskExist t = true) (hno : Unterminated s' t) : Held s t s' :=
  h'.held (h.unreported (unreported_initial hinit hcluster)) hbound hno

/-- The flags of a cluster with a storage. -/
def nodeFlags : Flags := ⟨lit "c", lit "n", 1, [], []⟩

/-- The two clients with the cluster of the program. -/
def programSystem : System Bool Posix.Fs := { twoSystem with cluster := taskManager nodeFlags }

theorem programSystem_initial : programSystem.Initial :=
  ⟨newNode_fresh.taskEngine, newNode_fresh.taskExtfiles, blank_taskManager nodeFlags, rfl, rfl⟩

/-- The first client is granted `5`. -/
def programGranted : System Bool Posix.Fs :=
  (programSystem.send (.client false) negotiation).serve twoClients 1 0 negotiation

theorem programGranted_reachable : Reachable twoClients programSystem programGranted :=
  (Reachable.refl.tail (.neogiate false 5 oneByteEngine)).tail
    (.serve 1 0 ⟨.client false, negotiation, 0⟩ rfl rfl)

/-- The first client deploys `5`, its result comes, and the second client asks for the id. -/
theorem held_until_terminate_five : ∃ s, Reachable twoClients programGranted s ∧
    s.log.length = 2 ∧ s.cluster.tasks = ∅ ∧ Held programGranted 5 s := by
  have hsent : Reachable twoClients programGranted _ :=
    Reachable.refl.tail (.deploy false 5 datasource .new)
  have hdeployed := hsent.tail (.handle oneServer 1 ⟨.client false, deployment, 1⟩ rfl rfl _ rfl)
  have hended := hdeployed.tail (.complete 5 _ _ rfl)
  have hasked := hended.tail (.neogiate true 5 oneByteEngine)
  have hserved := hasked.tail (.serve 1 2 ⟨.client true, negotiation, 1⟩ rfl rfl)
  have hno : Unterminated programGranted 5 := by
    refine Unterminated.send ?_ (.client false) (by decide)
    exact fun m hm => absurd hm List.not_mem_nil
  refine ⟨_, hserved, rfl, rfl, held_until_terminate programSystem_initial rfl
    programGranted_reachable hserved rfl ?_⟩
  exact (hno.send (.client false) (by decide)).send (.client true) (by decide)

end Jxtd.Management.Release
