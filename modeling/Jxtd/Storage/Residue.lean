import Jxtd.Storage.History

/-!
# Residue of a task id

A release takes the engine and the extra files of a task away, not its runtime data: nothing calls
`runtime_remove`. What was pushed for an id is still there when it is negotiated again.

* `Reused`: a history with a release of an id and a new negotiation of it at its end.
* `SameReplies`: whatever follows, pulls of runtime data return the same.
* **`residue_iff`**: so they do exactly when the histories pushed the same for the id.
* `residue`: data from before a release is returned after it.
-/

namespace Jxtd.Storage

open Lib Posix Datatrans

/-- A history that ends with a release of an id and a new negotiation of it. -/
structure Reused (endpoint : Taskdep.Endpoint) (st : State Fs) (t : UInt64)
    (history : List NodeEvent) (x : State Fs × List Event) : Prop where
  run : run (nodeStep endpoint) (st, []) history = .ok x
  ends : ∃ before release k negotiation k',
    history = before ++ [.taskdep release k, .taskdep negotiation k'] ∧
    ∃ log a b, x.2 = log ++ [⟨release, a⟩, ⟨negotiation, b⟩] ∧
      (Event.mk release a).Releases t ∧ (Event.mk negotiation b).Succeeds t

/-- After the same requests, pulls of a task's runtime data have the same replies. -/
def SameReplies (endpoint : Taskdep.Endpoint) (t : UInt64) (x y : State Fs × List Event) : Prop :=
  ∀ post x' y', run (nodeStep endpoint) x post = .ok x' → run (nodeStep endpoint) y post = .ok y' →
    ∀ master : Datatransfer.Adtsrc, master.type = Datatype.endpoint.toUInt32 →
      master.taskid.toUInt64 = t → pullReply x'.1 master = pullReply y'.1 master

section Residue

variable {endpoint : Taskdep.Endpoint} {st : State Fs} {p : Path} {t : UInt64} {r : Str}
  {h h' : List NodeEvent} {x y : State Fs × List Event}

/-- A request names a task with 32 bits. -/
theorem runtimeLog_of_le (ht : 2 ^ 32 ≤ t.toNat) (h : List NodeEvent) : runtimeLog t h = [] := by
  have hpushes : pushes NodeEvent.runtime t h = [] := by
    refine List.filterMap_eq_nil_iff.mpr fun q hq => if_neg ?_
    obtain ⟨e, -, he⟩ := List.mem_filterMap.mp hq
    rintro rfl
    cases e with
    | taskdep req random => cases he
    | datatrans direction master =>
      simp only [NodeEvent.runtime] at he
      split_ifs at he
      cases he
      have hlt := master.taskid.toNat_lt
      rw [UInt32.toNat_toUInt64] at ht
      omega
  rw [runtimeLog, hpushes]
  rfl

/-- A push of runtime data. -/
def runtimePushRequest (t : UInt64) (data : Str) : NodeEvent :=
  .datatrans 1 { Datatransfer.Adtsrc.new with
    taskid := t.toUInt32, type := Datatype.endpoint.toUInt32, binary := data }

theorem runtimeLog_request (ht : t.toNat < 2 ^ 32) (data : Str) :
    runtimeLog t [runtimePushRequest t data] = data := by
  refine runtimeLog_single ?_
  simp [runtimePushRequest, NodeEvent.runtime, toUInt64_toUInt32 ht]

theorem exists_run_request (endpoint : Taskdep.Endpoint) (x : State Fs × List Event) (t : UInt64)
    (data : Str) :
    ∃ x', run (nodeStep endpoint) x [runtimePushRequest t data] = .ok x' := ⟨_, rfl⟩

theorem SameReplies.visible (hsame : SameReplies endpoint t x y) (hspares : SparesRuntime p r t)
    (hx : Holding r p x h) (hy : Holding r p y h') :
    visible (runtimeLog t h) = visible (runtimeLog t h') := by
  rcases le_or_gt (2 ^ 32) t.toNat with ht | ht
  · rw [runtimeLog_of_le ht, runtimeLog_of_le ht]
  · obtain ⟨master, rfl, htype⟩ : ∃ master : Datatransfer.Adtsrc, master.taskid.toUInt64 = t ∧
        master.type = Datatype.endpoint.toUInt32 :=
      ⟨{ Datatransfer.Adtsrc.new with
        taskid := t.toUInt32, type := Datatype.endpoint.toUInt32 }, toUInt64_toUInt32 ht, rfl⟩
    refine readBack_append_iff.mp fun more => ?_
    obtain ⟨x', hx'⟩ := exists_run_request endpoint x master.taskid.toUInt64 more
    obtain ⟨y', hy'⟩ := exists_run_request endpoint y master.taskid.toUInt64 more
    have hreply := hsame _ x' y' hx' hy' master htype rfl
    rw [runtimeReply_eq (hx.run hx') hspares htype, runtimeReply_eq (hy.run hy') hspares htype]
      at hreply
    have hread := map_injective (fun a b hab => by simpa using hab) hreply
    simp only [runtimeLog_append, runtimeLog_request ht] at hread
    exact hread

theorem sameReplies_of_visible (hspares : SparesRuntime p r t) (hx : Holding r p x h)
    (hy : Holding r p y h') (hvisible : visible (runtimeLog t h) = visible (runtimeLog t h')) :
    SameReplies endpoint t x y := by
  rintro post x' y' hx' hy' master htype rfl
  rw [runtimeReply_eq (hx.run hx') hspares htype, runtimeReply_eq (hy.run hy') hspares htype,
    runtimeLog_append, runtimeLog_append, readBack_congr hvisible]

/-- **Residue.** After two histories in which an id is released and negotiated again, all pulls of
its runtime data have the same replies exactly when the histories pushed the same for the id, as far
as pulls can tell. Under the root no binary is pushed there. -/
theorem residue_iff (hst : Blank st.dManager st.fs p)
    (hroot : SparesEngines p st.dManager.rootPath)
    (hspares : SparesRuntime p st.dManager.rootPath t) (hx : Reused endpoint st t h x)
    (hy : Reused endpoint st t h' y) :
    SameReplies endpoint t x y ↔ visible (runtimeLog t h) = visible (runtimeLog t h') := by
  have hx' := hst.run_holding hroot hx.run
  have hy' := hst.run_holding hroot hy.run
  exact ⟨fun hsame => hsame.visible hspares hx' hy', sameReplies_of_visible hspares hx' hy'⟩

end Residue

/-! ## Task `5` of a new node -/

/-- The release of task `5`. -/
def terminateRequest : Taskdep.Request :=
  ((Taskdep.Request.new.setType .management .storage .terminate).setTaskid
    5).setObjectManagement Taskdep.Endpoint.new

/-- Task `5` is released and negotiated again after some requests. -/
def reusedHistory (before : List NodeEvent) : List NodeEvent :=
  before ++ [.taskdep terminateRequest 0, .taskdep oneByteRequest 0]

/-- A pull of the runtime data of task `5`. -/
def runtimePullSource : Datatransfer.Adtsrc :=
  { Datatransfer.Adtsrc.new with taskid := 5, type := Datatype.endpoint.toUInt32 }

theorem reused_pushed : ∃ x, Reused Taskdep.Endpoint.new newNode 5
    (reusedHistory [.taskdep oneByteRequest 0, runtimePushRequest 5 [0x01]]) x ∧
      pullReply x.1 runtimePullSource =
        .ok (some ⟨{ runtimePullSource with binary := [0x01] }, []⟩) := by
  refine ⟨_, ⟨rfl, _, _, _, _, _, rfl, [_], _, _, rfl, ?_, ?_⟩, rfl⟩
  · exact ⟨rfl, _, rfl, .inl rfl⟩
  · exact ⟨rfl, _, rfl, rfl, _, rfl, rfl⟩

theorem reused_fresh : ∃ y, Reused Taskdep.Endpoint.new newNode 5 (reusedHistory []) y ∧
    pullReply y.1 runtimePullSource = .ok (some ⟨runtimePullSource, []⟩) := by
  refine ⟨_, ⟨rfl, _, _, _, _, _, rfl, [], _, _, rfl, ?_, ?_⟩, rfl⟩
  · exact ⟨rfl, _, rfl, .inl rfl⟩
  · exact ⟨rfl, _, rfl, rfl, _, rfl, rfl⟩

theorem residue_newNode : ∃ x y,
    Reused Taskdep.Endpoint.new newNode 5
      (reusedHistory [.taskdep oneByteRequest 0, runtimePushRequest 5 [0x01]]) x ∧
    Reused Taskdep.Endpoint.new newNode 5 (reusedHistory []) y ∧
    (SameReplies Taskdep.Endpoint.new 5 x y ↔ visible [0x01] = visible []) := by
  obtain ⟨x, hx, -⟩ := reused_pushed
  obtain ⟨y, hy, -⟩ := reused_fresh
  exact ⟨x, y, hx, hy, residue_iff newNode_blank newNode_stays.sparesEngines
    (newNode_stays.sparesRuntime 5) hx hy⟩

/-- **Data from before the release** is returned after the next negotiation. -/
theorem residue : ∃ x y,
    Reused Taskdep.Endpoint.new newNode 5
      (reusedHistory [.taskdep oneByteRequest 0, runtimePushRequest 5 [0x01]]) x ∧
    Reused Taskdep.Endpoint.new newNode 5 (reusedHistory []) y ∧
    pullReply x.1 runtimePullSource =
      .ok (some ⟨{ runtimePullSource with binary := [0x01] }, []⟩) ∧
    ¬ SameReplies Taskdep.Endpoint.new 5 x y := by
  obtain ⟨x, hx, hxreply⟩ := reused_pushed
  obtain ⟨y, hy, hyreply⟩ := reused_fresh
  refine ⟨x, y, hx, hy, hxreply, fun hsame => ?_⟩
  have hreply := hsame [] x y rfl rfl runtimePullSource rfl rfl
  rw [hxreply, hyreply] at hreply
  exact absurd hreply (by decide)

end Jxtd.Storage
