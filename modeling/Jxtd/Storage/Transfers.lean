import Jxtd.Storage.History

/-!
# Transfers of different tasks

`RuntimePull` and `RuntimePush` use a file for each task. `BinaryPull` and `BinaryPush` use the path
of the root for all of them, and a binary that is there is not replaced.

* `runtimeReply_congr`: the reply to a runtime pull is decided by the pushes for its task.
* **`transfers_iff`**: that to a binary pull is by the first push for any task.
* `transfers_interfere`: a pull returns the binary of another task.
-/

namespace Jxtd.Storage

open Lib Posix Datatrans

section Transfers

variable {endpoint : Taskdep.Endpoint} {st : State Fs} {p : Path} {r data : Str} {t : UInt64}
  {h h' before after : List NodeEvent} {w x y : State Fs × List Event} {e : NodeEvent}
  {master : Datatransfer.Adtsrc}

/-- Data that a pull gives back. -/
theorem readBack_eq_self_iff : readBack data = .ok data ↔ data.length < 2 ^ 31 := by
  refine ⟨fun hread => ?_, readBack_of_lt⟩
  have hlt : Datamanager.narrow data.length < 2 ^ 31 := Int.bmod_lt (by decide)
  unfold readBack at hread
  split_ifs at hread
  · rw [← Except.ok.inj hread]
    decide
  · have hlen := congrArg List.length (Except.ok.inj hread)
    rw [List.length_take] at hlen
    omega

/-- **A runtime pull** depends on the runtime pushes for its task only. -/
theorem runtimeReply_congr (hx : Holding r p x h) (hy : Holding r p y h')
    (hspares : SparesRuntime p r master.taskid.toUInt64)
    (htype : master.type = Datatype.endpoint.toUInt32)
    (hagree : pushes NodeEvent.runtime master.taskid.toUInt64 h =
      pushes NodeEvent.runtime master.taskid.toUInt64 h') :
    pullReply x.1 master = pullReply y.1 master := by
  rw [runtimeReply_eq hx hspares htype, runtimeReply_eq hy hspares htype, runtimeLog, runtimeLog,
    hagree]

/-- What decides the reply to a binary pull. -/
def SameBinary (p : Path) (r : Str) (h h' : List NodeEvent) : Prop :=
  Ends p r →
    readBack ((firstBinary h).getD []) = readBack ((firstBinary h').getD [])

theorem binaryReply_congr_iff (hstays : StaysAlong p r) (hx : Holding r p x h)
    (hy : Holding r p y h') (htype : master.type = Datatype.binary.toUInt32) :
    pullReply x.1 master = pullReply y.1 master ↔ SameBinary p r h h' := by
  have hinjective : Function.Injective fun binary : Str =>
      some (⟨{ Datatransfer.Adtsrc.new with
        taskid := master.taskid, type := Datatype.binary.toUInt32, binary := binary },
        []⟩ : Datatransfer.Dtsrc) := fun a b hab => by simpa using hab
  rw [binaryReply_eq hx hstays htype, binaryReply_eq hy hstays htype,
    (map_injective hinjective).eq_iff, binaryData, binaryData, SameBinary]
  split_ifs with hlast
  · simp [hlast]
  · simp [hlast]

/-- A push that succeeds is the first one. -/
theorem Holding.first_of_success (hw : Holding r p w h) (hstays : StaysAlong p r)
    (hsuccess : (w.1.dManager.binaryPush localFileoperations w.1.fs r data).1 = 0) :
    Ends p r ∧ firstBinary h = none := by
  have hbinary := hw.binary hstays
  have h₀ : 0 ∉ r := hw.rootPath ▸ hw.node.layout.root
  have hcode : (-1 : ℤ) ≠ 0 := by decide
  by_cases hends : Ends p r
  · refine ⟨hends, ?_⟩
    by_contra hfirst
    have hnode : w.1.fs.node (binaryTarget p r) ≠ none := by
      rw [hbinary.node hends]
      simpa using hfirst
    rw [binaryPush_old hw.node.layout h₀ hbinary.noFile hnode] at hsuccess
    exact hcode hsuccess
  · rw [binaryPush_dot hw.node.layout h₀ hbinary.noFile hends] at hsuccess
    exact absurd hsuccess hcode

/-- **A pull after a push that succeeds** returns its data, whatever is between them. -/
theorem binaryReply_success (hstays : StaysAlong p r) (hw : Holding r p w before)
    (hx : Holding r p x (before ++ e :: after)) (he : e.binary = some (t, data))
    (hsuccess : (w.1.dManager.binaryPush localFileoperations w.1.fs r data).1 = 0)
    (htype : master.type = Datatype.binary.toUInt32) :
    pullReply x.1 master = (readBack data).map fun binary =>
      some ⟨{ Datatransfer.Adtsrc.new with
        taskid := master.taskid, type := Datatype.binary.toUInt32, binary := binary }, []⟩ := by
  obtain ⟨hends, hfirst⟩ := hw.first_of_success hstays hsuccess
  have hdata : firstBinary (before ++ e :: after) = some data := by
    rw [firstBinary_append, hfirst, Option.none_or, ← List.singleton_append, firstBinary_append,
      firstBinary_single he, Option.some_or]
  rw [binaryReply_eq hx hstays htype, binaryData, if_pos hends, hdata, Option.getD_some]

/-- **Transfers of different tasks.** The reply to a runtime pull is decided by the runtime pushes
for its task, unless the root leads binaries there. Under a root that stays in the binary area, where
two sequences agree on the binary pushes for a task, the replies to its binary pulls are the same
exactly when the first binaries of all tasks give the same back. A pull after a push that succeeds
returns the pushed bytes exactly when `int` can count them. -/
theorem transfers_iff (hst : Blank st.dManager st.fs p)
    (hroot : SparesEngines p st.dManager.rootPath)
    (hx : run (nodeStep endpoint) (st, []) h = .ok x)
    (hy : run (nodeStep endpoint) (st, []) h' = .ok y) (master : Datatransfer.Adtsrc) :
    (SparesRuntime p st.dManager.rootPath master.taskid.toUInt64 →
      master.type = Datatype.endpoint.toUInt32 →
      pushes NodeEvent.runtime master.taskid.toUInt64 h =
        pushes NodeEvent.runtime master.taskid.toUInt64 h' →
      pullReply x.1 master = pullReply y.1 master) ∧
    (StaysAlong p st.dManager.rootPath → master.type = Datatype.binary.toUInt32 →
      pushes NodeEvent.binary master.taskid.toUInt64 h =
        pushes NodeEvent.binary master.taskid.toUInt64 h' →
      (pullReply x.1 master = pullReply y.1 master ↔ SameBinary p st.dManager.rootPath h h')) ∧
    (StaysAlong p st.dManager.rootPath →
      ∀ before e after w data, h = before ++ e :: after →
      run (nodeStep endpoint) (st, []) before = .ok w →
      e.binary = some (master.taskid.toUInt64, data) →
      (w.1.dManager.binaryPush localFileoperations w.1.fs st.dManager.rootPath data).1 = 0 →
      master.type = Datatype.binary.toUInt32 →
      (pullReply x.1 master = .ok (some ⟨{ Datatransfer.Adtsrc.new with
        taskid := master.taskid, type := Datatype.binary.toUInt32, binary := data }, []⟩) ↔
        data.length < 2 ^ 31)) := by
  have hx' := hst.run_holding hroot hx
  have hy' := hst.run_holding hroot hy
  refine ⟨runtimeReply_congr hx' hy',
    fun hstays htype _ => binaryReply_congr_iff hstays hx' hy' htype, ?_⟩
  rintro hstays before e after w data rfl hw he hsuccess htype
  rw [binaryReply_success hstays (hst.run_holding hroot hw) hx' he hsuccess htype,
    ← readBack_eq_self_iff]
  constructor
  · intro hreply
    obtain ⟨binary, hread, heq⟩ := map_eq_ok.mp hreply
    have hbinary : binary = data := by simpa using heq
    rw [hread, hbinary]
  · intro hread
    rw [hread]
    rfl

end Transfers

/-! ## Two tasks of a new node -/

/-- A push of a binary. -/
def binaryPushRequest (t : UInt32) (data : Str) : NodeEvent :=
  .datatrans 1 { Datatransfer.Adtsrc.new with
    taskid := t, type := Datatype.binary.toUInt32, binary := data }

/-- A pull of the binary of a task. -/
def binaryPullSource (t : UInt32) : Datatransfer.Adtsrc :=
  { Datatransfer.Adtsrc.new with taskid := t, type := Datatype.binary.toUInt32 }

theorem transfers_newNode : ∃ x,
    run (nodeStep Taskdep.Endpoint.new) (newNode, []) [binaryPushRequest 1 [0x01]] = .ok x ∧
    (pullReply x.1 (binaryPullSource 2) = pullReply newNode (binaryPullSource 2) ↔
      SameBinary [lit "data"] (lit "/data") [binaryPushRequest 1 [0x01]] []) ∧
    pullReply x.1 (binaryPullSource 1) =
      .ok (some ⟨{ binaryPullSource 1 with binary := [0x01] }, []⟩) := by
  have hx : run (nodeStep Taskdep.Endpoint.new) (newNode, []) [binaryPushRequest 1 [0x01]] =
      .ok _ := rfl
  have hy : run (nodeStep Taskdep.Endpoint.new) (newNode, []) [] = .ok (newNode, []) := rfl
  have htransfers := transfers_iff newNode_blank newNode_stays.sparesEngines hx hy
  refine ⟨_, hx, (htransfers (binaryPullSource 2)).2.1 newNode_stays rfl rfl, ?_⟩
  have hsuccess := (htransfers (binaryPullSource 1)).2.2 newNode_stays []
    (binaryPushRequest 1 [0x01]) [] (newNode, []) [0x01] rfl rfl rfl
  exact (hsuccess (by decide +kernel) rfl).mpr (by decide)

/-- **A pull returns the binary of another task.** -/
theorem transfers_interfere : ∃ x,
    run (nodeStep Taskdep.Endpoint.new) (newNode, []) [binaryPushRequest 1 [0x01]] = .ok x ∧
    pushes NodeEvent.binary 2 [binaryPushRequest 1 [0x01]] = pushes NodeEvent.binary 2 [] ∧
    pullReply x.1 (binaryPullSource 2) =
      .ok (some ⟨{ binaryPullSource 2 with binary := [0x01] }, []⟩) ∧
    pullReply x.1 (binaryPullSource 2) ≠ pullReply newNode (binaryPullSource 2) := by
  obtain ⟨x, hx⟩ : ∃ x, run (nodeStep Taskdep.Endpoint.new) (newNode, [])
      [binaryPushRequest 1 [0x01]] = .ok x := ⟨_, rfl⟩
  have hroot := newNode_stays.sparesEngines
  have hpushed : pullReply x.1 (binaryPullSource 2) =
      .ok (some ⟨{ binaryPullSource 2 with binary := [0x01] }, []⟩) := by
    have hdata : binaryData [lit "data"] newNode.dManager.rootPath
        [binaryPushRequest 1 [0x01]] = [0x01] := by
      decide +kernel
    rw [binaryReply_eq (newNode_blank.run_holding hroot hx) newNode_stays rfl, hdata,
      readBack_of_lt (by decide)]
    rfl
  have hnone : pullReply newNode (binaryPullSource 2) = .ok (some ⟨binaryPullSource 2, []⟩) := by
    have hdata : binaryData [lit "data"] newNode.dManager.rootPath [] = [] := by decide +kernel
    rw [binaryReply_eq (newNode_blank.holding hroot []) newNode_stays rfl, hdata,
      readBack_of_lt (by decide)]
    rfl
  refine ⟨x, hx, rfl, hpushed, ?_⟩
  rw [hpushed, hnone]
  decide

end Jxtd.Storage
