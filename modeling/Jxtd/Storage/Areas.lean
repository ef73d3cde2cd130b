import Jxtd.Lib.Except
import Jxtd.Lib.Run
import Jxtd.Storage.Taskdep

/-!
# Operations on the areas

The functions of the manager that work on files, as the steps of a state machine. What a step
returns to its caller is kept, so that runs can be compared by their answers.

* `AreaOp`, `Answer`: the calls and what they return.
* `areaStep`: one call.
* `AtEach`: what holds of every step of a run.
-/

namespace Jxtd.Storage

open Lib

/-- A call of a function of the manager on one of its areas. -/
inductive AreaOp
  | init (path : Str) (isNewRoot : Bool)
  | runtimePull (taskid : UInt64)
  | runtimePush (taskid : UInt64) (runtime : Str)
  | runtimeRemove (taskid : UInt64)
  | enginePull (mid name : Str)
  | enginePush (mid name engine : Str)
  | engineRemove (mid name : Str)
  | binaryPull (path : Str)
  | binaryPush (path binary : Str)
  | binaryRemove (path : Str)
  deriving DecidableEq

/-- What a call returns. -/
inductive Answer
  | code (n : ℤ)
  | data (s : Str)
  | void
  deriving DecidableEq

section Step

variable {σ : Type} (ops : Operations σ)

def areaStep (st : State σ) : AreaOp → Except Fault (Answer × State σ)
  | .init path isNewRoot =>
    let (n, d, fs) := st.dManager.init ops st.fs path isNewRoot
    .ok (.code n, ⟨d, fs⟩)
  | .runtimePull taskid =>
    (st.dManager.runtimePull ops st.fs taskid).map fun x => (.data x.1, { st with fs := x.2 })
  | .runtimePush taskid runtime =>
    let (n, fs) := st.dManager.runtimePush ops st.fs taskid runtime
    .ok (.code n, { st with fs := fs })
  | .runtimeRemove taskid =>
    .ok (.void, { st with fs := st.dManager.runtimeRemove ops st.fs taskid })
  | .enginePull mid name =>
    (st.dManager.enginePull ops st.fs mid name).map fun x => (.data x.1, { st with fs := x.2 })
  | .enginePush mid name engine =>
    let (n, fs) := st.dManager.enginePush ops st.fs mid name engine
    .ok (.code n, { st with fs := fs })
  | .engineRemove mid name =>
    .ok (.void, { st with fs := st.dManager.engineRemove ops st.fs mid name })
  | .binaryPull path =>
    (st.dManager.binaryPull ops st.fs path).map fun x => (.data x.1, { st with fs := x.2 })
  | .binaryPush path binary =>
    let (n, fs) := st.dManager.binaryPush ops st.fs path binary
    .ok (.code n, { st with fs := fs })
  | .binaryRemove path =>
    .ok (.void, { st with fs := st.dManager.binaryRemove ops st.fs path })

/-- The steps of a run that keeps the answers. -/
def areaRun (x : State σ × List Answer) (op : AreaOp) : Except Fault (State σ × List Answer) :=
  (areaStep ops x.1 op).map fun y => (y.2, x.2 ++ [y.1])

/-- Every step of a run has the property. -/
def AtEach (st : State σ) (inputs : List AreaOp) (P : State σ → AreaOp → State σ → Prop) : Prop :=
  ∀ pre op post x answer y, inputs = pre ++ op :: post → run (areaRun ops) (st, []) pre = .ok x →
    areaStep ops x.1 op = .ok (answer, y) → P x.1 op y

variable {ops} {st : State σ} {inputs : List AreaOp} {P Q : State σ → AreaOp → State σ → Prop}

theorem atEach_congr (h : ∀ x op answer y, areaStep ops x op = .ok (answer, y) →
    (P x op y ↔ Q x op y)) : AtEach ops st inputs P ↔ AtEach ops st inputs Q := by
  constructor
  · intro hP pre op post x answer y hin hrun hstep
    exact (h _ _ _ _ hstep).mp (hP pre op post x answer y hin hrun hstep)
  · intro hQ pre op post x answer y hin hrun hstep
    exact (h _ _ _ _ hstep).mpr (hQ pre op post x answer y hin hrun hstep)

end Step

end Jxtd.Storage
