import Jxtd.Lib.Framing
import Jxtd.Proto.Datatransfer.Message

/-!
# The datatransfer messages on the wire

The messages of the protocol, where a submessage may be absent, and the two directions between them
and the classes `Request` and `Response` (`proto/datatransfer/message.cc`). A pair of attributes is
written when both of its parts are there.

* `adtsrc`, `dtsrc`, `request`, `response`: the messages.
* `assignadtsrc`, `assignAdtsrc`: a source, and **`assignAdtsrc_assignadtsrc`**: what comes back.
* `Request.assign_encode_eq_iff`, `Response.assign_encode_eq_iff`: which messages come back.
-/

namespace Jxtd.Datatransfer

open Lib

/-- `get_magic<DATATRANSFER>()`. -/
def DATATRANSFER : UInt32 := 0x44545452

/-! ## Sources -/

structure adtsrc where
  taskid : Option UInt32
  type : UInt32
  /-- `mid`, `name`. -/
  engine : Option (Str × Str)
  /-- `proto`, `url`. -/
  endpoint : Option (Str × Str)
  binary : Option Str
  deriving DecidableEq

/-- What an absent source reads as. -/
def adtsrc.default : adtsrc := ⟨none, 0, none, none, none⟩

/-- A pair that is written when neither part is empty. -/
def bothOrNone (attr : Str × Str) : Option (Str × Str) :=
  if attr.1 ≠ [] ∧ attr.2 ≠ [] then some attr else none

def assignadtsrc (src : Adtsrc) : adtsrc where
  taskid := if src.taskid ≠ 0x0 then some src.taskid else none
  type := src.type
  engine := bothOrNone src.engineattr
  endpoint := bothOrNone src.endpointattr
  binary := if src.binary ≠ [] then some src.binary else none

/-- `assignAdtsrc`; every field is overwritten. -/
def assignAdtsrc (src : adtsrc) : Adtsrc where
  taskid := src.taskid.getD 0
  type := src.type
  engineattr := src.engine.getD ([], [])
  endpointattr := src.endpoint.getD ([], [])
  binary := src.binary.getD []

/-- A pair with one part only is lost. -/
def Paired (attr : Str × Str) : Prop := attr.1 = [] ↔ attr.2 = []

theorem getD_bothOrNone_eq_iff (attr : Str × Str) :
    (bothOrNone attr).getD ([], []) = attr ↔ Paired attr := by
  obtain ⟨a, b⟩ := attr
  unfold bothOrNone Paired
  split_ifs with h
  · exact iff_of_true rfl (iff_of_false h.1 h.2)
  · by_cases ha : a = []
    · simp [ha, eq_comm]
    · have hb : b = [] := by
        by_contra hb
        exact h ⟨ha, hb⟩
      simp [ha, hb, eq_comm]

theorem getD_ite_ne {α : Type} [DecidableEq α] (a b : α) :
    (if a ≠ b then some a else none).getD b = a := by
  split_ifs with h
  · rfl
  · exact (not_not.mp h).symm

/-- **What comes back of a source.** -/
theorem assignAdtsrc_assignadtsrc (a : Adtsrc) : assignAdtsrc (assignadtsrc a) =
    { a with
      engineattr := (bothOrNone a.engineattr).getD ([], [])
      endpointattr := (bothOrNone a.endpointattr).getD ([], []) } := by
  simp only [assignAdtsrc, assignadtsrc, getD_ite_ne]

/-- A source whose pairs are both whole. -/
def Adtsrc.Paired (a : Adtsrc) : Prop :=
  Datatransfer.Paired a.engineattr ∧ Datatransfer.Paired a.endpointattr

theorem assignAdtsrc_assignadtsrc_eq_iff (a : Adtsrc) :
    assignAdtsrc (assignadtsrc a) = a ↔ a.Paired := by
  obtain ⟨taskid, type, engineattr, endpointattr, binary⟩ := a
  rw [assignAdtsrc_assignadtsrc, Adtsrc.Paired, ← getD_bothOrNone_eq_iff, ← getD_bothOrNone_eq_iff]
  simp only [Adtsrc.mk.injEq, true_and, and_true]

/-- A list comes back when each of its elements does. -/
theorem map_eq_self_iff {α : Type} {f : α → α} {xs : List α} :
    xs.map f = xs ↔ ∀ x ∈ xs, f x = x := by
  induction xs with
  | nil => simp
  | cons x xs ih => rw [List.map_cons, List.cons.injEq, ih, List.forall_mem_cons]

/-! ## Requests -/

structure request where
  magic : UInt32
  token : Str
  src : Str
  dest : Str
  direction : UInt32
  master : List adtsrc
  deriving DecidableEq

/-- `Request::encode`, up to the serialisation. -/
def Request.encode (r : Request) : request where
  magic := DATATRANSFER
  token := r.token
  src := r.src
  dest := r.dest
  direction := r.direction
  master := r.adtsrcs.map assignadtsrc

/-- What `Request::append` does with a request that it has parsed; every field is overwritten. -/
def Request.assign (_ : Request) (req : request) : Request where
  token := req.token
  src := req.src
  dest := req.dest
  direction := req.direction
  adtsrcs := req.master.map assignAdtsrc

/-- `Request::append`. -/
def Request.append (proto : Protobuf request) : Receiver Request → Str → ℤ × Receiver Request :=
  Lib.append proto (fun req => req.magic == DATATRANSFER) Request.assign

/-- **A request comes back** exactly when its sources are whole. -/
theorem Request.assign_encode_eq_iff (r₀ r : Request) :
    r₀.assign r.encode = r ↔ ∀ a ∈ r.adtsrcs, a.Paired := by
  obtain ⟨token, src, dest, direction, adtsrcs⟩ := r
  simp only [Request.assign, Request.encode, Request.mk.injEq, true_and, List.map_map]
  rw [map_eq_self_iff]
  exact forall₂_congr fun a _ => assignAdtsrc_assignadtsrc_eq_iff a

/-! ## Responses -/

structure dtsrc.dep where
  endpoint : Option adtsrc
  relative : Option Str
  deriving DecidableEq

structure dtsrc where
  master : Option adtsrc
  deps : List dtsrc.dep
  deriving DecidableEq

structure response where
  magic : UInt32
  token : Str
  src : Str
  dest : Str
  master : List dtsrc
  deriving DecidableEq

def assigndep (dep : Adtsrc × Str) : dtsrc.dep where
  endpoint := some (assignadtsrc dep.1)
  relative := if dep.2 ≠ [] then some dep.2 else none

def assigndtsrc (d : Dtsrc) : dtsrc := ⟨some (assignadtsrc d.master), d.deps.map assigndep⟩

def assignDep (dep : dtsrc.dep) : Adtsrc × Str :=
  (assignAdtsrc (dep.endpoint.getD .default), dep.relative.getD [])

def assignDtsrc (d : dtsrc) : Dtsrc := ⟨assignAdtsrc (d.master.getD .default), d.deps.map assignDep⟩

/-- `Response::encode`, up to the serialisation. -/
def Response.encode (r : Response) : response where
  magic := DATATRANSFER
  token := r.token
  src := r.src
  dest := r.dest
  master := r.dtsrcs.map assigndtsrc

/-- What `Response::append` does with a response that it has parsed; every field is overwritten. -/
def Response.assign (_ : Response) (resp : response) : Response where
  src := resp.src
  dest := resp.dest
  token := resp.token
  dtsrcs := resp.master.map assignDtsrc

/-- `Response::append`. -/
def Response.append (proto : Protobuf response) :
    Receiver Response → Str → ℤ × Receiver Response :=
  Lib.append proto (fun resp => resp.magic == DATATRANSFER) Response.assign

/-- A source all of whose pairs are whole, those of its dependencies included. -/
def Dtsrc.Paired (d : Dtsrc) : Prop := d.master.Paired ∧ ∀ dep ∈ d.deps, dep.1.Paired

theorem assignDep_assigndep_eq_iff (dep : Adtsrc × Str) :
    assignDep (assigndep dep) = dep ↔ dep.1.Paired := by
  obtain ⟨a, relative⟩ := dep
  rw [← assignAdtsrc_assignadtsrc_eq_iff]
  simp only [assignDep, assigndep, Option.getD_some, getD_ite_ne, Prod.mk.injEq, and_true]

theorem assignDtsrc_assigndtsrc_eq_iff (d : Dtsrc) :
    assignDtsrc (assigndtsrc d) = d ↔ d.Paired := by
  obtain ⟨master, deps⟩ := d
  simp only [assignDtsrc, assigndtsrc, Dtsrc.Paired, Option.getD_some, Dtsrc.mk.injEq, List.map_map,
    assignAdtsrc_assignadtsrc_eq_iff]
  rw [map_eq_self_iff]
  exact and_congr_right fun _ => forall₂_congr fun dep _ => assignDep_assigndep_eq_iff dep

/-- **A response comes back** exactly when its sources and their dependencies are whole. -/
theorem Response.assign_encode_eq_iff (r₀ r : Response) :
    r₀.assign r.encode = r ↔ ∀ d ∈ r.dtsrcs, d.Paired := by
  obtain ⟨src, dest, token, dtsrcs⟩ := r
  simp only [Response.assign, Response.encode, Response.mk.injEq, true_and, List.map_map]
  rw [map_eq_self_iff]
  exact forall₂_congr fun d _ => assignDtsrc_assigndtsrc_eq_iff d

end Jxtd.Datatransfer
