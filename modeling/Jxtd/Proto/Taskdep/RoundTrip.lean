import Jxtd.Proto.Taskdep.Codec

/-!
# Engines and responses come back

`assignEngine` and `assignENGINE` as they run: each fills in an object that is there already, and the
decoder reaches what it has pushed by its index.

* `assignEngineTo`, `assignENGINETo`: the two recursions; an index out of range is `none`.
* `assignEngineTo_eq`, **`assignENGINETo_eq`**: what they leave in the object.
* **`engine_comes_back`**: the tree of an engine is decoded into any engine as it was encoded.
* **`response_comes_back`**: a response is received as it was sent.
-/

namespace Jxtd.Taskdep

open Lib

/-! ## Engines in place -/

/-- What `add_deps` and `mutable_engine` give. -/
def REQUEST.ENGINE.new : REQUEST.ENGINE := ⟨none, none, none, [], []⟩

/-- A string that is set unless it is empty. -/
def setUnlessEmpty (s : Str) (dest : Option Str) : Option Str := if s = [] then dest else some s

mutual

/-- `assignEngine`. -/
def assignEngineTo : Engine → REQUEST.ENGINE → REQUEST.ENGINE
  | ⟨binary, id, name, deps, extfiles⟩, dest =>
    { binary := setUnlessEmpty binary dest.binary
      id := setUnlessEmpty id dest.id
      name := setUnlessEmpty name dest.name
      deps := addDeps deps dest.deps
      extfiles := dest.extfiles ++ extfiles.map assignExtfile }

/-- The loop over the dependencies. -/
def addDeps : List Engine → List REQUEST.ENGINE → List REQUEST.ENGINE
  | [], dest => dest
  | engine :: engines, dest => addDeps engines (dest ++ [assignEngineTo engine .new])

end

/-- The loop over the extra files: one is pushed, and the one at `i` is filled in. -/
def pushExtfiles : List REQUEST.ENGINE.EXTFILES → ℕ → List Extfile → Option (List Extfile)
  | [], _, dest => some dest
  | src :: srcs, i, dest =>
    match (dest ++ [Extfile.mk .new src.path])[i]? with
    | none => none
    | some extfile =>
      let storage := assignENDPOINT (src.storage.getD .default) extfile.storage
      pushExtfiles srcs (i + 1) ((dest ++ [Extfile.mk .new src.path]).set i { extfile with storage })

mutual

/-- `assignENGINE`. -/
def assignENGINETo : REQUEST.ENGINE → Engine → Option Engine
  | ⟨binary, id, name, deps, extfiles⟩, _ => do
    let extfiles ← pushExtfiles extfiles 0 []
    let deps ← pushDeps deps 0 []
    return ⟨binary.getD [], id.getD [], name.getD [], deps, extfiles⟩

/-- The loop over the dependencies: one is pushed, and the one at `i` is filled in. -/
def pushDeps : List REQUEST.ENGINE → ℕ → List Engine → Option (List Engine)
  | [], _, dest => some dest
  | src :: srcs, i, dest =>
    match (dest ++ [Engine.new])[i]? with
    | none => none
    | some engine => do
      let engine ← assignENGINETo src engine
      pushDeps srcs (i + 1) ((dest ++ [Engine.new]).set i engine)

end

mutual

/-- What `assignEngine` leaves in a new message. -/
theorem assignEngineTo_eq : ∀ e : Engine, assignEngineTo e .new = assignEngine e
  | ⟨binary, id, name, deps, extfiles⟩ => by
    simp only [assignEngineTo, assignEngine, REQUEST.ENGINE.new, addDeps_eq, List.nil_append]
    rfl

theorem addDeps_eq : ∀ (es : List Engine) (dest : List REQUEST.ENGINE),
    addDeps es dest = dest ++ assignEngines es
  | [], dest => by simp [addDeps, assignEngines]
  | e :: es, dest => by simp [addDeps, assignEngines, assignEngineTo_eq e, addDeps_eq es]

end

theorem pushExtfiles_eq (srcs : List REQUEST.ENGINE.EXTFILES) (dest : List Extfile) :
    pushExtfiles srcs dest.length dest = some (dest ++ srcs.map assignEXTFILES) := by
  induction srcs generalizing dest with
  | nil => simp [pushExtfiles]
  | cons src srcs ih =>
    have hset (x : Extfile) : (dest ++ [Extfile.mk .new src.path]).set dest.length x = dest ++ [x] := by
      simp
    have hlen : dest.length + 1 = (dest ++ [assignEXTFILES src]).length := by simp
    rw [pushExtfiles, List.getElem?_concat_length]
    dsimp only
    rw [hset, hlen]
    refine (ih _).trans ?_
    simp

mutual

/-- **What `assignENGINE` leaves in an engine** does not depend on the engine, and every index that it
uses is in range. -/
theorem assignENGINETo_eq : ∀ (src : REQUEST.ENGINE) (dest : Engine),
    assignENGINETo src dest = some (assignENGINE src)
  | ⟨binary, id, name, deps, extfiles⟩, dest => by
    have hext : pushExtfiles extfiles 0 [] = some (extfiles.map assignEXTFILES) :=
      pushExtfiles_eq extfiles []
    have hdeps : pushDeps deps 0 [] = some (assignENGINEs deps) := pushDeps_eq deps []
    rw [assignENGINETo, hext, hdeps, assignENGINE]
    rfl

theorem pushDeps_eq : ∀ (srcs : List REQUEST.ENGINE) (dest : List Engine),
    pushDeps srcs dest.length dest = some (dest ++ assignENGINEs srcs)
  | [], dest => by simp [pushDeps, assignENGINEs]
  | src :: srcs, dest => by
    have hset (e : Engine) : (dest ++ [Engine.new]).set dest.length e = dest ++ [e] := by simp
    have hlen : dest.length + 1 = (dest ++ [assignENGINE src]).length := by simp
    rw [pushDeps, List.getElem?_concat_length]
    dsimp only
    rw [assignENGINETo_eq src, Option.bind_eq_bind, Option.bind_some, hset, hlen,
      pushDeps_eq srcs, assignENGINEs, List.append_assoc, List.singleton_append]

end

/-- **The tree of an engine comes back**, whatever engine it is decoded into: the strings, the extra
files and the dependencies, in their order at every depth. -/
theorem engine_comes_back (e dest : Engine) :
    assignENGINETo (assignEngineTo e .new) dest = some e := by
  rw [assignEngineTo_eq, assignENGINETo_eq, assignENGINE_assignEngine]

/-! ## Responses -/

/-- **A response is received as it was sent.** -/
theorem response_comes_back (proto : Protobuf RESPONSE) (r : Response)
    (h : proto.parse (proto.serialize r.encode) = some r.encode) :
    Response.append proto (.holding .new) (proto.serialize r.encode) = (1, .holding r) := by
  have hstored : Response.append proto (.holding .new) (proto.serialize r.encode) =
      (1, .holding (Response.new.assign r.encode)) :=
    append_accepted h (beq_self_eq_true TASKDEP)
  rw [hstored, r.assign_encode]

/-- A refusal with two alternatives, and an endpoint of the cluster. -/
def conflictResponse : Response :=
  (((((Response.new.setTaskid 5).setNeogiateStatus .conflict).setNeogiateErrstr (lit "id"))
    |>.addNeogiateAlternative 6).addNeogiateAlternative 7).setObjectCluster
      (((Endpoint.new.setProto (lit "tcp")).2.setUrl (lit "c")).addAuthstring (lit "t") (lit "u")
        [] [] [])

/-- Its records. -/
def conflictRecords : List Wire.Record :=
  [⟨1, .varint 0x544b4450⟩, ⟨2, .len []⟩, ⟨4, .varint 5⟩,
    ⟨5, .len [8, 2, 18, 2, 105, 100, 26, 2, 6, 7]⟩,
    ⟨7, .len [18, 22, 10, 3, 116, 99, 112, 18, 1, 99, 42, 12, 18, 10, 10, 1, 116, 18, 3, 10, 1, 117,
      26, 0]⟩]

/-- The serialisation at this response, and nothing else parses. -/
def conflictProto : Protobuf RESPONSE where
  serialize _ := conflictRecords.flatMap Wire.Record.encode
  parse bs :=
    if bs = conflictRecords.flatMap Wire.Record.encode then some conflictResponse.encode else none

theorem parse_conflictProto :
    conflictProto.parse (conflictProto.serialize conflictResponse.encode) =
      some conflictResponse.encode := by
  simp only [conflictProto, if_true]

theorem response_comes_back_conflict :
    Response.append conflictProto (.holding .new) (conflictProto.serialize conflictResponse.encode) =
      (1, .holding conflictResponse) :=
  response_comes_back conflictProto conflictResponse parse_conflictProto

end Jxtd.Taskdep
