import Jxtd.Lib.Framing
import Jxtd.Lib.Wire
import Jxtd.Proto.Taskdep.Message

/-!
# The taskdep messages on the wire

The messages of `taskdep_message.proto`, where a submessage may be absent, and the two directions
between them and the classes `Request` and `Response` (`proto/taskdep/message.cc`).

* `ENDPOINT`, `REQUEST`, `RESPONSE`: the messages.
* `assignEndpoint`, `assignENDPOINT`, `assignEngine`, `assignENGINE`: endpoints and engines, and
  **`assignENDPOINT_assignEndpoint`**, **`assignENGINE_assignEngine`**.
* `Endpoint.Replaces`, `Object.Replaces`: an endpoint and an object that are decoded into others and
  take their place; **`assignENDPOINT_eq_iff`**.
* `Request.encode`, `Request.assign`, `Request.append`: a request; **`Request.assign_encode`**: what
  comes back.
* **`Response.assign_encode`**: a response comes back as it was.
* **`presence_kept_iff`**: when every part is there exactly if it was there before.
-/

namespace Jxtd.Taskdep

open Lib

/-- `get_magic<TASKDEP>()`. -/
def TASKDEP : UInt32 := 0x544b4450

/-! ## Endpoints -/

structure ENDPOINT.AUTHSTRING where
  token : Str
  /-- `name`, `key`. -/
  uppair : Option (Str × Str)
  /-- `prvkey`, `pubkey`. -/
  pki : Option (Str × Str)

structure ENDPOINT.ATTR where
  authtype : UInt32
  authstring : List ENDPOINT.AUTHSTRING

structure ENDPOINT where
  proto : Str
  url : Str
  port : UInt32
  path : Str
  attr : Option ENDPOINT.ATTR

/-- What an absent endpoint reads as. -/
def ENDPOINT.default : ENDPOINT := ⟨[], [], 0, [], none⟩

def assignAuthstring (a : Authstring) : ENDPOINT.AUTHSTRING := ⟨a.token, some a.uppair, some a.pki⟩

def assignEndpoint (src : Endpoint) : ENDPOINT where
  proto := src.proto
  url := src.url
  port := src.port
  path := src.path
  attr := some ⟨src.authtype, src.authstring.map assignAuthstring⟩

/-- The loop of `assignENDPOINT`: what is there is added to. -/
def addAuthstrings (dest : Endpoint) (authstring : List ENDPOINT.AUTHSTRING) : Endpoint :=
  authstring.foldl (fun dest a =>
    let uppair := a.uppair.getD ([], [])
    let pki := a.pki.getD ([], [])
    dest.addAuthstring a.token uppair.1 uppair.2 pki.1 pki.2) dest

def assignENDPOINT (src : ENDPOINT) (dest : Endpoint) : Endpoint :=
  let attr := src.attr.getD ⟨0, []⟩
  let dest := (((dest.setProto src.proto).2.setUrl src.url).setPort src.port).setPath src.path
  addAuthstrings (dest.setAuthtype attr.authtype).2 attr.authstring

theorem addAuthstrings_map (dest : Endpoint) (as : List Authstring) :
    addAuthstrings dest (as.map assignAuthstring) =
      { dest with authstring := dest.authstring ++ as } := by
  induction as generalizing dest with
  | nil => simp [addAuthstrings]
  | cons a as ih =>
    have hstep : addAuthstrings dest ((a :: as).map assignAuthstring) =
        addAuthstrings (dest.addAuthstring a.token a.uppair.1 a.uppair.2 a.pki.1 a.pki.2)
          (as.map assignAuthstring) := rfl
    rw [hstep, ih]
    simp [Endpoint.addAuthstring]

/-- The endpoint is what is decoded of it into `prior`; an empty name is refused. -/
def Endpoint.Replaces (e prior : Endpoint) : Prop :=
  prior.authstring = [] ∧ (e.proto = [] → prior.proto = [])

theorem setProto_snd (e prior : Endpoint) :
    (prior.setProto e.proto).2.proto = if e.proto = [] then prior.proto else e.proto := by
  unfold Endpoint.setProto
  rcases e.proto_mem with hnil | hmem
  · have hnot : e.proto ∉ protos := by rw [hnil]; decide
    rw [dif_neg hnot, if_pos hnil]
  · have hne : e.proto ≠ [] := fun hnil => absurd (hnil ▸ hmem) (by decide)
    rw [dif_pos hmem, if_neg hne]

/-- What is decoded of an endpoint into another one. -/
theorem assignENDPOINT_eq (e prior : Endpoint) : assignENDPOINT (assignEndpoint e) prior =
    { e with
      proto := (prior.setProto e.proto).2.proto
      proto_mem := (prior.setProto e.proto).2.proto_mem
      authstring := prior.authstring ++ e.authstring } := by
  have hauth (d : Endpoint) : (d.setAuthtype e.authtype).2 =
      { d with authtype := e.authtype, authtype_lt := e.authtype_lt } := by
    rw [Endpoint.setAuthtype, dif_pos e.authtype_lt]
  have hset : (prior.setProto e.proto).2.authstring = prior.authstring := by
    unfold Endpoint.setProto
    split_ifs <;> rfl
  simp only [assignENDPOINT, assignEndpoint, Option.getD_some, hauth, addAuthstrings_map]
  simp only [Endpoint.setUrl, Endpoint.setPort, Endpoint.setPath, hset]

theorem assignENDPOINT_eq_iff (e prior : Endpoint) :
    assignENDPOINT (assignEndpoint e) prior = e ↔ e.Replaces prior := by
  have hproto : (prior.setProto e.proto).2.proto = e.proto ↔ (e.proto = [] → prior.proto = []) := by
    rw [setProto_snd]
    split_ifs with hnil
    · simp [hnil]
    · simp [hnil]
  rw [assignENDPOINT_eq, Endpoint.Replaces, ← hproto]
  obtain ⟨proto, url, port, path, authtype, authstring, hmem, hlt⟩ := e
  simp only [Endpoint.mk.injEq, true_and, List.append_left_eq_self]
  exact and_comm

/-- **An endpoint comes back.** -/
theorem assignENDPOINT_assignEndpoint (e : Endpoint) :
    assignENDPOINT (assignEndpoint e) .new = e :=
  (assignENDPOINT_eq_iff e .new).mpr ⟨rfl, fun _ => rfl⟩

/-! ## Engines -/

structure REQUEST.ENGINE.EXTFILES where
  storage : Option ENDPOINT
  path : Str

structure REQUEST.ENGINE where
  binary : Option Str
  id : Option Str
  name : Option Str
  deps : List REQUEST.ENGINE
  extfiles : List REQUEST.ENGINE.EXTFILES

/-- A string that is written unless it is empty. -/
def unlessEmpty (s : Str) : Option Str := if s = [] then none else some s

@[simp] theorem getD_unlessEmpty (s : Str) : (unlessEmpty s).getD [] = s := by
  unfold unlessEmpty
  split_ifs with h
  · exact h.symm
  · rfl

def assignExtfile (x : Extfile) : REQUEST.ENGINE.EXTFILES := ⟨some (assignEndpoint x.storage), x.path⟩

def assignEXTFILES (x : REQUEST.ENGINE.EXTFILES) : Extfile :=
  ⟨assignENDPOINT (x.storage.getD .default) .new, x.path⟩

mutual

def assignEngine : Engine → REQUEST.ENGINE
  | ⟨binary, id, name, deps, extfiles⟩ =>
    { binary := unlessEmpty binary
      id := unlessEmpty id
      name := unlessEmpty name
      deps := assignEngines deps
      extfiles := extfiles.map assignExtfile }

def assignEngines : List Engine → List REQUEST.ENGINE
  | [] => []
  | engine :: engines => assignEngine engine :: assignEngines engines

end

mutual

/-- `assignENGINE`; every field is overwritten. -/
def assignENGINE : REQUEST.ENGINE → Engine
  | ⟨binary, id, name, deps, extfiles⟩ =>
    { binary := binary.getD []
      id := id.getD []
      name := name.getD []
      deps := assignENGINEs deps
      extfiles := extfiles.map assignEXTFILES }

def assignENGINEs : List REQUEST.ENGINE → List Engine
  | [] => []
  | engine :: engines => assignENGINE engine :: assignENGINEs engines

end

theorem assignEXTFILES_assignExtfile (x : Extfile) : assignEXTFILES (assignExtfile x) = x := by
  simp only [assignEXTFILES, assignExtfile, Option.getD_some, assignENDPOINT_assignEndpoint]

mutual

/-- **An engine comes back**, with its dependencies at every depth. -/
theorem assignENGINE_assignEngine : ∀ e : Engine, assignENGINE (assignEngine e) = e
  | ⟨binary, id, name, deps, extfiles⟩ => by
    have hext : (extfiles.map assignExtfile).map assignEXTFILES = extfiles := by
      rw [List.map_map]
      refine (List.map_congr_left fun x _ => ?_).trans (List.map_id _)
      exact assignEXTFILES_assignExtfile x
    simp only [assignEngine, assignENGINE, getD_unlessEmpty, assignENGINEs_assignEngines, hext]

theorem assignENGINEs_assignEngines : ∀ es : List Engine, assignENGINEs (assignEngines es) = es
  | [] => rfl
  | e :: es => by
    rw [assignEngines, assignENGINEs, assignENGINE_assignEngine e, assignENGINEs_assignEngines es]

end

/-! ## Requests -/

/-- `TYPE`, the same in requests and responses. -/
structure TYPE where
  src : UInt32
  dest : UInt32
  msg : UInt32

/-- `OBJECT`, the same in requests and responses. -/
structure OBJECT where
  management : Option ENDPOINT
  cluster : Option ENDPOINT
  storage : Option ENDPOINT

structure REQUEST.DATASOURCE where
  /-- `input`, `type`. -/
  src : Option (Str × Str)
  /-- `output`, `directorypolicy`, `emptypolicy`. -/
  dest : Option (Str × UInt32 × UInt32)

structure REQUEST.ATTR.PERIOD where
  interval : UInt32
  resultpolicy : UInt32
  triggerpolicy : UInt32
  backupid : List UInt32

structure REQUEST.ATTR where
  trigger : UInt32
  period : Option REQUEST.ATTR.PERIOD
  deps : List UInt64
  virtstorage : Bool

structure REQUEST where
  magic : UInt32
  type : Option TYPE
  token : Str
  taskid : UInt64
  datasource : Option REQUEST.DATASOURCE
  engine : Option REQUEST.ENGINE
  attr : Option REQUEST.ATTR
  object : Option OBJECT

/-- `mutable_object` and its members. -/
def Object.encode (o : Object) : OBJECT :=
  ⟨o.management.map assignEndpoint, o.cluster.map assignEndpoint, o.storage.map assignEndpoint⟩

/-- A member of the object; one that is absent leaves what is there. -/
def assignMember (src : Option ENDPOINT) (dest : Option Endpoint) : Option Endpoint :=
  match src with
  | none => dest
  | some endpoint => some (assignENDPOINT endpoint (dest.getD .new))

def Object.assign (o : Object) (src : OBJECT) : Object :=
  ⟨assignMember src.management o.management, assignMember src.cluster o.cluster,
    assignMember src.storage o.storage⟩

/-- A member of an object: one that is not sent is not there, and one that is sent replaces the one
that is there. -/
def MemberReplaces (e prior : Option Endpoint) : Prop :=
  (e = none → prior = none) ∧ ∀ x ∈ e, ∀ y ∈ prior, x.Replaces y

theorem assignMember_eq_iff (e prior : Option Endpoint) :
    assignMember (e.map assignEndpoint) prior = e ↔ MemberReplaces e prior := by
  cases e with
  | none => simp [assignMember, MemberReplaces]
  | some x =>
    cases prior with
    | none => simp [assignMember, MemberReplaces, assignENDPOINT_assignEndpoint]
    | some y => simp [assignMember, MemberReplaces, assignENDPOINT_eq_iff]

def Object.Replaces (o prior : Object) : Prop :=
  MemberReplaces o.management prior.management ∧ MemberReplaces o.cluster prior.cluster ∧
    MemberReplaces o.storage prior.storage

theorem Object.assign_encode_eq_iff (o prior : Object) :
    prior.assign o.encode = o ↔ o.Replaces prior := by
  obtain ⟨management, cluster, storage⟩ := o
  simp only [Object.assign, Object.encode, Object.mk.injEq, assignMember_eq_iff, Object.Replaces]

/-- **The object comes back.** -/
theorem Object.assign_encode (o : Object) : Object.assign ⟨none, none, none⟩ o.encode = o := by
  have hmember (e : Option Endpoint) : MemberReplaces e none := ⟨fun _ => rfl, fun _ _ _ h => nomatch h⟩
  exact (o.assign_encode_eq_iff _).mpr ⟨hmember _, hmember _, hmember _⟩

def Datasource.encode (d : Datasource) : REQUEST.DATASOURCE where
  src := some (d.src.input, d.src.type)
  dest := some (d.dest.output, d.dest.directorypolicy, d.dest.emptypolicy)

def assignDatasource (d : REQUEST.DATASOURCE) : Datasource :=
  let src := d.src.getD ([], [])
  let dest := d.dest.getD ([], 0, 0)
  ⟨⟨src.1, src.2⟩, ⟨dest.1, dest.2.1, dest.2.2⟩⟩

def Attr.encode (a : Attr) : REQUEST.ATTR where
  trigger := a.trigger
  period := a.period.map fun p => ⟨p.interval, p.resultpolicy, p.triggerpolicy, p.backupid⟩
  deps := a.deps
  virtstorage := a.virtstorage

def assignAttr (a : REQUEST.ATTR) : Attr where
  trigger := a.trigger
  period := a.period.map fun p => ⟨p.interval, p.resultpolicy, p.triggerpolicy, p.backupid⟩
  deps := a.deps
  virtstorage := a.virtstorage

theorem assignAttr_encode (a : Attr) : assignAttr a.encode = a := by
  obtain ⟨trigger, period, deps, virtstorage⟩ := a
  cases period <;> rfl

/-- `Request::encode`, up to the serialisation. `mutable_engine` and `mutable_attr` are called in any
case. -/
def Request.encode (r : Request) : REQUEST where
  magic := TASKDEP
  type := some ⟨r.src, r.dest, r.msg⟩
  token := r.token
  taskid := r.taskid
  datasource := r.datasource.map Datasource.encode
  engine := some (match r.engine with
    | none => ⟨none, none, none, [], []⟩
    | some engine => assignEngine engine)
  attr := some (match r.attr with
    | none => ⟨0, none, [], false⟩
    | some attr => attr.encode)
  object := some r.object.encode

/-- What `Request::append` does with a request that it has parsed. -/
def Request.assign (r : Request) (request : REQUEST) : Request :=
  let type := request.type.getD ⟨0, 0, 0⟩
  { src := type.src
    dest := type.dest
    msg := type.msg
    token := request.token
    taskid := request.taskid
    datasource := request.datasource.map assignDatasource
    engine := request.engine.map assignENGINE
    attr := request.attr.map assignAttr
    object := r.object.assign (request.object.getD ⟨none, none, none⟩) }

/-- `Request::append`. -/
def Request.append (proto : Protobuf REQUEST) :
    Receiver Request → Str → ℤ × Receiver Request :=
  Lib.append proto (fun request => request.magic == TASKDEP) Request.assign

/-- **What comes back**: an engine and attributes are there in any case. -/
theorem Request.assign_encode (r : Request) :
    Request.new.assign r.encode =
      { r with engine := some (r.engine.getD .new), attr := some (r.attr.getD .new) } := by
  have hobject : Request.new.object.assign r.object.encode = r.object := r.object.assign_encode
  have hdatasource : (r.datasource.map Datasource.encode).map assignDatasource = r.datasource := by
    cases r.datasource <;> rfl
  have hengine : assignENGINE (match r.engine with
      | none => ⟨none, none, none, [], []⟩
      | some engine => assignEngine engine) = r.engine.getD .new := by
    cases r.engine with
    | none => rfl
    | some engine => exact assignENGINE_assignEngine engine
  have hattr : assignAttr (match r.attr with
      | none => ⟨0, none, [], false⟩
      | some attr => attr.encode) = r.attr.getD .new := by
    cases r.attr with
    | none => rfl
    | some attr => exact assignAttr_encode attr
  simp only [Request.assign, Request.encode, Option.getD_some, Option.map_some, hobject,
    hdatasource, hengine, hattr]

theorem Request.assign_encode_eq_iff (r : Request) :
    Request.new.assign r.encode = r ↔ r.engine ≠ none ∧ r.attr ≠ none := by
  rw [r.assign_encode]
  obtain ⟨src, dest, msg, token, taskid, datasource, engine, attr, object⟩ := r
  cases engine <;> cases attr <;> simp

theorem Request.append_encode (proto : Protobuf REQUEST) (r : Request)
    (h : proto.parse (proto.serialize r.encode) = some r.encode) :
    Request.append proto (.holding .new) (proto.serialize r.encode) =
      (1, .holding (Request.new.assign r.encode)) :=
  append_accepted h (beq_self_eq_true TASKDEP)

/-- **Exactly which requests keep their absent parts**: those with an engine and with attributes; what
is received has both in any case. -/
theorem presence_kept_iff (proto : Protobuf REQUEST) (r : Request)
    (h : proto.parse (proto.serialize r.encode) = some r.encode) :
    (Request.append proto (.holding .new) (proto.serialize r.encode) = (1, .holding r) ↔
      r.engine ≠ none ∧ r.attr ≠ none) ∧
    ∀ result rx, Request.append proto (.holding .new) (proto.serialize r.encode) = (result, rx) →
      rx.fields.engine ≠ none ∧ rx.fields.attr ≠ none := by
  rw [r.append_encode proto h]
  constructor
  · rw [← r.assign_encode_eq_iff, Prod.mk_right_inj]
    exact ⟨fun heq => congrArg Receiver.fields heq, fun heq => congrArg Receiver.holding heq⟩
  · rintro result rx ⟨⟩
    rw [r.assign_encode]
    exact ⟨Option.some_ne_none _, Option.some_ne_none _⟩

/-- The serialisation at one request, whose records are given. -/
def protoAt (request : REQUEST) (records : List Wire.Record) : Protobuf REQUEST where
  serialize _ := records.flatMap Wire.Record.encode
  parse bs := if bs = records.flatMap Wire.Record.encode then some request else none

theorem parse_protoAt (request : REQUEST) (records : List Wire.Record) :
    (protoAt request records).parse ((protoAt request records).serialize request) = some request :=
  if_pos rfl

/-- A request for task `5` with the engine `e` and attributes. -/
def fullRequest : Request :=
  (((Request.new.setTaskid 5).setEngineIdName (lit "1") (lit "e")).setAttrMaster 0 true).2

/-- Its records. -/
def fullRecords : List Wire.Record :=
  [⟨1, .varint 0x544b4450⟩, ⟨2, .len []⟩, ⟨4, .varint 5⟩, ⟨6, .len [18, 1, 49, 26, 1, 101]⟩,
    ⟨7, .len [32, 1]⟩, ⟨8, .len []⟩]

/-- A request with an engine and attributes. -/
theorem presence_kept_full :
    Request.append (protoAt fullRequest.encode fullRecords) (.holding .new)
      ((protoAt fullRequest.encode fullRecords).serialize fullRequest.encode) =
        (1, .holding fullRequest) :=
  (presence_kept_iff _ fullRequest (parse_protoAt _ _)).1.mpr
    ⟨Option.some_ne_none _, Option.some_ne_none _⟩

/-- The records of a request for task `5` with neither. -/
def bareRecords : List Wire.Record :=
  [⟨1, .varint 0x544b4450⟩, ⟨2, .len []⟩, ⟨4, .varint 5⟩, ⟨6, .len []⟩, ⟨7, .len []⟩, ⟨8, .len []⟩]

/-- **What is absent arrives**: a request without an engine and without attributes comes back with an
empty engine and with attributes. -/
theorem absent_becomes_present : ∃ r' : Request,
    Request.append (protoAt (Request.new.setTaskid 5).encode bareRecords) (.holding .new)
      ((protoAt (Request.new.setTaskid 5).encode bareRecords).serialize
        (Request.new.setTaskid 5).encode) = (1, .holding r') ∧
    (Request.new.setTaskid 5).engine = none ∧ r'.engine = some .new ∧
    (Request.new.setTaskid 5).attr = none ∧ r'.attr = some .new := by
  refine ⟨_, Request.append_encode _ _ (parse_protoAt _ _), rfl, ?_, rfl, ?_⟩
  · rw [Request.assign_encode]
    rfl
  · rw [Request.assign_encode]
    rfl

/-! ## Responses -/

structure RESPONSE.NEOGIATE where
  status : UInt32
  errstr : Option Str
  alternative : List UInt64

structure RESPONSE.DEPLOY where
  status : UInt32
  errstr : Option Str
  taskstatus : UInt32

structure RESPONSE where
  magic : UInt32
  type : Option TYPE
  token : Str
  taskid : UInt64
  neogiate : Option RESPONSE.NEOGIATE
  deploy : Option RESPONSE.DEPLOY
  object : Option OBJECT

/-- `Response::encode`, up to the serialisation. -/
def Response.encode (r : Response) : RESPONSE where
  magic := TASKDEP
  type := some ⟨r.src, r.dest, r.msg⟩
  token := r.token
  taskid := r.taskid
  neogiate := r.neogiate.map fun n => ⟨n.status, unlessEmpty n.errstr, n.alternative⟩
  deploy := r.deploy.map fun d => ⟨d.status, unlessEmpty d.errstr, d.taskstatus⟩
  object := some r.object.encode

/-- What `Response::append` does with a response that it has parsed. -/
def Response.assign (r : Response) (response : RESPONSE) : Response :=
  let type := response.type.getD ⟨0, 0, 0⟩
  { src := type.src
    dest := type.dest
    msg := type.msg
    token := response.token
    taskid := response.taskid
    neogiate := response.neogiate.map fun n => ⟨n.status, n.errstr.getD [], n.alternative⟩
    deploy := response.deploy.map fun d => ⟨d.status, d.errstr.getD [], d.taskstatus⟩
    object := r.object.assign (response.object.getD ⟨none, none, none⟩) }

/-- `Response::append`. -/
def Response.append (proto : Protobuf RESPONSE) :
    Receiver Response → Str → ℤ × Receiver Response :=
  Lib.append proto (fun response => response.magic == TASKDEP) Response.assign

/-- **A response comes back.** -/
theorem Response.assign_encode (r : Response) : Response.new.assign r.encode = r := by
  obtain ⟨src, dest, msg, token, taskid, neogiate, deploy, object⟩ := r
  have hobject : Response.new.object.assign object.encode = object := object.assign_encode
  simp only [Response.assign, Response.encode, Option.getD_some, Option.map_map, hobject]
  cases neogiate <;> cases deploy <;> simp

end Jxtd.Taskdep
