import Jxtd.Lib.Bytes

/-!
# The taskdep messages

`Endpoint`, `Request` and `Response` with their setters; `setUrl` is `set_url`, and so on. The
fields of the C++ classes are private, so what the setters check holds of every object: `Endpoint`
carries it. A pointer that may be null is an `Option`, a number that a constructor leaves unset
starts at `0`, and `toUInt32` gives the number of an enumerator.
-/

namespace Jxtd.Taskdep

open Lib

inductive AddrType
  | storage
  | cluster
  | management
  deriving DecidableEq

def AddrType.toUInt32 : AddrType → UInt32
  | .storage => 0x0
  | .cluster => 0x1
  | .management => 0x2

inductive MsgType
  | loopback
  | neogiate
  | deploy
  | terminate
  | trigger
  | done
  deriving DecidableEq

def MsgType.toUInt32 : MsgType → UInt32
  | .loopback => 0x0
  | .neogiate => 0x1
  | .deploy => 0x2
  | .terminate => 0x3
  | .trigger => 0x4
  | .done => 0x5

/-! ## Endpoints -/

structure Authstring where
  token : Str
  uppair : Str × Str
  pki : Str × Str
  deriving DecidableEq

/-- The names that `Endpoint::set_proto` accepts. -/
def protos : List Str :=
  [lit "file", lit "tcp", lit "tls", lit "http", lit "https", lit "ssh", lit "jxtd"]

/-- An endpoint. `set_proto` and `set_authtype` are the only writers of their fields. -/
structure Endpoint where
  proto : Str
  url : Str
  port : UInt32
  path : Str
  authtype : UInt32
  authstring : List Authstring
  proto_mem : proto = [] ∨ proto ∈ protos
  authtype_lt : authtype < 0x5
  deriving DecidableEq

def Endpoint.new : Endpoint :=
  ⟨[], [], 0, [], 0x0, [], .inl rfl, by decide⟩

instance : Inhabited Endpoint := ⟨Endpoint.new⟩

def Endpoint.check (e : Endpoint) : Bool :=
  !(e.proto.isEmpty || e.url.isEmpty || e.port == 0)

/-- `Endpoint::set_proto`: an unknown name is refused. -/
def Endpoint.setProto (e : Endpoint) (proto : Str) : ℤ × Endpoint :=
  if h : proto ∈ protos then (0, { e with proto := proto, proto_mem := .inr h }) else (-1, e)

def Endpoint.setUrl (e : Endpoint) (url : Str) : Endpoint := { e with url := url }

def Endpoint.setPort (e : Endpoint) (port : UInt32) : Endpoint := { e with port := port }

def Endpoint.setPath (e : Endpoint) (path : Str) : Endpoint := { e with path := path }

/-- `Endpoint::set_authtype`: a type from `0x5` on is refused. -/
def Endpoint.setAuthtype (e : Endpoint) (authtype : UInt32) : ℤ × Endpoint :=
  if h : authtype < 0x5 then (0, { e with authtype := authtype, authtype_lt := h }) else (-1, e)

def Endpoint.addAuthstring (e : Endpoint) (token name key prvkey pubkey : Str) : Endpoint :=
  { e with authstring := e.authstring ++ [⟨token, (name, key), (prvkey, pubkey)⟩] }

/-! ## Requests -/

inductive Directorypolicy
  | override
  | append
  deriving DecidableEq

def Directorypolicy.toUInt32 : Directorypolicy → UInt32
  | .override => 0x0
  | .append => 0x1

inductive Emptypolicy
  | create
  | fail
  deriving DecidableEq

def Emptypolicy.toUInt32 : Emptypolicy → UInt32
  | .create => 0x0
  | .fail => 0x1

inductive Trigger
  | manual
  | create
  | deps
  deriving DecidableEq

def Trigger.toUInt32 : Trigger → UInt32
  | .manual => 0x0
  | .create => 0x1
  | .deps => 0x2

structure Datasource.Src where
  input : Str
  type : Str
  deriving DecidableEq

structure Datasource.Dest where
  output : Str
  directorypolicy : UInt32
  emptypolicy : UInt32
  deriving DecidableEq

structure Datasource where
  src : Datasource.Src
  dest : Datasource.Dest
  deriving DecidableEq

structure Extfile where
  storage : Endpoint
  path : Str
  deriving DecidableEq

/-- `Request::Engine`: an engine with the engines it depends on, to any depth. -/
structure Engine where
  binary : Str
  id : Str
  name : Str
  deps : List Engine
  extfiles : List Extfile

/-- An engine whose fields are all empty. -/
def Engine.new : Engine := ⟨[], [], [], [], []⟩

instance : Inhabited Engine := ⟨Engine.new⟩

structure Attr.Period where
  interval : UInt32
  resultpolicy : UInt32
  triggerpolicy : UInt32
  backupid : List UInt32
  deriving DecidableEq

structure Attr where
  trigger : UInt32
  period : Option Attr.Period
  deps : List UInt64
  virtstorage : Bool
  deriving DecidableEq

/-- The attributes that `new` leaves behind; its numbers are unset. -/
def Attr.new : Attr := ⟨0, none, [], false⟩

structure Object where
  management : Option Endpoint
  cluster : Option Endpoint
  storage : Option Endpoint
  deriving DecidableEq

structure Request where
  src : UInt32
  dest : UInt32
  msg : UInt32
  token : Str
  taskid : UInt64
  datasource : Option Datasource
  engine : Option Engine
  attr : Option Attr
  object : Object

def Request.new : Request :=
  ⟨0, 0, 0, [], 0, none, none, none, ⟨none, none, none⟩⟩

instance : Inhabited Request := ⟨Request.new⟩

def Request.setType (r : Request) (src : AddrType) (dest : AddrType) (msg : MsgType) : Request :=
  { r with src := src.toUInt32, dest := dest.toUInt32, msg := msg.toUInt32 }

def Request.setToken (r : Request) (token : Str) : Request := { r with token := token }

def Request.setTaskid (r : Request) (taskid : UInt64) : Request := { r with taskid := taskid }

/-- `Request::set_datasource`: policies from `0x2` on are refused. -/
def Request.setDatasource (r : Request) (src : Datasource.Src) (dest : Datasource.Dest) :
    ℤ × Request :=
  if dest.emptypolicy ≥ 0x2 ∨ dest.directorypolicy ≥ 0x2 then (-1, r)
  else (0, { r with datasource := some ⟨src, dest⟩ })

/-- `Request::set_attr_master`: a trigger from `0x3` on is refused. -/
def Request.setAttrMaster (r : Request) (trigger : UInt32) (virtstorage : Bool) : ℤ × Request :=
  if trigger ≥ 0x3 then (-1, r)
  else
    let attr := r.attr.getD .new
    (0, { r with attr := some { attr with trigger := trigger, virtstorage := virtstorage } })

/-- `Request::set_attr_period`: policies from `0x3` on are refused. -/
def Request.setAttrPeriod (r : Request) (interval resultpolicy triggerpolicy : UInt32)
    (backupid : List UInt32) : ℤ × Request :=
  if resultpolicy ≥ 0x3 ∨ triggerpolicy ≥ 0x3 then (-1, r)
  else
    let attr := r.attr.getD .new
    let period : Attr.Period := ⟨interval, resultpolicy, triggerpolicy, backupid⟩
    (0, { r with attr := some { attr with period := some period } })

def Request.addAttrDep (r : Request) (dep : UInt64) : Request :=
  let attr := r.attr.getD .new
  { r with attr := some { attr with deps := attr.deps ++ [dep] } }

def Request.setEngineBinary (r : Request) (binary : Str) : Request :=
  { r with engine := some { r.engine.getD .new with binary := binary } }

def Request.setEngineIdName (r : Request) (id name : Str) : Request :=
  { r with engine := some { r.engine.getD .new with id := id, name := name } }

def Request.addEngineDep (r : Request) (engine : Engine) : Request :=
  let e := r.engine.getD .new
  { r with engine := some { e with deps := e.deps ++ [engine] } }

def Request.addEngineExtfile (r : Request) (extfile : Extfile) : Request :=
  let e := r.engine.getD .new
  { r with engine := some { e with extfiles := e.extfiles ++ [extfile] } }

def Request.setObjectManagement (r : Request) (management : Endpoint) : Request :=
  { r with object := { r.object with management := some management } }

def Request.setObjectStorage (r : Request) (storage : Endpoint) : Request :=
  { r with object := { r.object with storage := some storage } }

def Request.setObjectCluster (r : Request) (cluster : Endpoint) : Request :=
  { r with object := { r.object with cluster := some cluster } }

/-! ## Responses -/

inductive NeogiateStatus
  | succeed
  | err
  | conflict
  | illegal
  deriving DecidableEq

def NeogiateStatus.toUInt32 : NeogiateStatus → UInt32
  | .succeed => 0x0
  | .err => 0x1
  | .conflict => 0x2
  | .illegal => 0x3

inductive DeployStatus
  | succeed
  | err
  | busy
  | depsbroken
  | enginebroken
  | illegal
  deriving DecidableEq

def DeployStatus.toUInt32 : DeployStatus → UInt32
  | .succeed => 0x0
  | .err => 0x1
  | .busy => 0x2
  | .depsbroken => 0x3
  | .enginebroken => 0x4
  | .illegal => 0x5

/-- The two states of a task that the cluster reports. -/
inductive DeployTaskstatus
  | deployed
  | triggered
  deriving DecidableEq

def DeployTaskstatus.toUInt32 : DeployTaskstatus → UInt32
  | .deployed => 0x0
  | .triggered => 0x1

structure Neogiate where
  status : UInt32
  errstr : Str
  alternative : List UInt64
  deriving DecidableEq

structure Deploy where
  status : UInt32
  errstr : Str
  taskstatus : UInt32
  deriving DecidableEq

structure Response where
  src : UInt32
  dest : UInt32
  msg : UInt32
  token : Str
  taskid : UInt64
  neogiate : Option Neogiate
  deploy : Option Deploy
  object : Object
  deriving DecidableEq

def Response.new : Response :=
  ⟨0, 0, 0, [], 0, none, none, ⟨none, none, none⟩⟩

instance : Inhabited Response := ⟨Response.new⟩

def Response.setType (r : Response) (src : AddrType) (dest : AddrType) (msg : MsgType) :
    Response :=
  { r with src := src.toUInt32, dest := dest.toUInt32, msg := msg.toUInt32 }

def Response.setToken (r : Response) (token : Str) : Response := { r with token := token }

def Response.setTaskid (r : Response) (taskid : UInt64) : Response := { r with taskid := taskid }

/-- `Response::set_neogiate_status`; every status of the enumeration is below `0x4`. -/
def Response.setNeogiateStatus (r : Response) (status : NeogiateStatus) : Response :=
  { r with neogiate := some { r.neogiate.getD ⟨0, [], []⟩ with status := status.toUInt32 } }

def Response.setNeogiateErrstr (r : Response) (errstr : Str) : Response :=
  { r with neogiate := some { r.neogiate.getD ⟨0, [], []⟩ with errstr } }

def Response.addNeogiateAlternative (r : Response) (alternative : UInt64) : Response :=
  let n := r.neogiate.getD ⟨0, [], []⟩
  { r with neogiate := some { n with alternative := n.alternative ++ [alternative] } }

/-- `Response::set_deploy_status`; every status of the enumeration is below `0x6`. -/
def Response.setDeployStatus (r : Response) (status : DeployStatus) : Response :=
  { r with deploy := some { r.deploy.getD ⟨0, [], 0⟩ with status := status.toUInt32 } }

/-- `Response::set_deploy_taskstatus`. -/
def Response.setDeployTaskstatus (r : Response) (taskstatus : DeployTaskstatus) : Response :=
  { r with deploy := some { r.deploy.getD ⟨0, [], 0⟩ with taskstatus := taskstatus.toUInt32 } }

def Response.setObjectManagement (r : Response) (management : Endpoint) : Response :=
  { r with object := { r.object with management := some management } }

def Response.setObjectStorage (r : Response) (storage : Endpoint) : Response :=
  { r with object := { r.object with storage := some storage } }

def Response.setObjectCluster (r : Response) (cluster : Endpoint) : Response :=
  { r with object := { r.object with cluster := some cluster } }

end Jxtd.Taskdep
