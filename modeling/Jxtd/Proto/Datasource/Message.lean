import Jxtd.Lib.Framing
import Jxtd.Lib.Ordered

/-!
# The datasource messages

The classes `Request` and `Response` (`proto/datasource`). Each holds its protobuf message and parses
into it; the map of the metadata stands beside the message.

* `request`, `response`: the messages of `ProtocolMessage.proto`.
* `Request`, `Response`, their setters, `encode` and `append`.
-/

namespace Jxtd.Datasource

open Lib Std

/-- `get_magic<DATASOURCE>()`. -/
def DATASOURCE : UInt32 := 0x64747372

/-- `Request::action`. -/
inductive Action
  | Register
  | Unregister
  | Offline
  | Online
  deriving DecidableEq

def Action.toUInt32 : Action → UInt32
  | .Register => 0
  | .Unregister => 1
  | .Offline => 2
  | .Online => 3

/-! ## Requests -/

structure request where
  magic : UInt32
  token : Str
  name : Str
  action : UInt32
  proto : UInt32
  url : Str
  port : UInt32
  /-- `key`, `value`. -/
  metadata : List (Str × Str)
  deriving DecidableEq

/-- `Clear`. -/
def request.clear : request := ⟨0, [], [], 0, 0, [], 0, []⟩

structure Request where
  req : request
  myMetadata : TreeMap Str Str

namespace Request

def new : Request := ⟨.clear, ∅⟩

def setToken (r : Request) (token : Str) : Request := { r with req := { r.req with token } }

def setName (r : Request) (name : Str) : Request := { r with req := { r.req with name } }

def setAction (r : Request) (action : UInt32) : Request := { r with req := { r.req with action } }

def setProto (r : Request) (proto : UInt32) : Request := { r with req := { r.req with proto } }

def setUrl (r : Request) (url : Str) : Request := { r with req := { r.req with url } }

def setPort (r : Request) (port : UInt32) : Request := { r with req := { r.req with port } }

/-- `Request::add_metadata`. -/
def addMetadata (r : Request) (key value : Str) : Request where
  req := { r.req with metadata := r.req.metadata ++ [(key, value)] }
  myMetadata := r.myMetadata.insert key value

/-- `Request::set_metadata`, which adds the entries to those that are there. -/
def setMetadata (r : Request) (metadata : TreeMap Str Str) : Request :=
  metadata.toList.foldl (fun r entry => r.addMetadata entry.1 entry.2) r

/-- `Request::encode`, up to the serialisation. -/
def encode (r : Request) : request := { r.req with magic := DATASOURCE }

/-- `Request::append`; `broken` is what a parse that fails leaves in the message. -/
def append (proto : Protobuf request) (broken : Str → request) :
    Receiver Request → Str → ℤ × Receiver Request :=
  appendInto proto broken (fun req => req.magic == DATASOURCE) .clear fun r req => { r with req }

end Request

/-! ## Responses -/

structure response where
  magic : UInt32
  token : Str
  name : Str
  status : UInt32
  deriving DecidableEq

/-- `Clear`. -/
def response.clear : response := ⟨0, [], [], 0⟩

/-- `Response::Status_ok`. -/
def Status_ok : UInt32 := 0

/-- `Response::Status_err`. -/
def Status_err : UInt32 := 1

structure Response where
  resp : response

namespace Response

def new : Response := ⟨.clear⟩

def setToken (r : Response) (token : Str) : Response := ⟨{ r.resp with token }⟩

def setName (r : Response) (name : Str) : Response := ⟨{ r.resp with name }⟩

def setStatus (r : Response) (status : UInt32) : Response := ⟨{ r.resp with status }⟩

/-- `Response::encode`, up to the serialisation. -/
def encode (r : Response) : response := { r.resp with magic := DATASOURCE }

/-- `Response::append`; `broken` is what a parse that fails leaves in the message. -/
def append (proto : Protobuf response) (broken : Str → response) :
    Receiver Response → Str → ℤ × Receiver Response :=
  appendInto proto broken (fun resp => resp.magic == DATASOURCE) .clear fun _ resp => ⟨resp⟩

end Response

end Jxtd.Datasource
