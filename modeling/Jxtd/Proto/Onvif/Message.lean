import Mathlib.Data.Rat.Floor
import Jxtd.Lib.Framing

/-!
# The onvif messages

The class `Message` and the message it is encoded to (`proto/onvif/message.cc`,
`jxtd.proto.onvif.proto`). A position of a camera is a single-precision float in the source; here it
is of any type with the conversions that the code makes.

* `Position`: these conversions; the instance for `ℚ` computes them exactly.
* `IPCAction`, `OnvifMessage`: the messages.
* `Message`, its setters, `encode`, `assign` and `append`.
-/

namespace Jxtd.Onvif

open Lib

/-- `get_magic<ONVIFFORWARD>()`. -/
def ONVIFFORWARD : UInt32 := 0x4f564653

/-- The conversions between positions and numbers on the wire. -/
class Position (φ : Type) where
  /-- `set_pan(action.pan * 1e5)`. -/
  toWire : φ → UInt32
  /-- `proto_action.pan() / 1e5`. -/
  ofWire : UInt32 → φ

/-- Positions without rounding; a number that does not fit is cut to its low 32 bits. -/
instance : Position ℚ where
  toWire x := ((x * 100000).num.tdiv (x * 100000).den % 2 ^ 32).toNat.toUInt32
  ofWire n := n.toNat / 100000

section

variable {φ : Type}

/-- `Message::Action`. -/
structure Action (φ : Type) where
  target : Str
  result : Str
  ack : Bool
  scan : Bool
  streaming : Bool
  snap : Bool
  moving : Bool
  absmov : Bool
  pan : φ
  tilt : φ
  zoom : φ
  timeout : UInt16

/-- `Message`, without its buffer. -/
structure Message (φ : Type) where
  transaction : UInt32
  src : UInt32
  dest : UInt32
  token : Str
  actions : List (Action φ)
  ext : Str

structure IPCAction where
  ipc : Str
  result : Str
  ack : UInt32
  scan : UInt32
  streaming : UInt32
  snap : UInt32
  move : UInt32
  absolute : UInt32
  pan : UInt32
  tilt : UInt32
  zoom : UInt32
  timeout : UInt32
  deriving DecidableEq

structure OnvifMessage where
  magic : UInt32
  transactionID : UInt32
  srcUID : UInt32
  destUID : UInt32
  token : Str
  actions : List IPCAction
  extension : Str
  deriving DecidableEq

/-- A `bool` as a number. -/
def flag (b : Bool) : UInt32 := if b then 1 else 0

namespace Message

/-- `Message::Message()`. -/
def new : Message φ := ⟨0, 0, 0, [], [], []⟩

def setTransaction (m : Message φ) (transaction : UInt32) : Message φ := { m with transaction }

def setSrc (m : Message φ) (src : UInt32) : Message φ := { m with src }

def setDest (m : Message φ) (dest : UInt32) : Message φ := { m with dest }

def setToken (m : Message φ) (token : Str) : Message φ := { m with token }

def setActions (m : Message φ) (actions : List (Action φ)) : Message φ := { m with actions }

def addAction (m : Message φ) (action : Action φ) : Message φ :=
  { m with actions := m.actions ++ [action] }

end Message

/-! ## On the wire -/

variable [Position φ]

def Action.encode (a : Action φ) : IPCAction where
  ipc := a.target
  result := a.result
  ack := flag a.ack
  scan := flag a.scan
  streaming := flag a.streaming
  snap := flag a.snap
  move := flag a.moving
  absolute := flag a.absmov
  pan := Position.toWire a.pan
  tilt := Position.toWire a.tilt
  zoom := Position.toWire a.zoom
  timeout := a.timeout.toUInt32

def Action.decode (a : IPCAction) : Action φ where
  target := a.ipc
  result := a.result
  ack := a.ack != 0
  scan := a.scan != 0
  streaming := a.streaming != 0
  snap := a.snap != 0
  moving := a.move != 0
  absmov := a.absolute != 0
  pan := Position.ofWire a.pan
  tilt := Position.ofWire a.tilt
  zoom := Position.ofWire a.zoom
  timeout := a.timeout.toUInt16

/-- `Message::encode`, up to the serialisation. -/
def Message.encode (m : Message φ) : OnvifMessage where
  magic := ONVIFFORWARD
  transactionID := m.transaction
  srcUID := m.src
  destUID := m.dest
  token := m.token
  actions := m.actions.map Action.encode
  extension := m.ext

/-- What `Message::append` does with a message that it has parsed. The actions are added to. -/
def Message.assign (m : Message φ) (msg : OnvifMessage) : Message φ where
  transaction := msg.transactionID
  src := msg.srcUID
  dest := msg.destUID
  token := msg.token
  actions := m.actions ++ msg.actions.map Action.decode
  ext := msg.extension

/-- `Message::append`; the magic number is not looked at. -/
def Message.append (proto : Protobuf OnvifMessage) :
    Receiver (Message φ) → Str → ℤ × Receiver (Message φ) :=
  Lib.append proto (fun _ => true) Message.assign

end

end Jxtd.Onvif
