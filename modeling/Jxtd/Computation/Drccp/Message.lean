import Mathlib.Data.Rat.Floor
import Jxtd.Lib.Framing

/-!
# Messages between the nodes of a cluster

The class `Message` and the report it is encoded to (`computation/drccp/message.cc`, `drccp13.proto`).
A share is a single-precision float in the source; here it is of any type with the operations that
the code uses on it.

* `FloatShare`: these operations; the instance for `ℚ` computes them exactly.
* `Message`, its setters, `encode` and `append`.
* **`append_encode`**: what a message becomes on its way to the peer.
-/

namespace Jxtd.Computation.Drccp

open Lib

/-- `DrccpEndpoint`: an address and a port. -/
abbrev DrccpEndpoint := Str × Int32

instance : Ord DrccpEndpoint := lexOrd

/-- The operations of the code on a share. -/
class FloatShare (φ : Type) where
  /-- `1.0f`. -/
  one : φ
  /-- `0.0f`. -/
  zero : φ
  /-- `share += 0.5f`. -/
  addHalf : φ → φ
  /-- `(share * self_share + neigh_share * peer_share) / (1.5 * (self_share + peer_share))`. -/
  average : φ → φ → φ → φ → φ
  /-- `neigh_share / 1.5`. -/
  discount : φ → φ
  /-- `int node_limit = share * 4`. -/
  nodeLimit : φ → Int32
  nodeLimit_zero : nodeLimit zero = 0

/-- Shares without rounding. -/
instance : FloatShare ℚ where
  one := 1
  zero := 0
  addHalf s := s + 1 / 2
  average s self neigh peer := (s * self + neigh * peer) / (3 / 2 * (self + peer))
  discount s := s / (3 / 2)
  nodeLimit s := Int32.ofInt ((s * 4).num.tdiv (s * 4).den)
  nodeLimit_zero := by simp

/-- `Report::MessageType`; the enumeration is open, so that any other number may arrive. -/
inductive MessageType
  | UNKNOWN
  | VERSION
  | MEET
  | HELLO
  | ALIVE
  | FORWARD
  | RESULT
  | LOCAL
  | other (n : Int32)
deriving DecidableEq

/-- `get_magic<DRCCP>()`. -/
def DRCCP : UInt32 := 0x44524350

section

variable {φ : Type}

/-- `Message`. -/
structure Message (φ : Type) where
  cluster : Str
  msg : Str
  src : DrccpEndpoint
  dest : DrccpEndpoint
  type : MessageType
  version : UInt32
  raw : Str
  shares : List (DrccpEndpoint × φ)

namespace Message

/-- `Message::Message()`. -/
def new : Message φ where
  cluster := []
  msg := []
  src := ([], 0)
  dest := ([], 0)
  type := .UNKNOWN
  version := 0
  raw := []
  shares := []

/-- `Message::setsrc`. -/
def setsrc (m : Message φ) (endpoint : DrccpEndpoint) : Message φ := { m with src := endpoint }

/-- `Message::setdest`; it assigns the source. -/
def setdest (m : Message φ) (endpoint : DrccpEndpoint) : Message φ := { m with src := endpoint }

/-- `Message::settag`. -/
def settag (m : Message φ) (cluster tag : Str) : Message φ := { m with cluster, msg := tag }

/-- `Message::settype`. -/
def settype (m : Message φ) (type : MessageType) : Message φ := { m with type }

/-- `Message::setversion`. -/
def setversion (m : Message φ) (version : UInt32) : Message φ := { m with version }

/-- `Message::setraw`. -/
def setraw (m : Message φ) (raw : Str) : Message φ := { m with raw }

/-- `Message::addshare`. -/
def addshare (m : Message φ) (share : DrccpEndpoint × φ) : Message φ :=
  { m with shares := m.shares ++ [share] }

end Message

/-! ## The report -/

/-- `Report::Endpoint`; the port is unsigned. -/
structure ReportEndpoint where
  addr : Str
  port : UInt32

/-- `Report`. -/
structure Report (φ : Type) where
  magic : UInt32
  cluster : Str
  msg : Str
  type : MessageType
  version : UInt32
  src : ReportEndpoint
  dest : ReportEndpoint
  raw : Str
  shares : List (ReportEndpoint × φ)

/-- `set_addr`, `set_port`. -/
def ReportEndpoint.of (endpoint : DrccpEndpoint) : ReportEndpoint :=
  ⟨endpoint.1, endpoint.2.toUInt32⟩

/-- `{addr(), port()}`. -/
def ReportEndpoint.get (endpoint : ReportEndpoint) : DrccpEndpoint :=
  (endpoint.addr, endpoint.port.toInt32)

@[simp] theorem ReportEndpoint.get_of (endpoint : DrccpEndpoint) :
    (ReportEndpoint.of endpoint).get = endpoint :=
  rfl

/-- `Message::encode`, up to the serialisation; the version is always `3`. -/
def Message.encode (m : Message φ) : Report φ where
  magic := DRCCP
  cluster := m.cluster
  msg := m.msg
  type := m.type
  version := 3
  src := .of m.src
  dest := .of m.dest
  raw := m.raw
  shares := m.shares.map fun s => (.of s.1, s.2)

/-- `Message::append`, once the report is complete: `none` for another magic number. The shares of
the message are added to. -/
def Message.append (m : Message φ) (report : Report φ) : Option (Message φ) :=
  if report.magic ≠ DRCCP then none
  else some
    { cluster := report.cluster
      msg := report.msg
      src := report.src.get
      dest := report.dest.get
      type := report.type
      version := report.version
      raw := report.raw
      shares := m.shares ++ report.shares.map fun s => (s.1.get, s.2) }

/-- A message as the peer receives it. -/
def Message.received (m : Message φ) : Message φ := m.setversion 3

/-- **The peer receives the message**, with version `3`. -/
theorem Message.append_encode (m : Message φ) : Message.new.append m.encode = some m.received := by
  have hshares : (m.shares.map fun s => (ReportEndpoint.of s.1, s.2)).map
      (fun s => (s.1.get, s.2)) = m.shares := by
    rw [List.map_map]
    exact List.map_id _
  have hmagic : ¬ m.encode.magic ≠ DRCCP := not_not.mpr rfl
  rw [Message.append, if_neg hmagic]
  exact congrArg (fun shares => some { m with version := 3, shares }) hshares

/-- `Message::append` with its buffer. -/
def Message.receive (proto : Protobuf (Report φ)) :
    Receiver (Message φ) → Str → ℤ × Receiver (Message φ) :=
  Lib.append proto (fun report => report.magic == DRCCP) fun m report => (m.append report).getD m

/-- **A message comes back** exactly when its version is the one that is written. -/
theorem Message.getD_append_encode_eq_iff (m : Message φ) :
    (Message.new.append m.encode).getD .new = m ↔ m.version = 3 := by
  rw [m.append_encode, Option.getD_some]
  obtain ⟨cluster, msg, src, dest, type, version, raw, shares⟩ := m
  simp only [Message.received, Message.setversion, Message.mk.injEq, true_and, and_true]
  exact eq_comm

end

end Jxtd.Computation.Drccp
