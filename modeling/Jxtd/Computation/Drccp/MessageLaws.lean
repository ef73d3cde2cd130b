import Jxtd.Computation.Drccp.Message
import Jxtd.Lib.Run
import Jxtd.Lib.Wire

/-!
# The getters and setters of a drccp message

Every field has a getter and a setter, and the shares can be added to one by one.

* `Call`, `Message.after`: the setters, and a sequence of them.
* `Message.after_getsrc`, ..., `Message.after_getshares`: what each getter returns after it.
* `Keeps`: each getter returns what its own setter stored last; **`keeps_iff`**.
* **`message_laws_iff`**: exactly when this is so, and when a message comes back from the wire.
* **`setdest_stores_source`**: a source and a destination.
-/

namespace Jxtd.Computation.Drccp

open Lib

variable {φ : Type}

namespace Message

/-! ## The getters -/

def getsrc (m : Message φ) : DrccpEndpoint := m.src

def getdest (m : Message φ) : DrccpEndpoint := m.dest

def gettag (m : Message φ) : Str × Str := (m.cluster, m.msg)

def gettype (m : Message φ) : MessageType := m.type

def getversion (m : Message φ) : UInt32 := m.version

def getraw (m : Message φ) : Str := m.raw

def getshares (m : Message φ) : List (DrccpEndpoint × φ) := m.shares

/-- `Message::setshare`. -/
def setshare (m : Message φ) (shares : List (DrccpEndpoint × φ)) : Message φ := { m with shares }

end Message

/-! ## The setters -/

/-- A call of a setter. -/
inductive Call (φ : Type)
  | setsrc (endpoint : DrccpEndpoint)
  | setdest (endpoint : DrccpEndpoint)
  | settag (cluster tag : Str)
  | settype (type : MessageType)
  | setversion (version : UInt32)
  | setraw (raw : Str)
  | addshare (share : DrccpEndpoint × φ)
  | setshare (shares : List (DrccpEndpoint × φ))

namespace Call

def apply (m : Message φ) : Call φ → Message φ
  | setsrc endpoint => m.setsrc endpoint
  | setdest endpoint => m.setdest endpoint
  | settag cluster tag => m.settag cluster tag
  | settype type => m.settype type
  | setversion version => m.setversion version
  | setraw raw => m.setraw raw
  | addshare share => m.addshare share
  | setshare shares => m.setshare shares

/-- The source that is set. -/
def src? : Call φ → Option DrccpEndpoint
  | setsrc endpoint => some endpoint
  | _ => none

/-- The destination that is set. -/
def dest? : Call φ → Option DrccpEndpoint
  | setdest endpoint => some endpoint
  | _ => none

/-- The source or the destination that is set. -/
def endpoint? : Call φ → Option DrccpEndpoint
  | setsrc endpoint => some endpoint
  | setdest endpoint => some endpoint
  | _ => none

def tag? : Call φ → Option (Str × Str)
  | settag cluster tag => some (cluster, tag)
  | _ => none

def type? : Call φ → Option MessageType
  | settype type => some type
  | _ => none

def version? : Call φ → Option UInt32
  | setversion version => some version
  | _ => none

def raw? : Call φ → Option Str
  | setraw raw => some raw
  | _ => none

/-- The shares after the call. -/
def shares (before : List (DrccpEndpoint × φ)) : Call φ → List (DrccpEndpoint × φ)
  | addshare share => before ++ [share]
  | setshare shares => shares
  | _ => before

end Call

/-- The message after a sequence of calls. -/
def Message.after (m : Message φ) (calls : List (Call φ)) : Message φ := calls.foldl Call.apply m

/-! ## What the getters return -/

section After

variable (m : Message φ) (calls : List (Call φ))

/-- **The source** is what `setsrc` or `setdest` stored last. -/
theorem Message.after_getsrc :
    (m.after calls).getsrc = lastStored Call.endpoint? m.getsrc calls :=
  get_foldl (fun _ call => by cases call <;> rfl) m calls

/-- **The destination** is the one of the beginning. -/
theorem Message.after_getdest : (m.after calls).getdest = m.getdest := by
  induction calls generalizing m with
  | nil => rfl
  | cons call calls ih =>
    refine (ih (call.apply m)).trans ?_
    cases call <;> rfl

theorem Message.after_gettag : (m.after calls).gettag = lastStored Call.tag? m.gettag calls :=
  get_foldl (fun _ call => by cases call <;> rfl) m calls

theorem Message.after_gettype : (m.after calls).gettype = lastStored Call.type? m.gettype calls :=
  get_foldl (fun _ call => by cases call <;> rfl) m calls

theorem Message.after_getversion :
    (m.after calls).getversion = lastStored Call.version? m.getversion calls :=
  get_foldl (fun _ call => by cases call <;> rfl) m calls

theorem Message.after_getraw : (m.after calls).getraw = lastStored Call.raw? m.getraw calls :=
  get_foldl (fun _ call => by cases call <;> rfl) m calls

theorem Message.after_getshares :
    (m.after calls).getshares = calls.foldl Call.shares m.getshares := by
  induction calls generalizing m with
  | nil => rfl
  | cons call calls ih =>
    refine (ih (call.apply m)).trans ?_
    cases call <;> rfl

/-- Each getter returns what its own setter stored last. -/
structure Keeps : Prop where
  src : (m.after calls).getsrc = lastStored Call.src? m.getsrc calls
  dest : (m.after calls).getdest = lastStored Call.dest? m.getdest calls
  tag : (m.after calls).gettag = lastStored Call.tag? m.gettag calls
  type : (m.after calls).gettype = lastStored Call.type? m.gettype calls
  version : (m.after calls).getversion = lastStored Call.version? m.getversion calls
  raw : (m.after calls).getraw = lastStored Call.raw? m.getraw calls
  shares : (m.after calls).getshares = calls.foldl Call.shares m.getshares

/-- **Only the endpoints can go wrong.** -/
theorem keeps_iff : Keeps m calls ↔
    lastStored Call.endpoint? m.src calls = lastStored Call.src? m.src calls ∧
      lastStored Call.dest? m.dest calls = m.dest := by
  constructor
  · intro h
    exact ⟨(m.after_getsrc calls).symm.trans h.src, h.dest.symm.trans (m.after_getdest calls)⟩
  · rintro ⟨hsrc, hdest⟩
    exact
      { src := (m.after_getsrc calls).trans hsrc
        dest := (m.after_getdest calls).trans hdest.symm
        tag := m.after_gettag calls
        type := m.after_gettype calls
        version := m.after_getversion calls
        raw := m.after_getraw calls
        shares := m.after_getshares calls }

end After

/-! ## The laws -/

/-- **Exactly when the laws hold**: the setters keep apart when no destination is set in place of a
source and the last one is that of the beginning, and a message comes back when its version is `3`. -/
theorem message_laws_iff (m₀ : Message φ) (calls : List (Call φ)) (proto : Protobuf (Report φ))
    {m : Message φ} (h : proto.parse (proto.serialize m.encode) = some m.encode) :
    (Keeps m₀ calls ↔
      lastStored Call.endpoint? m₀.src calls = lastStored Call.src? m₀.src calls ∧
        lastStored Call.dest? m₀.dest calls = m₀.dest) ∧
    (Message.receive proto (.holding .new) (proto.serialize m.encode) = (1, .holding m) ↔
      m.version = 3) := by
  refine ⟨keeps_iff m₀ calls, ?_⟩
  have hstored : Message.receive proto (.holding .new) (proto.serialize m.encode) =
      (1, .holding ((Message.new.append m.encode).getD .new)) :=
    append_accepted h (beq_self_eq_true DRCCP)
  rw [hstored, Prod.mk_right_inj, ← m.getD_append_encode_eq_iff]
  exact ⟨fun heq => congrArg Receiver.fields heq, fun heq => congrArg Receiver.holding heq⟩

/-- A greeting, and the calls that build it. -/
def helloCalls : List (Call ℚ) :=
  [.setversion 3, .settag (lit "c") (lit "unused"), .setsrc (lit "a", 1), .settype .HELLO]

def helloMessage : Message ℚ := Message.new.after helloCalls

/-- Its records. -/
def helloRecords : List Wire.Record :=
  [⟨1, .varint 0x44524350⟩, ⟨2, .len ([10, 1, 99, 18, 6] ++ lit "unused")⟩, ⟨3, .varint 3⟩,
    ⟨4, .varint 3⟩, ⟨5, .len [10, 1, 97, 16, 1]⟩, ⟨6, .len []⟩, ⟨7, .len [10, 0]⟩]

/-- The serialisation at this message, and nothing else parses. -/
def helloProto : Protobuf (Report ℚ) where
  serialize _ := helloRecords.flatMap Wire.Record.encode
  parse bs :=
    if bs = helloRecords.flatMap Wire.Record.encode then some helloMessage.encode else none

theorem parse_helloProto :
    helloProto.parse (helloProto.serialize helloMessage.encode) = some helloMessage.encode := by
  simp only [helloProto, if_true]

theorem message_laws_hello : Keeps .new helloCalls ∧
    Message.receive helloProto (.holding .new) (helloProto.serialize helloMessage.encode) =
      (1, .holding helloMessage) := by
  have hlaws := message_laws_iff .new helloCalls helloProto parse_helloProto
  exact ⟨hlaws.1.mpr ⟨rfl, rfl⟩, hlaws.2.mpr rfl⟩

/-- **The destination of a reply is stored as its source.** -/
theorem setdest_stores_source :
    let m := (Message.new : Message ℚ).after [.setsrc (lit "a", 1), .setdest (lit "b", 2)]
    m.getsrc = (lit "b", 2) ∧ m.getdest = ([], 0) ∧
      ¬ Keeps (Message.new : Message ℚ) [.setsrc (lit "a", 1), .setdest (lit "b", 2)] := by
  refine ⟨rfl, rfl, fun h => ?_⟩
  have hdest : (([], 0) : DrccpEndpoint) = (lit "b", 2) := h.dest
  exact absurd hdest (by decide)

end Jxtd.Computation.Drccp
