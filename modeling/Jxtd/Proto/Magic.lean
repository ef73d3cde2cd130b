import Jxtd.Proto.Datasource.Message
import Jxtd.Proto.Framing
import Jxtd.Proto.Onvif.Message

/-!
# The protocols and their magic numbers

Every message begins with the magic number of its protocol, and `append` is to refuse a message of
another one.

* `Protocol`, `Protocol.magic`: the numbers of `misc/protocol/protocol.h`; `magic_injective`.
* `Decoder`: the classes with an `append`, with their objects and messages.
* `Separates`, `Cleared`: what is wanted of a message that parses, and the objects that `Clear` leaves.
* **`separates_iff`**: exactly when a decoder does what is wanted.
* `onvifProto`, **`magic_not_checked`**: a message of another protocol is taken for an onvif message.
-/

namespace Jxtd.Proto

open Lib

inductive Protocol
  | DRCCP
  | ONVIFFORWARD
  | DATATRANSFER
  | TASKDEP
  | DATASOURCE
  deriving DecidableEq

/-- `get_magic`. -/
def Protocol.magic : Protocol → UInt32
  | .DRCCP => Computation.Drccp.DRCCP
  | .ONVIFFORWARD => Onvif.ONVIFFORWARD
  | .DATATRANSFER => Datatransfer.DATATRANSFER
  | .TASKDEP => Taskdep.TASKDEP
  | .DATASOURCE => Datasource.DATASOURCE

/-- **No two protocols share a number.** -/
theorem Protocol.magic_injective : Function.Injective Protocol.magic := by
  intro a b h
  cases a <;> cases b <;> first | rfl | exact absurd h (by decide)

/-- The classes with an `append` of their own. -/
inductive Decoder
  | stream (c : MessageClass)
  | datasourceRequest
  | datasourceResponse
  | onvifMessage
  deriving DecidableEq

namespace Decoder

def protocol : Decoder → Protocol
  | stream .taskdepRequest => .TASKDEP
  | stream .taskdepResponse => .TASKDEP
  | stream .datatransferRequest => .DATATRANSFER
  | stream .datatransferResponse => .DATATRANSFER
  | stream .drccpMessage => .DRCCP
  | datasourceRequest => .DATASOURCE
  | datasourceResponse => .DATASOURCE
  | onvifMessage => .ONVIFFORWARD

/-- The objects of a class; `φ` is the type of the shares and of the positions. -/
def Object (φ : Type) : Decoder → Type
  | stream c => c.Object φ
  | datasourceRequest => Datasource.Request
  | datasourceResponse => Datasource.Response
  | onvifMessage => Onvif.Message φ

/-- The protobuf messages of a class. -/
def Wire (φ : Type) : Decoder → Type
  | stream c => c.Wire φ
  | datasourceRequest => Datasource.request
  | datasourceResponse => Datasource.response
  | onvifMessage => Onvif.OnvifMessage

variable {φ : Type}

/-- The magic number of a message. -/
def magic : (d : Decoder) → d.Wire φ → UInt32
  | stream .taskdepRequest => Taskdep.REQUEST.magic
  | stream .taskdepResponse => Taskdep.RESPONSE.magic
  | stream .datatransferRequest => Datatransfer.request.magic
  | stream .datatransferResponse => Datatransfer.response.magic
  | stream .drccpMessage => Computation.Drccp.Report.magic
  | datasourceRequest => Datasource.request.magic
  | datasourceResponse => Datasource.response.magic
  | onvifMessage => Onvif.OnvifMessage.magic

/-- The fields of an object that its getters or `encode` show: all but the magic number. -/
def SameFields : (d : Decoder) → d.Object φ → d.Object φ → Prop
  | stream _ => fun m m' => m = m'
  | datasourceRequest => fun (r r' : Datasource.Request) =>
    { r.req with magic := 0 } = { r'.req with magic := 0 } ∧ r.myMetadata = r'.myMetadata
  | datasourceResponse => fun (r r' : Datasource.Response) =>
    { r.resp with magic := 0 } = { r'.resp with magic := 0 }
  | onvifMessage => fun m m' => m = m'

variable [Onvif.Position φ]

def encode : (d : Decoder) → d.Object φ → d.Wire φ
  | stream c => c.encode
  | datasourceRequest => Datasource.Request.encode
  | datasourceResponse => Datasource.Response.encode
  | onvifMessage => Onvif.Message.encode

/-- `append`; `broken` is what a parse that fails leaves in a message that is parsed into. -/
def append : (d : Decoder) → Protobuf (d.Wire φ) → (Str → d.Wire φ) →
    Receiver (d.Object φ) → Str → ℤ × Receiver (d.Object φ)
  | stream c => fun proto _ => c.append proto
  | datasourceRequest => Datasource.Request.append
  | datasourceResponse => Datasource.Response.append
  | onvifMessage => fun proto _ => Onvif.Message.append proto

/-- What is wanted for a message that parses: one of the own protocol is accepted, any other is
refused and leaves the fields of the object. -/
def Separates (d : Decoder) (proto : Protobuf (d.Wire φ)) (broken : Str → d.Wire φ)
    (rx : Receiver (d.Object φ)) (chunk : Str) (p : d.Wire φ) : Prop :=
  if d.magic p = d.protocol.magic then (d.append proto broken rx chunk).1 = 1
  else (d.append proto broken rx chunk).1 = -1 ∧
    d.SameFields (d.append proto broken rx chunk).2.fields rx.fields

omit [Onvif.Position φ] in
/-- The objects that `Clear` leaves as they are, where it is called. -/
def Cleared : (d : Decoder) → d.Object φ → Prop
  | stream _ => fun _ => True
  | datasourceRequest => fun (r : Datasource.Request) => { r.req with magic := 0 } = .clear
  | datasourceResponse => fun (r : Datasource.Response) => { r.resp with magic := 0 } = .clear
  | onvifMessage => fun _ => True

end Decoder

/-! ## Which decoders look at the magic number -/

variable {φ : Type} [Onvif.Position φ]

theorem append_eq_one_iff {M P : Type} {proto : Protobuf P} {genuine : P → Bool} {assign : M → P → M}
    {rx : Receiver M} {chunk : Str} {p : P} (h : proto.parse (rx.buf.getD [] ++ chunk) = some p) :
    (Lib.append proto genuine assign rx chunk).1 = 1 ↔ genuine p = true := by
  rw [append_of_parse_some h]
  split_ifs with hp <;> simp [hp]

theorem appendInto_eq_one_iff {M P : Type} {proto : Protobuf P} {broken : Str → P}
    {genuine : P → Bool} {clear : P} {store : M → P → M} {rx : Receiver M} {chunk : Str} {p : P}
    (h : proto.parse (rx.buf.getD [] ++ chunk) = some p) :
    (appendInto proto broken genuine clear store rx chunk).1 = 1 ↔ genuine p = true := by
  rw [appendInto_of_parse_some h]
  split_ifs with hp <;> simp [hp]

/-- A message is accepted for its magic number, by the onvif decoder in any case. -/
theorem accepted_iff (d : Decoder) {proto : Protobuf (d.Wire φ)} (broken : Str → d.Wire φ)
    {rx : Receiver (d.Object φ)} {chunk : Str} {p : d.Wire φ}
    (h : proto.parse (rx.buf.getD [] ++ chunk) = some p) :
    (d.append proto broken rx chunk).1 = 1 ↔
      d.magic p = d.protocol.magic ∨ d = .onvifMessage := by
  have hmagic (a b : UInt32) (d : Decoder) (hd : d ≠ .onvifMessage) :
      (a == b) = true ↔ a = b ∨ d = .onvifMessage := by
    rw [beq_iff_eq, or_iff_left hd]
  cases d with
  | stream c =>
    cases c <;> exact (append_eq_one_iff h).trans (hmagic _ _ (.stream _) (by simp))
  | datasourceRequest => exact (appendInto_eq_one_iff h).trans (hmagic _ _ _ (by simp))
  | datasourceResponse => exact (appendInto_eq_one_iff h).trans (hmagic _ _ _ (by simp))
  | onvifMessage => exact (append_eq_one_iff h).trans (iff_of_true rfl (.inr rfl))

/-- A refused message leaves the fields that `Clear` leaves. -/
theorem refused (d : Decoder) {proto : Protobuf (d.Wire φ)} (broken : Str → d.Wire φ)
    {rx : Receiver (d.Object φ)} {chunk : Str} {p : d.Wire φ}
    (h : proto.parse (rx.buf.getD [] ++ chunk) = some p)
    (hp : d.magic p ≠ d.protocol.magic) (hd : d ≠ .onvifMessage) :
    (d.append proto broken rx chunk).1 = -1 ∧
      (d.SameFields (d.append proto broken rx chunk).2.fields rx.fields ↔ d.Cleared rx.fields) := by
  have hfalse {a b : UInt32} (hab : a ≠ b) : ¬ (a == b) = true := fun heq => hab (beq_iff_eq.mp heq)
  cases d with
  | stream c =>
    have heq : (Decoder.stream c).append proto broken rx chunk = (-1, .holding rx.fields) := by
      cases c with
      | drccpMessage =>
        show Lib.append proto (fun report => report.magic == Computation.Drccp.DRCCP)
          (fun m report => (m.append report).getD m) rx chunk = _
        exact append_refused h (hfalse hp)
      | _ =>
        refine append_refused h ?_
        exact hfalse hp
    rw [heq]
    exact ⟨rfl, iff_of_true rfl trivial⟩
  | datasourceRequest =>
    have heq : Decoder.datasourceRequest.append proto broken rx chunk =
        (-1, .holding ⟨.clear, Datasource.Request.myMetadata rx.fields⟩) := by
      show appendInto proto broken (fun req => req.magic == Datasource.DATASOURCE) .clear
        (fun (r : Datasource.Request) req => { r with req }) rx chunk = _
      exact appendInto_refused h (hfalse hp)
    rw [heq]
    exact ⟨rfl, fun hsame => hsame.1.symm, fun hclear => ⟨hclear.symm, rfl⟩⟩
  | datasourceResponse =>
    have heq : Decoder.datasourceResponse.append proto broken rx chunk =
        (-1, .holding ⟨.clear⟩) := by
      show appendInto proto broken (fun resp => resp.magic == Datasource.DATASOURCE) .clear
        (fun (_ : Datasource.Response) resp => ⟨resp⟩) rx chunk = _
      exact appendInto_refused h (hfalse hp)
    rw [heq]
    exact ⟨rfl, eq_comm⟩
  | onvifMessage => exact absurd rfl hd

/-- Bytes that do not parse are kept. -/
theorem kept (d : Decoder) {proto : Protobuf (d.Wire φ)} (broken : Str → d.Wire φ)
    {rx : Receiver (d.Object φ)} {chunk : Str} (h : proto.parse (rx.buf.getD [] ++ chunk) = none) :
    (d.append proto broken rx chunk).1 = 0 := by
  cases d with
  | stream c => cases c <;> exact congrArg Prod.fst (append_of_parse_none h)
  | datasourceRequest => exact congrArg Prod.fst (appendInto_of_parse_none h)
  | datasourceResponse => exact congrArg Prod.fst (appendInto_of_parse_none h)
  | onvifMessage => exact congrArg Prod.fst (append_of_parse_none h)

/-- The magic number is the same field of every message. -/
def SameMagic {d d' : Decoder} (proto : Protobuf (d.Wire φ)) (proto' : Protobuf (d'.Wire φ)) : Prop :=
  ∀ bs p q, proto.parse bs = some p → proto'.parse bs = some q → d.magic p = d'.magic q

theorem magic_encode (d : Decoder) (m : d.Object φ) : d.magic (d.encode m) = d.protocol.magic := by
  cases d with
  | stream c => cases c <;> rfl
  | _ => rfl

/-- **Exactly when a decoder does what is wanted**: the message is one of its protocol, or it is not
the onvif decoder and there is nothing that `Clear` takes away. The encoding of a message of another
protocol is accepted by the onvif decoder only. -/
theorem separates_iff (d : Decoder) (proto : Protobuf (d.Wire φ)) (broken : Str → d.Wire φ) :
    (∀ (rx : Receiver (d.Object φ)) (chunk : Str) (p : d.Wire φ),
      proto.parse (rx.buf.getD [] ++ chunk) = some p →
        (d.Separates proto broken rx chunk p ↔
          d.magic p = d.protocol.magic ∨ d ≠ .onvifMessage ∧ d.Cleared rx.fields)) ∧
    ∀ (d' : Decoder) (proto' : Protobuf (d'.Wire φ)) (m : d'.Object φ) (fields : d.Object φ),
      d'.protocol ≠ d.protocol → SameMagic proto proto' →
      proto'.parse (proto'.serialize (d'.encode m)) = some (d'.encode m) →
        ((d.append proto broken (.holding fields) (proto'.serialize (d'.encode m))).1 ≠ 1 ↔
          d ≠ .onvifMessage ∨ proto.parse (proto'.serialize (d'.encode m)) = none) := by
  constructor
  · intro rx chunk p h
    unfold Decoder.Separates
    split_ifs with hp
    · exact iff_of_true ((accepted_iff d broken h).mpr (.inl hp)) (.inl hp)
    · rw [or_iff_right hp]
      by_cases hd : d = .onvifMessage
      · have hone := (accepted_iff d broken h).mpr (.inr hd)
        refine iff_of_false (fun hminus => ?_) fun hcleared => hcleared.1 hd
        rw [hone] at hminus
        exact absurd hminus.1 (by decide)
      · obtain ⟨hminus, hfields⟩ := refused d broken h hp hd
        rw [hfields, and_iff_right hminus, and_iff_right hd]
  · intro d' proto' m fields hprotocol hsame hback
    cases hparse : proto.parse (proto'.serialize (d'.encode m)) with
    | none =>
      refine iff_of_true (fun hone => ?_) (.inr rfl)
      have hzero : (d.append proto broken (.holding fields)
          (proto'.serialize (d'.encode m))).1 = 0 := kept d broken hparse
      rw [hzero] at hone
      cases hone
    | some p =>
      have hp : d.magic p ≠ d.protocol.magic := by
        rw [hsame _ p _ hparse hback, magic_encode]
        exact fun heq => hprotocol (Protocol.magic_injective heq)
      have h : proto.parse ((Receiver.holding fields).buf.getD [] ++
          proto'.serialize (d'.encode m)) = some p := hparse
      rw [ne_eq, accepted_iff d broken h, or_iff_right hp]
      simp

/-! ## Onvif messages on the wire -/

open Wire Onvif

def typedAction : Record → Bool
  | ⟨1, .len b⟩ => isText b
  | ⟨2, .len b⟩ => isText b
  | _ => true

def setAction (a : IPCAction) : Record → IPCAction
  | ⟨1, .len b⟩ => { a with ipc := b }
  | ⟨2, .len b⟩ => { a with result := b }
  | ⟨3, .varint n⟩ => { a with ack := n.toUInt32 }
  | ⟨16, .varint n⟩ => { a with scan := n.toUInt32 }
  | ⟨17, .varint n⟩ => { a with streaming := n.toUInt32 }
  | ⟨18, .varint n⟩ => { a with snap := n.toUInt32 }
  | ⟨19, .varint n⟩ => { a with move := n.toUInt32 }
  | ⟨20, .varint n⟩ => { a with absolute := n.toUInt32 }
  | ⟨2048, .varint n⟩ => { a with pan := n.toUInt32 }
  | ⟨2049, .varint n⟩ => { a with tilt := n.toUInt32 }
  | ⟨2050, .varint n⟩ => { a with zoom := n.toUInt32 }
  | ⟨2051, .varint n⟩ => { a with timeout := n.toUInt32 }
  | _ => a

/-- The optional fields are always set, so that they are written even when they are zero. -/
def actionRecords (a : IPCAction) : List Record :=
  bytes 1 a.ipc ++ bytes 2 a.result ++ number 3 a.ack.toNat ++
    [⟨16, .varint a.scan.toNat⟩, ⟨17, .varint a.streaming.toNat⟩, ⟨18, .varint a.snap.toNat⟩,
      ⟨19, .varint a.move.toNat⟩, ⟨20, .varint a.absolute.toNat⟩, ⟨2048, .varint a.pan.toNat⟩,
      ⟨2049, .varint a.tilt.toNat⟩, ⟨2050, .varint a.zoom.toNat⟩, ⟨2051, .varint a.timeout.toNat⟩]

def newAction : IPCAction := ⟨[], [], 0, 0, 0, 0, 0, 0, 0, 0, 0, 0⟩

def typedOnvif : Record → Bool
  | ⟨5, .len b⟩ => isText b
  | ⟨6, .len b⟩ => (readMessage typedAction setAction newAction b).isSome
  | ⟨110, .len b⟩ => isText b
  | _ => true

def setOnvif (m : OnvifMessage) : Record → OnvifMessage
  | ⟨1, .varint n⟩ => { m with magic := n.toUInt32 }
  | ⟨2, .varint n⟩ => { m with transactionID := n.toUInt32 }
  | ⟨3, .varint n⟩ => { m with srcUID := n.toUInt32 }
  | ⟨4, .varint n⟩ => { m with destUID := n.toUInt32 }
  | ⟨5, .len b⟩ => { m with token := b }
  | ⟨6, .len b⟩ =>
    { m with actions := m.actions ++ (readMessage typedAction setAction newAction b).toList }
  | ⟨110, .len b⟩ => { m with extension := b }
  | _ => m

def onvifRecords (m : OnvifMessage) : List Record :=
  number 1 m.magic.toNat ++ number 2 m.transactionID.toNat ++ number 3 m.srcUID.toNat ++
    number 4 m.destUID.toNat ++ bytes 5 m.token ++
    (m.actions.map fun a => ⟨6, .len ((actionRecords a).flatMap Record.encode)⟩) ++
    bytes 110 m.extension

/-- The message `OnvifMessage`. -/
def onvifProto : Protobuf OnvifMessage :=
  protobuf typedOnvif setOnvif ⟨0, 0, 0, 0, [], [], []⟩ onvifRecords

/-- The magic number of the datasource protocol, and nothing else. -/
def datasourceChunk : Str := [0x08, 0xf2, 0xe6, 0xd1, 0xa3, 0x06]

theorem parse_datasourceChunk : onvifProto.parse datasourceChunk =
    some ⟨Datasource.DATASOURCE, 0, 0, 0, [], [], []⟩ := by
  decide

/-- The magic number of the onvif protocol, and nothing else. -/
def onvifChunk : Str := [0x08, 0xd3, 0x8c, 0xd9, 0xfa, 0x04]

theorem parse_onvifChunk : onvifProto.parse onvifChunk =
    some ⟨ONVIFFORWARD, 0, 0, 0, [], [], []⟩ := by
  decide

/-- A message of the own protocol is accepted. -/
theorem separates_iff_own : Decoder.onvifMessage.Separates (φ := ℚ) onvifProto
    (fun _ => ⟨0, 0, 0, 0, [], [], []⟩) (.holding .new) onvifChunk
    ⟨ONVIFFORWARD, 0, 0, 0, [], [], []⟩ :=
  ((separates_iff (φ := ℚ) .onvifMessage onvifProto fun _ => ⟨0, 0, 0, 0, [], [], []⟩).1
    (.holding .new) _ _ parse_onvifChunk).mpr (.inl rfl)

/-- **The onvif decoder accepts any magic number.** -/
theorem magic_not_checked :
    ¬ ∀ (d : Decoder) (proto : Protobuf (d.Wire ℚ)) (broken : Str → d.Wire ℚ)
      (rx : Receiver (d.Object ℚ)) (chunk : Str) (p : d.Wire ℚ),
        proto.parse (rx.buf.getD [] ++ chunk) = some p → d.Separates proto broken rx chunk p := by
  intro h
  have hseparates := h .onvifMessage onvifProto (fun _ => ⟨0, 0, 0, 0, [], [], []⟩) (.holding .new)
    datasourceChunk _ parse_datasourceChunk
  have hone : (Decoder.onvifMessage.append onvifProto (fun _ => ⟨0, 0, 0, 0, [], [], []⟩)
      (.holding .new) datasourceChunk).1 = 1 :=
    (accepted_iff (φ := ℚ) .onvifMessage _ parse_datasourceChunk).mpr (.inr rfl)
  unfold Decoder.Separates at hseparates
  rw [if_neg (by decide)] at hseparates
  exact absurd (hone.symm.trans hseparates.1) (by decide)

end Jxtd.Proto
