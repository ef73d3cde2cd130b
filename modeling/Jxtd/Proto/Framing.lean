import Jxtd.Computation.Drccp.Message
import Jxtd.Lib.Rust
import Jxtd.Lib.Wire
import Jxtd.Proto.Datatransfer.Texts
import Jxtd.Proto.Taskdep.Texts

/-!
# Messages over a stream

The five classes of the three protocols, each with `encode` and `append`. An encoding has no length
in front; `append` takes what parses for the whole message.

* `MessageClass`: the classes; `MessageClass.Kept`: the messages that come back field by field;
  **`MessageClass.allText_encode`**: what a parser checks of what is written of them.
* **`received_iff`**: exactly which messages are received with the last of which chunks.
* `requestProto`: the wire format of the datatransfer requests.
* **`cut_between_records`**: a request that is cut between two fields.
-/

namespace Jxtd.Proto

open Lib

/-- The classes with an `append` of their own. -/
inductive MessageClass
  | taskdepRequest
  | taskdepResponse
  | datatransferRequest
  | datatransferResponse
  | drccpMessage
  deriving DecidableEq

namespace MessageClass

/-- The objects of a class; `φ` is the type of the shares of a drccp message. -/
def Object (φ : Type) : MessageClass → Type
  | taskdepRequest => Taskdep.Request
  | taskdepResponse => Taskdep.Response
  | datatransferRequest => Datatransfer.Request
  | datatransferResponse => Datatransfer.Response
  | drccpMessage => Computation.Drccp.Message φ

/-- The protobuf messages of a class. -/
def Wire (φ : Type) : MessageClass → Type
  | taskdepRequest => Taskdep.REQUEST
  | taskdepResponse => Taskdep.RESPONSE
  | datatransferRequest => Datatransfer.request
  | datatransferResponse => Datatransfer.response
  | drccpMessage => Computation.Drccp.Report φ

variable {φ : Type}

/-- A fresh object. -/
def new : (c : MessageClass) → c.Object φ
  | taskdepRequest => Taskdep.Request.new
  | taskdepResponse => Taskdep.Response.new
  | datatransferRequest => Datatransfer.Request.new
  | datatransferResponse => Datatransfer.Response.new
  | drccpMessage => Computation.Drccp.Message.new

def encode : (c : MessageClass) → c.Object φ → c.Wire φ
  | taskdepRequest => Taskdep.Request.encode
  | taskdepResponse => Taskdep.Response.encode
  | datatransferRequest => Datatransfer.Request.encode
  | datatransferResponse => Datatransfer.Response.encode
  | drccpMessage => Computation.Drccp.Message.encode

def append : (c : MessageClass) → Protobuf (c.Wire φ) →
    Receiver (c.Object φ) → Str → ℤ × Receiver (c.Object φ)
  | taskdepRequest => Taskdep.Request.append
  | taskdepResponse => Taskdep.Response.append
  | datatransferRequest => Datatransfer.Request.append
  | datatransferResponse => Datatransfer.Response.append
  | drccpMessage => Computation.Drccp.Message.receive

/-- The strings of a report; the payload of a message is no `string`. -/
def reportTexts (report : Computation.Drccp.Report φ) : List Str :=
  [report.cluster, report.msg, report.src.addr, report.dest.addr] ++
    report.shares.map fun s => s.1.addr

/-- The strings of a protobuf message. -/
def wireTexts : (c : MessageClass) → c.Wire φ → List Str
  | taskdepRequest => Taskdep.REQUEST.texts
  | taskdepResponse => Taskdep.RESPONSE.texts
  | datatransferRequest => Datatransfer.request.texts
  | datatransferResponse => Datatransfer.response.texts
  | drccpMessage => reportTexts

/-- The texts of an object. -/
def texts : (c : MessageClass) → c.Object φ → List Str
  | taskdepRequest => Taskdep.Request.texts
  | taskdepResponse => Taskdep.Response.texts
  | datatransferRequest => Datatransfer.Request.texts
  | datatransferResponse => Datatransfer.Response.texts
  | drccpMessage => fun (m : Computation.Drccp.Message φ) =>
    [m.cluster, m.msg, m.src.1, m.dest.1] ++ m.shares.map fun s => s.1.1

/-- The messages whose fields come back once they are parsed: a taskdep request with an engine and
attributes, a datatransfer message whose pairs of attributes are whole, a drccp message of version
`3`. -/
def Restored : (c : MessageClass) → c.Object φ → Prop
  | taskdepRequest => fun (m : Taskdep.Request) => m.engine ≠ none ∧ m.attr ≠ none
  | taskdepResponse => fun _ => True
  | datatransferRequest => fun (m : Datatransfer.Request) => ∀ a ∈ m.adtsrcs, a.Paired
  | datatransferResponse => fun (m : Datatransfer.Response) => ∀ d ∈ m.dtsrcs, d.Paired
  | drccpMessage => fun (m : Computation.Drccp.Message φ) => m.version = 3

/-- The messages whose fields all come back: their texts are UTF-8 besides. -/
def Kept (c : MessageClass) (m : c.Object φ) : Prop := c.Restored m ∧ AllText (c.texts m)

/-- **What is written of a message** are its texts. -/
theorem allText_encode {c : MessageClass} {m : c.Object φ} (h : c.Restored m) :
    AllText (c.wireTexts (c.encode m)) ↔ AllText (c.texts m) := by
  cases c with
  | taskdepRequest => exact Taskdep.allText_request m
  | taskdepResponse => exact Taskdep.allText_response m
  | datatransferRequest => exact Datatransfer.allText_request h
  | datatransferResponse => exact Datatransfer.allText_response h
  | drccpMessage =>
    have hshares : (m.encode.shares.map fun s => s.1.addr) = m.shares.map fun s => s.1.1 :=
      List.map_map
    show AllText (reportTexts m.encode) ↔ _
    rw [reportTexts, hshares]
    rfl

end MessageClass

variable {φ : Type}

/-- A chunk before the last one ends where a record ends. -/
def CutBetween (records chunks : List Str) : Prop :=
  ∃ pre post k, chunks = pre ++ post ∧ pre ≠ [] ∧ post ≠ [] ∧
    pre.flatten = (records.take k).flatten

/-- A message that parses is received exactly when no chunk ends between two of its records and its
fields come back. -/
theorem received_iff_of_frames (c : MessageClass) {proto : Protobuf (c.Wire φ)} {m : c.Object φ}
    {records : List Str} (hframes : proto.Frames (c.encode m) records) {chunks : List Str}
    (hchunks : chunks.flatten = proto.serialize (c.encode m)) (hne : chunks ≠ []) :
    Received (c.append proto) (.holding c.new) chunks m ↔
      ¬ CutBetween records chunks ∧ c.Restored m := by
  have hcut : (∀ pre post k, chunks = pre ++ post → pre ≠ [] → post ≠ [] →
      pre.flatten ≠ (records.take k).flatten) ↔ ¬ CutBetween records chunks := by
    simp only [CutBetween, not_exists, not_and, ne_eq]
  rw [← hcut]
  cases c with
  | taskdepRequest =>
    refine (feed_records_iff hframes rfl hchunks hne).trans (and_congr_right fun _ => ?_)
    exact Taskdep.Request.assign_encode_eq_iff m
  | taskdepResponse =>
    refine (feed_records_iff hframes rfl hchunks hne).trans (and_congr_right fun _ => ?_)
    exact iff_of_true (Taskdep.Response.assign_encode m) trivial
  | datatransferRequest =>
    refine (feed_records_iff hframes rfl hchunks hne).trans (and_congr_right fun _ => ?_)
    exact Datatransfer.Request.assign_encode_eq_iff _ m
  | datatransferResponse =>
    refine (feed_records_iff hframes rfl hchunks hne).trans (and_congr_right fun _ => ?_)
    exact Datatransfer.Response.assign_encode_eq_iff _ m
  | drccpMessage =>
    show Received (Lib.append proto (fun report => report.magic == Computation.Drccp.DRCCP)
      fun m report => (m.append report).getD m) (.holding .new) chunks m ↔ _
    refine (feed_records_iff hframes rfl hchunks hne).trans (and_congr_right fun _ => ?_)
    exact Computation.Drccp.Message.getD_append_encode_eq_iff m

/-- A message that does not parse is kept for ever. -/
theorem not_received_of_parse_none (c : MessageClass) {proto : Protobuf (c.Wire φ)}
    {m m' : c.Object φ} {chunks : List Str} (hne : chunks ≠ [])
    (h : proto.parse chunks.flatten = none) :
    ¬ Received (c.append proto) (.holding m') chunks m := by
  have hbuf : proto.parse ((Receiver.holding m').buf.getD [] ++ chunks.flatten) = none := h
  cases c with
  | taskdepRequest => exact not_received_from hne hbuf
  | taskdepResponse => exact not_received_from hne hbuf
  | datatransferRequest => exact not_received_from hne hbuf
  | datatransferResponse => exact not_received_from hne hbuf
  | drccpMessage =>
    show ¬ Received (Lib.append proto (fun report => report.magic == Computation.Drccp.DRCCP)
      fun m report => (m.append report).getD m) (.holding m') chunks m
    exact not_received_from hne hbuf

/-- **Exactly which chunks are received as the message**: those of a message all of whose fields come
back and whose texts are UTF-8, with no cut between two records. -/
theorem received_iff (c : MessageClass) {proto : Protobuf (c.Wire φ)} {Complete : Str → Prop}
    (hproto : proto.Delimited Complete) {m : c.Object φ} {records : List Str}
    (hm : proto.Serializes Complete (AllText (c.wireTexts (c.encode m))) (c.encode m) records)
    {chunks : List Str} (hchunks : chunks.flatten = proto.serialize (c.encode m))
    (hne : chunks ≠ []) :
    Received (c.append proto) (.holding c.new) chunks m ↔
      ¬ CutBetween records chunks ∧ c.Kept m := by
  by_cases htext : AllText (c.wireTexts (c.encode m))
  · rw [received_iff_of_frames c (hproto.frames hm htext) hchunks hne, MessageClass.Kept]
    refine and_congr_right fun _ => ⟨fun h => ⟨h, ?_⟩, And.left⟩
    exact (MessageClass.allText_encode h).mp htext
  · have hparse : proto.parse chunks.flatten = none := hchunks ▸ hm.refused htext
    refine iff_of_false (not_received_of_parse_none c hne hparse) fun h => htext ?_
    exact (MessageClass.allText_encode h.2.1).mpr h.2.2

/-! ## Datatransfer requests on the wire -/

open Wire Datatransfer

def typedPair : Record → Bool
  | ⟨1, .len b⟩ => isText b
  | ⟨2, .len b⟩ => isText b
  | _ => true

def setPair (p : Str × Str) : Record → Str × Str
  | ⟨1, .len b⟩ => (b, p.2)
  | ⟨2, .len b⟩ => (p.1, b)
  | _ => p

def pairRecords (p : Str × Str) : List Record := bytes 1 p.1 ++ bytes 2 p.2

def typedSource : Record → Bool
  | ⟨3, .len b⟩ => (readMessage typedPair setPair ([], []) b).isSome
  | ⟨4, .len b⟩ => (readMessage typedPair setPair ([], []) b).isSome
  | ⟨5, .len b⟩ => isText b
  | _ => true

/-- A pair that comes twice is merged. -/
def setSource (a : adtsrc) : Record → adtsrc
  | ⟨1, .varint n⟩ => { a with taskid := some n.toUInt32 }
  | ⟨2, .varint n⟩ => { a with type := n.toUInt32 }
  | ⟨3, .len b⟩ => { a with engine := readMessage typedPair setPair (a.engine.getD ([], [])) b }
  | ⟨4, .len b⟩ => { a with endpoint := readMessage typedPair setPair (a.endpoint.getD ([], [])) b }
  | ⟨5, .len b⟩ => { a with binary := some b }
  | _ => a

def sourceRecords (a : adtsrc) : List Record :=
  (a.taskid.toList.map fun taskid => ⟨1, .varint taskid.toNat⟩) ++ number 2 a.type.toNat ++
    (a.engine.toList.map fun p => ⟨3, .len ((pairRecords p).flatMap Record.encode)⟩) ++
    (a.endpoint.toList.map fun p => ⟨4, .len ((pairRecords p).flatMap Record.encode)⟩) ++
    a.binary.toList.map fun b => ⟨5, .len b⟩

def typedRequest : Record → Bool
  | ⟨2, .len b⟩ => isText b
  | ⟨3, .len b⟩ => isText b
  | ⟨4, .len b⟩ => isText b
  | ⟨6, .len b⟩ => (readMessage typedSource setSource .default b).isSome
  | _ => true

def setRequest (r : request) : Record → request
  | ⟨1, .varint n⟩ => { r with magic := n.toUInt32 }
  | ⟨2, .len b⟩ => { r with token := b }
  | ⟨3, .len b⟩ => { r with src := b }
  | ⟨4, .len b⟩ => { r with dest := b }
  | ⟨5, .varint n⟩ => { r with direction := n.toUInt32 }
  | ⟨6, .len b⟩ =>
    { r with master := r.master ++ (readMessage typedSource setSource .default b).toList }
  | _ => r

def requestRecords (r : request) : List Record :=
  number 1 r.magic.toNat ++ bytes 2 r.token ++ bytes 3 r.src ++ bytes 4 r.dest ++
    number 5 r.direction.toNat ++
    r.master.map fun a => ⟨6, .len ((sourceRecords a).flatMap Record.encode)⟩

/-- The message `request`. -/
def requestProto : Protobuf request :=
  protobuf typedRequest setRequest ⟨0, [], [], [], 0, []⟩ requestRecords

/-- A request from the node `a`. -/
def requestFromA : Datatransfer.Request := Datatransfer.Request.new.setSrc (lit "a")

def recordsFromA : List Str :=
  [[0x08, 0xd2, 0xa8, 0xd1, 0xa2, 0x04], [0x1a, 0x01, 0x61]]

theorem allText_requestFromA : AllText requestFromA.texts := by
  unfold AllText
  decide

theorem serializes_requestFromA :
    requestProto.Serializes (Complete typedRequest) (AllText requestFromA.encode.texts)
      requestFromA.encode recordsFromA where
  serialize_eq := by decide
  complete := by
    intro _ r hr
    rcases List.mem_cons.mp hr with rfl | hr
    · exact ⟨⟨1, .varint 0x44545452⟩, rfl, rfl⟩
    · rw [List.mem_singleton.mp hr]
      exact ⟨⟨3, .len [0x61]⟩, rfl, rfl⟩
  restored _ := rfl
  refused h := absurd allText_requestFromA h

/-- The request is cut in the middle of the magic number. -/
theorem received_requestFromA :
    Received (Datatransfer.Request.append requestProto) (.holding .new)
      [[0x08, 0xd2, 0xa8], [0xd1, 0xa2, 0x04, 0x1a, 0x01, 0x61]] requestFromA := by
  refine (received_iff (φ := ℚ) .datatransferRequest (delimited_protobuf _ _ _ _)
    serializes_requestFromA (by decide) (List.cons_ne_nil _ _)).mpr
      ⟨?_, fun a ha => ?_, allText_requestFromA⟩
  · rintro ⟨pre, post, k, heq, hpre, hpost, hcut⟩
    rcases pre with _ | ⟨chunk, _ | ⟨chunk', pre⟩⟩
    · exact hpre rfl
    · cases heq
      rcases k with _ | _ | k <;> cases hcut
    · -- the last chunk is not before the last
      cases post with
      | nil => exact hpost rfl
      | cons => simp at heq
  · cases ha

/-- **A cut between two fields.** The first chunk, which is the magic number, is taken for a request
without a source; the second one, which has none, is refused. -/
theorem cut_between_records :
    [[0x08, 0xd2, 0xa8, 0xd1, 0xa2, 0x04], [0x1a, 0x01, 0x61]].flatten =
      requestProto.serialize requestFromA.encode ∧
    feed (Datatransfer.Request.append requestProto) (.holding .new)
        [[0x08, 0xd2, 0xa8, 0xd1, 0xa2, 0x04], [0x1a, 0x01, 0x61]] =
      ([1, -1], .holding .new) :=
  ⟨by decide, rfl⟩

end Jxtd.Proto
