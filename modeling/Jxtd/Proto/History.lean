import Jxtd.Proto.Magic

/-!
# What an earlier message leaves behind

An object may decode one message after another. Most fields are overwritten; the entries of an
endpoint, the shares and the actions are added to those that are there, and a member of a taskdep
object that is not sent stays.

* `Decoder.Replaces`: what must not be there for a message to take the place of an earlier one.
* **`history_free_iff`**: exactly when the fields are those of a fresh object.
* **`actions_accumulate`**: an onvif message that is decoded twice.
-/

namespace Jxtd.Taskdep

open Lib

theorem Object.assign_eq_assign_new_iff (o prior : Object) :
    prior.assign o.encode = Object.assign ⟨none, none, none⟩ o.encode ↔ o.Replaces prior := by
  rw [o.assign_encode, Object.assign_encode_eq_iff]

theorem Request.assign_eq_assign_new_iff (r prior : Request) :
    prior.assign r.encode = Request.new.assign r.encode ↔ r.object.Replaces prior.object := by
  rw [← Object.assign_eq_assign_new_iff]
  simp [Request.assign, Request.encode, Request.new]

theorem Response.assign_eq_assign_new_iff (r prior : Response) :
    prior.assign r.encode = Response.new.assign r.encode ↔ r.object.Replaces prior.object := by
  rw [← Object.assign_eq_assign_new_iff]
  simp [Response.assign, Response.encode, Response.new]

end Jxtd.Taskdep

namespace Jxtd.Proto

open Lib

/-! ## What must not be there -/

namespace Decoder

variable {φ : Type}

/-- A fresh object. -/
def new : (d : Decoder) → d.Object φ
  | stream c => c.new
  | datasourceRequest => Datasource.Request.new
  | datasourceResponse => Datasource.Response.new
  | onvifMessage => Onvif.Message.new

/-- The message takes the place of everything in `prior`: a taskdep message replaces its object, and
there are no shares, no actions and no map of metadata in it. -/
def Replaces : (d : Decoder) → d.Object φ → d.Object φ → Prop
  | stream .taskdepRequest => fun (m prior : Taskdep.Request) => m.object.Replaces prior.object
  | stream .taskdepResponse => fun (m prior : Taskdep.Response) => m.object.Replaces prior.object
  | stream .datatransferRequest => fun _ _ => True
  | stream .datatransferResponse => fun _ _ => True
  | stream .drccpMessage => fun _ (prior : Computation.Drccp.Message φ) => prior.shares = []
  | datasourceRequest => fun _ (prior : Datasource.Request) => prior.myMetadata = ∅
  | datasourceResponse => fun _ _ => True
  | onvifMessage => fun _ (prior : Onvif.Message φ) => prior.actions = []

end Decoder

variable {φ : Type}

theorem fields_append {M P : Type} {proto : Protobuf P} {genuine : P → Bool} {assign : M → P → M}
    {rx : Receiver M} {chunk : Str} {p : P} (h : proto.parse (rx.buf.getD [] ++ chunk) = some p)
    (hp : genuine p = true) :
    (Lib.append proto genuine assign rx chunk).2.fields = assign rx.fields p := by
  rw [append_accepted h hp]
  rfl

theorem fields_appendInto {M P : Type} {proto : Protobuf P} {broken : Str → P} {genuine : P → Bool}
    {clear : P} {store : M → P → M} {rx : Receiver M} {chunk : Str} {p : P}
    (h : proto.parse (rx.buf.getD [] ++ chunk) = some p) (hp : genuine p = true) :
    (appendInto proto broken genuine clear store rx chunk).2.fields = store rx.fields p := by
  rw [appendInto_accepted h hp]
  rfl

theorem drccp_eq_new_iff (m prior : Computation.Drccp.Message φ) :
    (prior.append m.encode).getD prior =
        (Computation.Drccp.Message.new.append m.encode).getD .new ↔
      prior.shares = [] := by
  simp [Computation.Drccp.Message.append, Computation.Drccp.Message.encode,
    Computation.Drccp.Message.new]

theorem datasource_eq_new_iff (req : Datasource.request) (prior : Datasource.Request) :
    { prior with req } = { Datasource.Request.new with req } ↔ prior.myMetadata = ∅ := by
  simp [Datasource.Request.new]

variable [Onvif.Position φ]

theorem onvif_eq_new_iff (m prior : Onvif.Message φ) :
    prior.assign m.encode = Onvif.Message.new.assign m.encode ↔ prior.actions = [] := by
  simp [Onvif.Message.assign, Onvif.Message.new]

/-- **Exactly when the earlier content of an object does not show**: the message takes the place of
everything in it. -/
theorem history_free_iff (d : Decoder) (proto : Protobuf (d.Wire φ)) (broken : Str → d.Wire φ)
    {rx : Receiver (d.Object φ)} {chunk : Str} {m : d.Object φ}
    (h : proto.parse (rx.buf.getD [] ++ chunk) = some (d.encode m)) :
    (d.append proto broken rx chunk).2.fields =
        (d.append proto broken ⟨d.new, rx.buf⟩ chunk).2.fields ↔
      d.Replaces m rx.fields := by
  have hnew : proto.parse ((⟨d.new, rx.buf⟩ : Receiver (d.Object φ)).buf.getD [] ++ chunk) =
      some (d.encode m) := h
  cases d with
  | stream c =>
    cases c with
    | taskdepRequest =>
      refine (Eq.congr (fields_append h rfl) (fields_append hnew rfl)).trans ?_
      exact Taskdep.Request.assign_eq_assign_new_iff m rx.fields
    | taskdepResponse =>
      refine (Eq.congr (fields_append h rfl) (fields_append hnew rfl)).trans ?_
      exact Taskdep.Response.assign_eq_assign_new_iff m rx.fields
    | datatransferRequest =>
      exact (Eq.congr (fields_append h rfl) (fields_append hnew rfl)).trans (iff_of_true rfl trivial)
    | datatransferResponse =>
      exact (Eq.congr (fields_append h rfl) (fields_append hnew rfl)).trans (iff_of_true rfl trivial)
    | drccpMessage =>
      show (Lib.append proto (fun report => report.magic == Computation.Drccp.DRCCP)
        (fun m report => (m.append report).getD m) rx chunk).2.fields =
        (Lib.append proto (fun report => report.magic == Computation.Drccp.DRCCP)
          (fun m report => (m.append report).getD m) ⟨.new, rx.buf⟩ chunk).2.fields ↔ _
      refine (Eq.congr (fields_append h rfl) (fields_append hnew rfl)).trans ?_
      exact drccp_eq_new_iff m rx.fields
  | datasourceRequest =>
    refine (Eq.congr (fields_appendInto h rfl) (fields_appendInto hnew rfl)).trans ?_
    exact datasource_eq_new_iff _ rx.fields
  | datasourceResponse =>
    exact (Eq.congr (fields_appendInto h rfl) (fields_appendInto hnew rfl)).trans
      (iff_of_true rfl trivial)
  | onvifMessage =>
    refine (Eq.congr (fields_append h rfl) (fields_append hnew rfl)).trans ?_
    exact onvif_eq_new_iff m rx.fields

/-! ## A message that is decoded twice -/

open Onvif

/-- A message with one action. -/
def snapMessage : Message ℚ :=
  Message.new.addAction ⟨lit "c", [], false, false, false, true, false, false, 0, 0, 0, 0⟩

/-- The bytes of the message. -/
def snapChunk : Str := onvifProto.serialize snapMessage.encode

theorem parse_snapChunk : onvifProto.parse snapChunk = some snapMessage.encode := by
  decide +kernel

/-- Nothing is left of a parse that fails: the object holds no message that it parses into. -/
def noOnvif (_ : Str) : OnvifMessage := ⟨0, 0, 0, 0, [], [], []⟩

/-- An object that has decoded a message with no actions. -/
theorem history_free_iff_snap :
    (Decoder.onvifMessage.append (φ := ℚ) onvifProto noOnvif
        (.holding (Message.new.setToken (lit "t"))) snapChunk).2.fields =
      (Decoder.onvifMessage.append (φ := ℚ) onvifProto noOnvif (.holding .new) snapChunk).2.fields := by
  have h : onvifProto.parse ((Receiver.holding ((Message.new : Message ℚ).setToken
      (lit "t"))).buf.getD [] ++ snapChunk) = some (Decoder.onvifMessage.encode snapMessage) :=
    parse_snapChunk
  exact (history_free_iff .onvifMessage onvifProto noOnvif h).mpr rfl

/-- The object after the bytes have been decoded once more. -/
theorem append_snapChunk (m : Message ℚ) :
    Message.append onvifProto (.holding m) snapChunk =
      (1, .holding (m.assign snapMessage.encode)) :=
  append_accepted parse_snapChunk rfl

/-- **The second decoding adds the action again.** -/
theorem actions_accumulate :
    let first := Decoder.onvifMessage.append (φ := ℚ) onvifProto noOnvif (.holding .new) snapChunk
    let second := Decoder.onvifMessage.append (φ := ℚ) onvifProto noOnvif first.2 snapChunk
    first.1 = 1 ∧ second.1 = 1 ∧ second.2.fields ≠ first.2.fields := by
  have hfirst : Decoder.onvifMessage.append (φ := ℚ) onvifProto noOnvif (.holding .new) snapChunk =
      (1, .holding (Message.new.assign snapMessage.encode)) := append_snapChunk .new
  have hsecond : Decoder.onvifMessage.append (φ := ℚ) onvifProto noOnvif
      (.holding (Message.new.assign snapMessage.encode)) snapChunk =
        (1, .holding ((Message.new.assign snapMessage.encode).assign snapMessage.encode)) :=
    append_snapChunk _
  dsimp only
  rw [hfirst, hsecond]
  refine ⟨rfl, rfl, fun heq => ?_⟩
  have hlength := congrArg (fun m : Message ℚ => m.actions.length) heq
  cases hlength

end Jxtd.Proto
