import Jxtd.Proto.Framing

/-!
# What a datatransfer message may carry

A source holds engines and the data of tasks in `binary`, which is a `string`.

* **`payload_comes_back_iff`**: exactly which requests and responses come back.
* `responseProto`: the wire format of the responses.
* **`binary_refused`**: an engine that is not a text.
-/

namespace Jxtd.Datatransfer

open Lib Lib.Wire Jxtd.Proto

/-! ## What comes back -/

/-- A message that is decoded to its object comes back exactly when its strings are UTF-8. -/
theorem append_eq_iff {M P : Type} {proto : Protobuf P} {genuine : P → Bool} {assign : M → P → M}
    {texts : P → List Str} {p : P} {m₀ m : M} (h : ChecksText proto texts p) (hp : genuine p = true)
    (hassign : assign m₀ p = m) :
    Lib.append proto genuine assign (.holding m₀) (proto.serialize p) = (1, .holding m) ↔
      AllText (texts p) := by
  by_cases htext : AllText (texts p)
  · have hstored : Lib.append proto genuine assign (.holding m₀) (proto.serialize p) =
        (1, .holding (assign m₀ p)) := append_accepted (h.restored htext) hp
    rw [hstored, hassign]
    exact iff_of_true rfl htext
  · have hkept : Lib.append proto genuine assign (.holding m₀) (proto.serialize p) =
        (0, ⟨m₀, some (proto.serialize p)⟩) := append_of_parse_none (h.refused htext)
    rw [hkept]
    refine iff_of_false (fun heq => ?_) htext
    cases congrArg Prod.fst heq

/-- **Exactly which messages come back**: those whose texts are UTF-8, the binaries included. -/
theorem payload_comes_back_iff {proto : Protobuf request} {proto' : Protobuf response} {r : Request}
    {r' : Response} (h : ChecksText proto request.texts r.encode)
    (h' : ChecksText proto' response.texts r'.encode) (hr : ∀ a ∈ r.adtsrcs, a.Paired)
    (hr' : ∀ d ∈ r'.dtsrcs, d.Paired) :
    (Request.append proto (.holding .new) (proto.serialize r.encode) = (1, .holding r) ↔
      AllText r.texts) ∧
    (Response.append proto' (.holding .new) (proto'.serialize r'.encode) = (1, .holding r') ↔
      AllText r'.texts) := by
  constructor
  · rw [← allText_request hr]
    exact append_eq_iff h rfl ((Request.assign_encode_eq_iff .new r).mpr hr)
  · rw [← allText_response hr']
    exact append_eq_iff h' rfl ((Response.assign_encode_eq_iff .new r').mpr hr')

/-! ## Responses on the wire -/

def typedDep : Record → Bool
  | ⟨1, .len b⟩ => (readMessage typedSource setSource .default b).isSome
  | ⟨2, .len b⟩ => isText b
  | _ => true

/-- A source that comes twice is merged. -/
def setDep (d : dtsrc.dep) : Record → dtsrc.dep
  | ⟨1, .len b⟩ =>
    { d with endpoint := readMessage typedSource setSource (d.endpoint.getD .default) b }
  | ⟨2, .len b⟩ => { d with relative := some b }
  | _ => d

def depRecords (d : dtsrc.dep) : List Record :=
  (d.endpoint.toList.map fun a => ⟨1, .len ((sourceRecords a).flatMap Record.encode)⟩) ++
    d.relative.toList.map fun b => ⟨2, .len b⟩

def typedDtsrc : Record → Bool
  | ⟨1, .len b⟩ => (readMessage typedSource setSource .default b).isSome
  | ⟨2, .len b⟩ => (readMessage typedDep setDep ⟨none, none⟩ b).isSome
  | _ => true

def setDtsrc (d : dtsrc) : Record → dtsrc
  | ⟨1, .len b⟩ =>
    { d with master := readMessage typedSource setSource (d.master.getD .default) b }
  | ⟨2, .len b⟩ =>
    { d with deps := d.deps ++ (readMessage typedDep setDep ⟨none, none⟩ b).toList }
  | _ => d

def dtsrcRecords (d : dtsrc) : List Record :=
  (d.master.toList.map fun a => ⟨1, .len ((sourceRecords a).flatMap Record.encode)⟩) ++
    d.deps.map fun dep => ⟨2, .len ((depRecords dep).flatMap Record.encode)⟩

def typedResponse : Record → Bool
  | ⟨2, .len b⟩ => isText b
  | ⟨3, .len b⟩ => isText b
  | ⟨4, .len b⟩ => isText b
  | ⟨5, .len b⟩ => (readMessage typedDtsrc setDtsrc ⟨none, []⟩ b).isSome
  | _ => true

def setResponse (r : response) : Record → response
  | ⟨1, .varint n⟩ => { r with magic := n.toUInt32 }
  | ⟨2, .len b⟩ => { r with token := b }
  | ⟨3, .len b⟩ => { r with src := b }
  | ⟨4, .len b⟩ => { r with dest := b }
  | ⟨5, .len b⟩ =>
    { r with master := r.master ++ (readMessage typedDtsrc setDtsrc ⟨none, []⟩ b).toList }
  | _ => r

def responseRecords (r : response) : List Record :=
  number 1 r.magic.toNat ++ bytes 2 r.token ++ bytes 3 r.src ++ bytes 4 r.dest ++
    r.master.map fun d => ⟨5, .len ((dtsrcRecords d).flatMap Record.encode)⟩

/-- The message `response`. -/
def responseProto : Protobuf response :=
  protobuf typedResponse setResponse ⟨0, [], [], [], []⟩ responseRecords

/-! ## Engines -/

/-- The engine `a`, with these bytes. -/
def engineSource (binary : Str) : Adtsrc := ⟨0, 0, (lit "a", lit "a"), ([], []), binary⟩

/-- A request that pushes the engine. -/
def pushRequest (binary : Str) : Request := Request.new.addAdtsrc (engineSource binary)

/-- A response with the engine, which depends on itself. -/
def pullResponse (binary : Str) : Response :=
  Response.new.addDtsrc ⟨engineSource binary, [(engineSource binary, lit "b")]⟩

theorem paired_engineSource (binary : Str) : (engineSource binary).Paired := by
  simp [engineSource, Adtsrc.Paired, Paired]

theorem paired_pushRequest (binary : Str) : ∀ a ∈ (pushRequest binary).adtsrcs, a.Paired :=
  List.forall_mem_singleton.mpr (paired_engineSource binary)

theorem paired_pullResponse (binary : Str) : ∀ d ∈ (pullResponse binary).dtsrcs, d.Paired :=
  List.forall_mem_singleton.mpr
    ⟨paired_engineSource binary, List.forall_mem_singleton.mpr (paired_engineSource binary)⟩

theorem payload_comes_back_text :
    Request.append requestProto (.holding .new) (requestProto.serialize (pushRequest (lit "x")).encode) =
        (1, .holding (pushRequest (lit "x"))) ∧
      Response.append responseProto (.holding .new)
        (responseProto.serialize (pullResponse (lit "x")).encode) =
        (1, .holding (pullResponse (lit "x"))) := by
  have hrequest : ChecksText requestProto request.texts (pushRequest (lit "x")).encode :=
    ⟨fun _ => by decide +kernel, fun h => absurd (by unfold AllText; decide) h⟩
  have hresponse : ChecksText responseProto response.texts (pullResponse (lit "x")).encode :=
    ⟨fun _ => by decide +kernel, fun h => absurd (by unfold AllText; decide) h⟩
  have hback := payload_comes_back_iff hrequest hresponse (paired_pushRequest _) (paired_pullResponse _)
  exact ⟨hback.1.mpr (by unfold AllText; decide), hback.2.mpr (by unfold AllText; decide)⟩

/-- **An engine that is not a text** is not received: its first bytes are those of an object file, the
last one does not occur in UTF-8. -/
theorem binary_refused :
    let r := pushRequest [0x7f, 0x45, 0x4c, 0x46, 0xff]
    (∀ a ∈ r.adtsrcs, a.Paired) ∧
      (Request.append requestProto (.holding .new) (requestProto.serialize r.encode)).1 = 0 := by
  exact ⟨paired_pushRequest _, by decide +kernel⟩

end Jxtd.Datatransfer
