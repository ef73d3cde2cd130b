import Jxtd.Computation.Infer.Submission
import Mathlib.Data.List.TakeWhile

/-!
# The bytes of a payload

What the engine of a payload is given and what comes back of its output
(`drccp_on_server_receive_payload`, `computation/infer/infer.cc`).

* `engineWorld`: the pull brings one engine, whose `compute` is any function.
* `KeepsResult`: a serialisation that keeps results apart; `keepsResult_wireCodec`.
* `ByteExact`: the engine is given the input, and its whole output comes back.
* **`byteExact_iff`**: exactly when that is so.
-/

namespace Jxtd.Infer

open Lib Jxtd.Computation

/-- Responses with different results are written differently. -/
def SubmitCodec.KeepsResult (codec : SubmitCodec) : Prop :=
  ∀ resp resp', codec.dumpResponse resp = codec.dumpResponse resp' → resp.result = resp'.result

/-- A node at which the pull brings one engine, whose library is there. -/
def engineWorld (midName : Str × Str) (compute : Str → Str) : PayloadWorld where
  pull _ := [midName]
  runEngine _ _ input := .ok (some (compute input))

/-- The input of a request; `delivered` is what the transfer brings of a path. -/
def inputContent (delivered : Str → Str) (req : SubmitRequest) : Str :=
  if req.inputPath = [] then req.inputData else delivered req.inputPath

/-- **A payload is processed byte by byte**: the engine is given the input, and the response carries
its output. -/
structure ByteExact (codec : SubmitCodec) (delivered : Str → Str) (midName : Str × Str)
    (compute : Str → Str) (binary : Str) : Prop where
  input : readInput (codec.parseRequest binary) =
    .ok (some (inputContent delivered (codec.parseRequest binary)))
  output : ∃ resp, receivePayload codec (engineWorld midName compute) binary =
    .ok (codec.dumpResponse resp) ∧
      resp.result = compute (inputContent delivered (codec.parseRequest binary))

section Payload

variable {codec : SubmitCodec} {delivered : Str → Str} {midName : Str × Str} {compute : Str → Str}
  {binary : Str}

/-- An input at a path is taken before it is there. -/
theorem readInput_path {req : SubmitRequest} (hne : req.inputPath ≠ [])
    (h : protocolOf req.inputPath = lit "jxtd") : readInput req = .error .undefinedBehaviour := by
  rw [readInput, if_neg hne, if_pos h]

/-- The response to an input in the payload. -/
theorem receivePayload_inline (h : (codec.parseRequest binary).inputPath = []) :
    receivePayload codec (engineWorld midName compute) binary =
      .ok (codec.dumpResponse (payloadResponse (codec.parseRequest binary)
        (some (compute (codec.parseRequest binary).inputData)))) := by
  have hread : readInput (codec.parseRequest binary) =
      .ok (some (codec.parseRequest binary).inputData) := if_pos h
  rw [receivePayload, hread]
  rfl

/-- **An output comes back** as far as its first zero byte. -/
theorem byteExact_inline_iff (hcodec : codec.KeepsResult)
    (h : (codec.parseRequest binary).inputPath = []) :
    ByteExact codec delivered midName compute binary ↔
      0 ∉ compute (codec.parseRequest binary).inputData := by
  have hcontent : inputContent delivered (codec.parseRequest binary) =
      (codec.parseRequest binary).inputData := if_pos h
  have hwhole : (compute (codec.parseRequest binary).inputData).takeWhile (· ≠ 0) =
      compute (codec.parseRequest binary).inputData ↔
        0 ∉ compute (codec.parseRequest binary).inputData := by
    rw [List.takeWhile_eq_self_iff]
    simp only [decide_eq_true_eq]
    exact ⟨fun hall hzero => hall 0 hzero rfl, fun hzero x hx heq => hzero (heq ▸ hx)⟩
  rw [← hwhole]
  constructor
  · rintro ⟨-, resp, hresp, hresult⟩
    rw [receivePayload_inline h] at hresp
    have hsame := hcodec _ _ (Except.ok.inj hresp)
    rw [hresult, hcontent] at hsame
    exact hsame
  · intro hresult
    refine ⟨?_, _, receivePayload_inline h, ?_⟩
    · rw [hcontent]
      exact if_pos h
    · rw [hcontent]
      exact hresult

/-- **Exactly which payloads are processed byte by byte**: those with the input inside and without a
zero byte in the output. -/
theorem byteExact_iff (hcodec : codec.KeepsResult)
    (hinput : (codec.parseRequest binary).inputPath = [] ∨
      protocolOf (codec.parseRequest binary).inputPath = lit "jxtd") :
    ByteExact codec delivered midName compute binary ↔
      (codec.parseRequest binary).inputPath = [] ∧
        0 ∉ compute (codec.parseRequest binary).inputData := by
  by_cases hinline : (codec.parseRequest binary).inputPath = []
  · rw [byteExact_inline_iff hcodec hinline]
    exact (and_iff_right hinline).symm
  · have hpath := hinput.resolve_left hinline
    refine iff_of_false (fun hexact => ?_) fun h => hinline h.1
    have hread := hexact.input
    rw [readInput_path hinline hpath] at hread
    cases hread

end Payload

/-! ## The records -/

theorem filter_number {field n k : ℕ} (h : field ≠ k) :
    (Wire.number field n).filter (fun r => r.field = k) = [] := by
  refine List.filter_eq_nil_iff.mpr fun r hr => ?_
  rw [Wire.mem_number hr]
  simpa using h

theorem filter_bytes {field k : ℕ} {b : Str} (h : field ≠ k) :
    (Wire.bytes field b).filter (fun r => r.field = k) = [] := by
  refine List.filter_eq_nil_iff.mpr fun r hr => ?_
  rw [Wire.mem_bytes hr]
  simpa using h

theorem filter_bytes_self (field : ℕ) (b : Str) :
    (Wire.bytes field b).filter (fun r => r.field = field) = Wire.bytes field b := by
  refine List.filter_eq_self.mpr fun r hr => ?_
  rw [Wire.mem_bytes hr]
  simp

theorem bytes_injective (field : ℕ) : Function.Injective (Wire.bytes field) := by
  intro b b' h
  unfold Wire.bytes at h
  split_ifs at h with hb hb'
  · rw [hb, hb']
  · simpa using h

/-- The records of a response. -/
def responseRecords (resp : SubmitResponse) : List Wire.Record :=
  Wire.number 1 resp.taskid.toNat ++ responseTail resp

theorem fits_responseRecords (resp : SubmitResponse) : ∀ r ∈ responseRecords resp, r.Fits := by
  intro r hr
  rcases List.mem_append.mp hr with hid | htail
  · rw [Wire.mem_number hid]
    exact ⟨Nat.one_pos, fun _ h => by cases h⟩
  · exact (later_responseTail resp r htail).fits

theorem filter_responseRecords (resp : SubmitResponse) :
    (responseRecords resp).filter (fun r => r.field = 3) = Wire.bytes 3 resp.result := by
  simp only [responseRecords, responseTail, List.filter_append]
  rw [filter_number (by decide), filter_number (by decide), filter_bytes_self,
    filter_bytes (by decide), filter_number (by decide), filter_number (by decide)]
  simp

/-- **The records keep results apart.** -/
theorem keepsResult_wireCodec : wireCodec.KeepsResult := by
  intro resp resp' h
  have hread := Wire.readRecords_encode (fits_responseRecords resp)
  have hread' := Wire.readRecords_encode (fits_responseRecords resp')
  have hdump : (responseRecords resp).flatMap Wire.Record.encode =
      (responseRecords resp').flatMap Wire.Record.encode := h
  rw [hdump, hread'] at hread
  have hrecords := congrArg (List.filter fun r => r.field = 3) (Option.some.inj hread)
  rw [filter_responseRecords, filter_responseRecords] at hrecords
  exact (bytes_injective 3 hrecords).symm

/-- The payload of task `5` with the input `1, 0, 2`. -/
def inlinePayload : Str := wireCodec.dumpRequest ⟨5, [], [1, 0, 2], [], 0, 0, 0⟩

theorem parse_inlinePayload :
    wireCodec.parseRequest inlinePayload = ⟨5, [], [1, 0, 2], [], 0, 0, 0⟩ := by
  decide

/-- An engine that counts its input. -/
theorem byteExact_count : ByteExact wireCodec id (lit "m", lit "e")
    (fun input => [UInt8.ofNat input.length]) inlinePayload :=
  (byteExact_iff keepsResult_wireCodec (.inl (by rw [parse_inlinePayload]))).mpr
    (by rw [parse_inlinePayload]; decide)

/-- **An engine that returns its input**: of the output `1, 0, 2` only `1` comes back. -/
theorem output_cut : ¬ ByteExact wireCodec id (lit "m", lit "e") id inlinePayload := by
  rw [byteExact_inline_iff keepsResult_wireCodec (by rw [parse_inlinePayload]), parse_inlinePayload]
  decide

end Jxtd.Infer
