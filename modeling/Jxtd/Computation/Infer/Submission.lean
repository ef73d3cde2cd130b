import Jxtd.Lib.Rust
import Jxtd.Lib.Wire
import Jxtd.Proto.Datatransfer.Message
import Jxtd.Computation.Taskdep
import Mathlib.Data.UInt

/-!
# The way of a submission

A task that is submitted becomes a payload, which some node of the cluster executes; its result goes
to the output of the task and back to the node that removes the task (`computation/infer/infer.cc`).

* `SubmitCodec`: the serialisation of the two messages, which the build generates; `wireCodec`
  writes them as records.
* `receivePayload`, `receiveResult`, `onClientReceiveResult`: the callbacks.
* `Carries`: every step carries the id of the task.
* **`identity_preserved_iff`**: exactly the ids below `2^32` survive.
-/

namespace Jxtd.Infer

open Lib Taskdep Jxtd.Computation
open Datatransfer (Adtsrc)

/-- `SubmitResponse`. -/
structure SubmitResponse where
  taskid : UInt32
  times : UInt32
  result : Str
  outputPath : Str
  directoryPolicy : UInt32
  emptyPolicy : UInt32
deriving DecidableEq

def SubmitRequest.new : SubmitRequest := ⟨0, [], [], [], 0, 0, 0⟩

def SubmitResponse.new : SubmitResponse := ⟨0, 0, [], [], 0, 0⟩

/-- `dump` and `parse` of the two messages. -/
structure SubmitCodec where
  dumpRequest : SubmitRequest → Str
  parseRequest : Str → SubmitRequest
  dumpResponse : SubmitResponse → Str
  parseResponse : Str → SubmitResponse

/-- What the pipeline relies on: the id, the first field of both messages, is read back, also when a
later string is refused; nothing is read from nothing. -/
structure SubmitCodec.KeepsId (codec : SubmitCodec) : Prop where
  request : ∀ req, (codec.parseRequest (codec.dumpRequest req)).taskid = req.taskid
  response : ∀ resp, (codec.parseResponse (codec.dumpResponse resp)).taskid = resp.taskid
  nothing : codec.parseResponse [] = .new

/-! ## The callbacks -/

/-- What the payload meets outside of the node. -/
structure PayloadWorld where
  /-- `client.create`: the ids and names of the engines that a pull with these records brings. -/
  pull : List Adtsrc → List (Str × Str)
  /-- The engine of a library and its output for an input, if there is any. -/
  runEngine : Str → Str × Str → Str → Except Fault (Option Str)

/-- `substr(0, find_first_of(":"))`. -/
def protocolOf (path : Str) : Str := path.takeWhile (· ≠ 58)

/-- The input of a payload; nothing for a protocol that is not known. For `jxtd` the code takes the
front of a vector that the task, not yet started, will fill. -/
def readInput (req : SubmitRequest) : Except Fault (Option Str) :=
  if req.inputPath = [] then .ok (some req.inputData)
  else if protocolOf req.inputPath = lit "jxtd" then .error .undefinedBehaviour
  else if protocolOf req.inputPath = lit "http" ∨ protocolOf req.inputPath = lit "https" then
    .ok (some [])
  else .ok none

/-- The record of the pull of the engine. -/
def engineRecord (req : SubmitRequest) : Adtsrc := { Adtsrc.new with taskid := req.taskid, type := 0 }

/-- The path of the library of an engine. -/
def libraryPath (taskid : UInt32) (midName : Str × Str) : Str :=
  lit "../Task_" ++ decimal taskid.toNat ++ lit "/JXTDENGINE_" ++ midName.1 ++ lit "_" ++
    midName.2 ++ lit ".so"

/-- The output of the engine, if the pull brings exactly one. -/
def engineOutput (world : PayloadWorld) (req : SubmitRequest) (input : Str) :
    Except Fault (Option Str) :=
  match world.pull [engineRecord req] with
  | [midName] => world.runEngine (libraryPath req.taskid midName) midName input
  | _ => .ok none

/-- The response to a payload; the output of the engine ends at its first zero byte. -/
def payloadResponse (req : SubmitRequest) (output : Option Str) : SubmitResponse where
  taskid := req.taskid
  times := req.period
  result := (output.getD []).takeWhile (· ≠ 0)
  outputPath := req.outputPath
  directoryPolicy := req.directoryPolicy
  emptyPolicy := req.emptyPolicy

/-- `drccp_on_server_receive_payload`. -/
def receivePayload (codec : SubmitCodec) (world : PayloadWorld) (binary : Str) : Except Fault Str :=
  let req := codec.parseRequest binary
  match readInput req with
  | .error f => .error f
  | .ok none => .ok []
  | .ok (some input) =>
    (engineOutput world req input).map fun output => codec.dumpResponse (payloadResponse req output)

/-- `drccp_on_server_receive_result`, for an output at a node: the record that is pushed there. -/
def receiveResult (codec : SubmitCodec) (result : Str) : Option Adtsrc :=
  let resp := codec.parseResponse result
  if resp.outputPath ≠ [] ∧ protocolOf resp.outputPath = lit "jxtd" then
    some { Adtsrc.new with taskid := resp.taskid, type := 1, binary := resp.result }
  else none

/-- `on_client_recieve_result`, the callback of `DrccpServerManager::submit`. -/
def onClientReceiveResult (codec : SubmitCodec) (tm : Taskmanager) (result : Str) :
    Except Fault (Taskmanager × Option Request) :=
  if result = [] then .ok (tm, none)
  else tm.removeTask (codec.parseResponse result).taskid.toUInt64 true

/-! ## The id of a task -/

/-- Every step of a submission carries the id `t`: the request, the payload, the pull of the engine,
the result, the push of the result, the removal and the `done` for the storage. -/
structure Carries (codec : SubmitCodec) (t : UInt64) (req : SubmitRequest) : Prop where
  submission : req.taskid.toUInt64 = t
  payload : (codec.parseRequest (codec.dumpRequest req)).taskid.toUInt64 = t
  engine : (engineRecord (codec.parseRequest (codec.dumpRequest req))).taskid.toUInt64 = t
  result : ∀ world result, receivePayload codec world (codec.dumpRequest req) = .ok result →
    result ≠ [] → (codec.parseResponse result).taskid.toUInt64 = t
  push : ∀ world result record, receivePayload codec world (codec.dumpRequest req) = .ok result →
    receiveResult codec result = some record → record.taskid.toUInt64 = t
  removal : ∀ world result tm tm' sent,
    receivePayload codec world (codec.dumpRequest req) = .ok result →
    onClientReceiveResult codec tm result = .ok (tm', sent) →
      (∀ t', t' ≠ t → tm'.tasks.lookup t' = tm.tasks.lookup t') ∧
      ∀ done, sent = some done → done.taskid = t

/-- **The identity of a task is preserved**, whenever it is submitted. -/
def IdentityPreserved (codec : SubmitCodec) (t : UInt64) : Prop :=
  ∀ manager name tm req, Computation.submit manager name tm t = .ok (some req) →
    Carries codec t req

theorem taskid_of_submit {manager : DrccpServerManager} {name : Str} {tm : Taskmanager} {t : UInt64}
    {req : SubmitRequest} (h : Computation.submit manager name tm t = .ok (some req)) :
    req.taskid = t.toUInt32 := by
  unfold Computation.submit Taskmanager.submit at h
  cases hlookup : tm.tasks.lookup t with
  | none =>
    rw [hlookup] at h
    cases h
  | some info =>
    rw [hlookup] at h
    cases hrow : tm.edges[info.depPos]? with
    | none =>
      simp only [hrow] at h
      cases h
    | some row =>
      simp only [hrow] at h
      by_cases hany : row.any id = true
      · rw [if_pos hany] at h
        cases h
      · rw [if_neg hany] at h
        unfold DrccpServerManager.submit at h
        by_cases hname : name ∈ manager.servers
        · simp only [if_pos hname] at h
          cases h
          rfl
        · simp only [if_neg hname] at h
          cases h

/-- A task that is deployed alone is submitted. -/
theorem submit_deployed (t : UInt64) : ∃ tm req,
    tm = (Taskmanager.new.deployTask t [] [] [] 0 0 0 0 0 []).2 ∧
    Computation.submit ⟨[[]]⟩ [] tm t = .ok (some req) := by
  refine ⟨_, ⟨t.toUInt32, [], [], [], 0, 0, 0⟩, rfl, ?_⟩
  have hnew : t ∉ Taskmanager.new.tasks := AList.notMem_empty t
  unfold Computation.submit Taskmanager.submit
  rw [Taskmanager.deployTask, if_neg hnew]
  simp only [AList.lookup_insert]
  rfl

/-- What the payload callback returns: nothing, or a response with the id of the payload. -/
theorem receivePayload_ok {codec : SubmitCodec} {world : PayloadWorld} {binary result : Str}
    (h : receivePayload codec world binary = .ok result) :
    result = [] ∨ ∃ resp, result = codec.dumpResponse resp ∧
      resp.taskid = (codec.parseRequest binary).taskid := by
  unfold receivePayload at h
  dsimp only at h
  split at h
  · cases h
  · cases h
    exact .inl rfl
  · obtain ⟨output, -, rfl⟩ := map_eq_ok.mp h
    exact .inr ⟨_, rfl, rfl⟩

theorem taskid_doneRequest {tm : Taskmanager} {t : UInt64} {done : Request}
    (h : tm.doneRequest t = some done) : done.taskid = t := by
  unfold Taskmanager.doneRequest at h
  split at h
  · split_ifs at h
    cases h
    rfl
  · cases h

/-- **A removal** leaves the tasks with other ids, and reports its own. -/
theorem removeTask_ok {tm tm' : Taskmanager} {t : UInt64} {send : Bool} {sent : Option Request}
    (h : tm.removeTask t send = .ok (tm', sent)) :
    (∀ t', t' ≠ t → tm'.tasks.lookup t' = tm.tasks.lookup t') ∧
      ∀ done, sent = some done → done.taskid = t := by
  unfold Taskmanager.removeTask at h
  cases hlookup : tm.tasks.lookup t with
  | none =>
    rw [hlookup] at h
    cases h
    exact ⟨fun _ _ => rfl, fun _ h => by cases h⟩
  | some info =>
    rw [hlookup] at h
    cases herase : tm.eraseTask t info with
    | error f =>
      simp only [herase] at h
      cases h
    | ok tm₁ =>
      simp only [herase] at h
      cases h
      obtain ⟨-, rfl⟩ := of_eraseTask herase
      refine ⟨fun t' ht' => AList.lookup_erase_ne ht', fun done hdone => ?_⟩
      split_ifs at hdone
      exact taskid_doneRequest hdone

variable {codec : SubmitCodec} {t : UInt64} {req : SubmitRequest}

/-- **Every step keeps the id of the request.** -/
theorem carries_of_taskid (h : codec.KeepsId) (ht : req.taskid.toUInt64 = t) :
    Carries codec t req := by
  have hpayload : (codec.parseRequest (codec.dumpRequest req)).taskid = req.taskid := h.request req
  -- the id of a result that is not empty
  have hresult : ∀ world result, receivePayload codec world (codec.dumpRequest req) = .ok result →
      result ≠ [] → (codec.parseResponse result).taskid.toUInt64 = t := by
    intro world result hresult hne
    obtain rfl | ⟨resp, rfl, hresp⟩ := receivePayload_ok hresult
    · exact absurd rfl hne
    · rw [h.response, hresp, hpayload]
      exact ht
  have hcarried : (codec.parseRequest (codec.dumpRequest req)).taskid.toUInt64 = t :=
    hpayload ▸ ht
  refine ⟨ht, hcarried, hcarried, hresult, ?_, ?_⟩
  · intro world result record hrun hpush
    by_cases hne : result = []
    · subst hne
      unfold receiveResult at hpush
      rw [h.nothing] at hpush
      cases hpush
    · unfold receiveResult at hpush
      dsimp only at hpush
      split_ifs at hpush
      cases hpush
      exact hresult world result hrun hne
  · intro world result tm tm' sent hrun hremoval
    unfold onClientReceiveResult at hremoval
    by_cases hne : result = []
    · rw [if_pos hne] at hremoval
      cases hremoval
      exact ⟨fun _ _ => rfl, fun _ h => by cases h⟩
    · rw [if_neg hne, hresult world result hrun hne] at hremoval
      exact removeTask_ok hremoval

theorem toUInt64_toUInt32_eq_iff (t : UInt64) : t.toUInt32.toUInt64 = t ↔ t.toNat < 2 ^ 32 := by
  rw [← UInt64.toNat_inj, UInt32.toNat_toUInt64, UInt64.toNat_toUInt32]
  exact Nat.mod_eq_iff_lt (by decide)

/-- **Exactly which ids are preserved**: those below `2^32`. -/
theorem identity_preserved_iff (h : codec.KeepsId) (t : UInt64) :
    IdentityPreserved codec t ↔ t.toNat < 2 ^ 32 := by
  rw [← toUInt64_toUInt32_eq_iff]
  constructor
  · intro hpreserved
    obtain ⟨tm, req, -, hsubmit⟩ := submit_deployed t
    have hcarries := hpreserved _ _ _ _ hsubmit
    rw [← taskid_of_submit hsubmit]
    exact hcarries.submission
  · intro ht manager name tm req hsubmit
    refine carries_of_taskid h ?_
    rw [taskid_of_submit hsubmit]
    exact ht

/-! ## The two messages as records -/

/-- A string is refused unless it is UTF-8. -/
def text (b : Str) : Option Str := if (fromUtf8 b).isSome then some b else none

/-- The fields of `RequestData` after the id. -/
def requestTail (req : SubmitRequest) : List Wire.Record :=
  Wire.bytes 2 req.inputPath ++ Wire.bytes 3 req.inputData ++ Wire.bytes 4 req.outputPath ++
    Wire.number 5 req.directoryPolicy.toNat ++ Wire.number 6 req.emptyPolicy.toNat ++
    Wire.number 7 req.period.toNat

/-- The fields of `ResponseData` after the id. -/
def responseTail (resp : SubmitResponse) : List Wire.Record :=
  Wire.number 2 resp.times.toNat ++ Wire.bytes 3 resp.result ++ Wire.bytes 4 resp.outputPath ++
    Wire.number 5 resp.directoryPolicy.toNat ++ Wire.number 6 resp.emptyPolicy.toNat

/-- A field of `RequestData`. -/
def setRequest (req : SubmitRequest) : Wire.Record → Option SubmitRequest
  | ⟨1, .varint n⟩ => some { req with taskid := UInt32.ofNat n }
  | ⟨2, .len b⟩ => (text b).map fun inputPath => { req with inputPath }
  | ⟨3, .len b⟩ => (text b).map fun inputData => { req with inputData }
  | ⟨4, .len b⟩ => (text b).map fun outputPath => { req with outputPath }
  | ⟨5, .varint n⟩ => some { req with directoryPolicy := UInt32.ofNat n }
  | ⟨6, .varint n⟩ => some { req with emptyPolicy := UInt32.ofNat n }
  | ⟨7, .varint n⟩ => some { req with period := UInt32.ofNat n }
  | _ => some req

/-- A field of `ResponseData`. -/
def setResponse (resp : SubmitResponse) : Wire.Record → Option SubmitResponse
  | ⟨1, .varint n⟩ => some { resp with taskid := UInt32.ofNat n }
  | ⟨2, .varint n⟩ => some { resp with times := UInt32.ofNat n }
  | ⟨3, .len b⟩ => (text b).map fun result => { resp with result }
  | ⟨4, .len b⟩ => (text b).map fun outputPath => { resp with outputPath }
  | ⟨5, .varint n⟩ => some { resp with directoryPolicy := UInt32.ofNat n }
  | ⟨6, .varint n⟩ => some { resp with emptyPolicy := UInt32.ofNat n }
  | _ => some resp

/-- The messages as records. -/
def wireCodec : SubmitCodec where
  dumpRequest req :=
    (Wire.number 1 req.taskid.toNat ++ requestTail req).flatMap Wire.Record.encode
  parseRequest bs := Wire.store setRequest .new ((Wire.readRecords bs).getD [])
  dumpResponse resp :=
    (Wire.number 1 resp.taskid.toNat ++ responseTail resp).flatMap Wire.Record.encode
  parseResponse bs := Wire.store setResponse .new ((Wire.readRecords bs).getD [])

/-- A record of a later field. -/
structure Later (r : Wire.Record) : Prop where
  fits : r.Fits
  field : r.field ≠ 1

theorem later_number {field n : ℕ} (h : 1 < field) : ∀ r ∈ Wire.number field n, Later r := by
  intro r hr
  rw [Wire.mem_number hr]
  exact ⟨⟨Nat.zero_lt_of_lt h, fun _ h => by cases h⟩, h.ne'⟩

theorem later_bytes {field : ℕ} {b : Str} (h : 1 < field) : ∀ r ∈ Wire.bytes field b, Later r := by
  intro r hr
  rw [Wire.mem_bytes hr]
  exact ⟨⟨Nat.zero_lt_of_lt h, fun _ h => by cases h⟩, h.ne'⟩

theorem later_requestTail (req : SubmitRequest) : ∀ r ∈ requestTail req, Later r := by
  simp only [requestTail, List.forall_mem_append]
  exact ⟨⟨⟨⟨⟨later_bytes (by decide), later_bytes (by decide)⟩, later_bytes (by decide)⟩,
    later_number (by decide)⟩, later_number (by decide)⟩, later_number (by decide)⟩

theorem later_responseTail (resp : SubmitResponse) : ∀ r ∈ responseTail resp, Later r := by
  simp only [responseTail, List.forall_mem_append]
  exact ⟨⟨⟨⟨later_number (by decide), later_bytes (by decide)⟩, later_bytes (by decide)⟩,
    later_number (by decide)⟩, later_number (by decide)⟩

theorem setRequest_later {req req' : SubmitRequest} {r : Wire.Record} (hr : Later r)
    (h : setRequest req r = some req') : req'.taskid = req.taskid := by
  unfold setRequest at h
  split at h
  · exact absurd rfl hr.field
  all_goals
    first
    | cases h
      rfl
    | obtain ⟨_, -, rfl⟩ := Option.map_eq_some_iff.mp h
      rfl

theorem setResponse_later {resp resp' : SubmitResponse} {r : Wire.Record} (hr : Later r)
    (h : setResponse resp r = some resp') : resp'.taskid = resp.taskid := by
  unfold setResponse at h
  split at h
  · exact absurd rfl hr.field
  all_goals
    first
    | cases h
      rfl
    | obtain ⟨_, -, rfl⟩ := Option.map_eq_some_iff.mp h
      rfl

/-- **The first field is read back**, if the later ones do not touch it. -/
theorem id_store {M : Type} {set : M → Wire.Record → Option M} (id : M → UInt32) {new : M}
    (hnew : id new = 0)
    (hfirst : ∀ n, ∃ m, set new ⟨1, .varint n⟩ = some m ∧ id m = UInt32.ofNat n)
    (hlater : ∀ m m' r, Later r → set m r = some m' → id m' = id m) {tail : List Wire.Record}
    (htail : ∀ r ∈ tail, Later r) (t : UInt32) :
    id (Wire.store set new ((Wire.readRecords
      ((Wire.number 1 t.toNat ++ tail).flatMap Wire.Record.encode)).getD [])) = t := by
  have hfits : ∀ r ∈ Wire.number 1 t.toNat ++ tail, r.Fits := by
    intro r hr
    rcases List.mem_append.mp hr with hr | hr
    · rw [Wire.mem_number hr]
      exact ⟨Nat.one_pos, fun _ h => by cases h⟩
    · exact (htail r hr).fits
  have hstore (m : M) : id (Wire.store set m tail) = id m :=
    Wire.store_invariant (I := fun m' => id m' = id m)
      (fun m₁ m₂ r hr h₁ hset => (hlater m₁ m₂ r (htail r hr) hset).trans h₁) rfl
  rw [Wire.readRecords_encode hfits, Option.getD_some]
  by_cases ht : t.toNat = 0
  · rw [Wire.number, if_pos ht, List.nil_append, hstore, hnew]
    exact (UInt32.toNat_inj.mp ht).symm
  · obtain ⟨m, hm, hid⟩ := hfirst t.toNat
    rw [Wire.number, if_neg ht, List.singleton_append, Wire.store, hm]
    simp only
    rw [hstore, hid, UInt32.ofNat_toNat]

/-- **The records keep the id.** -/
theorem keepsId_wireCodec : wireCodec.KeepsId where
  request := fun req => id_store SubmitRequest.taskid rfl (fun _ => ⟨_, rfl, rfl⟩)
    (fun _ _ _ => setRequest_later) (later_requestTail req) req.taskid
  response := fun resp => id_store SubmitResponse.taskid rfl (fun _ => ⟨_, rfl, rfl⟩)
    (fun _ _ _ => setResponse_later) (later_responseTail resp) resp.taskid
  nothing := rfl

/-- The id `5`. -/
theorem identity_preserved_five : IdentityPreserved wireCodec 5 :=
  (identity_preserved_iff keepsId_wireCodec 5).mpr (by decide)

/-- Nothing is pulled, so that no engine runs. -/
def idleWorld : PayloadWorld := ⟨fun _ => [], fun _ _ _ => .ok none⟩

/-- **Another task is removed.** With the tasks `5` and `2 ^ 32 + 5` deployed, the second is submitted
as `5`; when its result comes back, task `5` goes and `2 ^ 32 + 5` stays. -/
theorem other_task_removed : ∃ tm req result tm',
    tm = ((Taskmanager.new.deployTask 5 [] [] [] 0 0 0 0 0 []).2.deployTask (2 ^ 32 + 5)
      [] [] [] 0 0 0 0 0 []).2 ∧
    Computation.submit ⟨[[]]⟩ [] tm (2 ^ 32 + 5) = .ok (some req) ∧ req.taskid = 5 ∧
    receivePayload wireCodec idleWorld (wireCodec.dumpRequest req) = .ok result ∧
    onClientReceiveResult wireCodec tm result = .ok (tm', none) ∧
    5 ∉ tm'.tasks ∧ 2 ^ 32 + 5 ∈ tm'.tasks ∧ ¬ IdentityPreserved wireCodec (2 ^ 32 + 5) := by
  have hsubmit : Computation.submit ⟨[[]]⟩ []
      ((Taskmanager.new.deployTask 5 [] [] [] 0 0 0 0 0 []).2.deployTask (2 ^ 32 + 5)
        [] [] [] 0 0 0 0 0 []).2 (2 ^ 32 + 5) = .ok (some ⟨5, [], [], [], 0, 0, 0⟩) := rfl
  have hremoved : onClientReceiveResult wireCodec
      ((Taskmanager.new.deployTask 5 [] [] [] 0 0 0 0 0 []).2.deployTask (2 ^ 32 + 5)
        [] [] [] 0 0 0 0 0 []).2 [8, 5] = .ok _ := rfl
  refine ⟨_, _, [8, 5], _, rfl, hsubmit, rfl, rfl, hremoved, by decide, by decide, fun h => ?_⟩
  have hid := (h _ _ _ _ hsubmit).submission
  cases hid

end Jxtd.Infer
