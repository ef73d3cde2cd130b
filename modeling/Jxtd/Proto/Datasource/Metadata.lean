import Jxtd.Proto.Datasource.Message
import Jxtd.Proto.Framing

/-!
# The metadata of a datasource request

A request has its metadata twice: as entries of the message and as a map. Only the entries are sent,
and only the map is read.

* `Call`, `after`: the setters, and a request on which they have been called.
* `after_metadata`, **`map_of_entries`**: the two copies agree after any calls.
* **`metadata_comes_back_iff`**: exactly which metadata the receiver can read.
* `datasourceProto`: the wire format; **`metadata_lost`**: a single entry.
-/

namespace Jxtd.Datasource

open Lib Std

/-! ## The getters -/

/-- `Request::get_allmetadata`. -/
def Request.getAllmetadata (r : Request) : TreeMap Str Str := r.myMetadata

/-- `Request::get_metadata`. -/
def Request.getMetadata (r : Request) (key : Str) : Str := (r.myMetadata[key]?).getD []

/-! ## The setters -/

/-- A call of a setter. -/
inductive Call
  | setToken (token : Str)
  | setName (name : Str)
  | setAction (action : UInt32)
  | setProto (proto : UInt32)
  | setUrl (url : Str)
  | setPort (port : UInt32)
  | setMetadata (metadata : TreeMap Str Str)
  | addMetadata (key value : Str)

def Call.apply (r : Request) : Call → Request
  | setToken token => r.setToken token
  | setName name => r.setName name
  | setAction action => r.setAction action
  | setProto proto => r.setProto proto
  | setUrl url => r.setUrl url
  | setPort port => r.setPort port
  | setMetadata metadata => r.setMetadata metadata
  | addMetadata key value => r.addMetadata key value

/-- The entries that a call adds. -/
def Call.entries : Call → List (Str × Str)
  | setMetadata metadata => metadata.toList
  | addMetadata key value => [(key, value)]
  | _ => []

/-- A new request after a sequence of calls. -/
def after (calls : List Call) : Request := calls.foldl Call.apply .new

/-! ## The two copies -/

/-- The map of the entries; the last one of a key stays. -/
def store (map : TreeMap Str Str) (entries : List (Str × Str)) : TreeMap Str Str :=
  entries.foldl (fun map entry => map.insert entry.1 entry.2) map

/-- What a call adds to the entries and to the map. -/
theorem apply_metadata (r : Request) (call : Call) :
    (call.apply r).req.metadata = r.req.metadata ++ call.entries ∧
      (call.apply r).myMetadata = store r.myMetadata call.entries := by
  cases call with
  | setMetadata metadata =>
    show (metadata.toList.foldl (fun r entry => r.addMetadata entry.1 entry.2) r).req.metadata =
        r.req.metadata ++ metadata.toList ∧
      (metadata.toList.foldl (fun r entry => r.addMetadata entry.1 entry.2) r).myMetadata =
        store r.myMetadata metadata.toList
    generalize metadata.toList = entries
    induction entries generalizing r with
    | nil => simp [store]
    | cons entry entries ih =>
      have hrest := ih (r.addMetadata entry.1 entry.2)
      simpa [Request.addMetadata, store] using hrest
  | addMetadata key value => exact ⟨rfl, rfl⟩
  | _ => exact ⟨(List.append_nil _).symm, rfl⟩

theorem foldl_apply (r : Request) (calls : List Call) :
    (calls.foldl Call.apply r).req.metadata = r.req.metadata ++ calls.flatMap Call.entries ∧
      (calls.foldl Call.apply r).myMetadata = store r.myMetadata (calls.flatMap Call.entries) := by
  induction calls generalizing r with
  | nil => simp [store]
  | cons call calls ih =>
    have hcall := apply_metadata r call
    have hrest := ih (call.apply r)
    rw [hcall.1, hcall.2] at hrest
    rw [List.foldl_cons, List.flatMap_cons, hrest.1, hrest.2, List.append_assoc]
    exact ⟨rfl, by rw [store, store, store, List.foldl_append]⟩

/-- The entries are those of the calls, in their order. -/
theorem after_metadata (calls : List Call) :
    (after calls).req.metadata = calls.flatMap Call.entries :=
  (foldl_apply .new calls).1

/-- **The two copies agree**: the map is the one of the entries. -/
theorem map_of_entries (calls : List Call) :
    (after calls).getAllmetadata = store ∅ (after calls).req.metadata := by
  rw [after_metadata]
  exact (foldl_apply .new calls).2

/-- There is something to read as soon as there is an entry. -/
theorem toList_store_eq_nil_iff (entries : List (Str × Str)) :
    (store ∅ entries).toList = [] ↔ entries = [] := by
  have hkeys : keySet (store ∅ entries) = (entries.map Prod.fst).toFinset := by
    rw [store, foldl_insert_keySet, keySet_empty, Finset.empty_union]
  rw [keySet, ← TreeMap.map_fst_toList_eq_keys] at hkeys
  constructor
  · intro h
    rw [h] at hkeys
    simpa using hkeys.symm
  · rintro rfl
    rfl

/-! ## What the receiver can read -/

/-- The fields of the receiver: the entries have arrived, and the map is empty. -/
theorem append_encode {proto : Protobuf request} (broken : Str → request) {r : Request}
    (h : proto.parse (proto.serialize r.encode) = some r.encode) :
    Request.append proto broken (.holding .new) (proto.serialize r.encode) =
      (1, .holding ⟨r.encode, ∅⟩) :=
  appendInto_accepted h (beq_self_eq_true DATASOURCE)

/-- The receiver reads the same metadata. -/
structure SameMetadata (r r' : Request) : Prop where
  all : r'.getAllmetadata.toList = r.getAllmetadata.toList
  each : ∀ key, r'.getMetadata key = r.getMetadata key

/-- **Exactly which metadata comes back**: none. The request arrives, and the receiver reads what was
set exactly when no call added an entry. -/
theorem metadata_comes_back_iff (proto : Protobuf request) (broken : Str → request)
    (calls : List Call)
    (h : proto.parse (proto.serialize (after calls).encode) = some (after calls).encode) :
    (Request.append proto broken (.holding .new) (proto.serialize (after calls).encode)).1 = 1 ∧
      (SameMetadata (after calls) (Request.append proto broken (.holding .new)
          (proto.serialize (after calls).encode)).2.fields ↔
        ∀ call ∈ calls, call.entries = []) := by
  rw [append_encode broken h]
  refine ⟨rfl, ?_⟩
  have hentries : (∀ call ∈ calls, call.entries = []) ↔ (after calls).req.metadata = [] := by
    rw [after_metadata, List.flatMap_eq_nil_iff]
  rw [hentries, ← toList_store_eq_nil_iff, ← map_of_entries]
  constructor
  · intro hsame
    exact hsame.all.symm
  · intro hnil
    refine ⟨hnil.symm, fun key => ?_⟩
    have hnone : (after calls).myMetadata[key]? = none := by
      apply Option.eq_none_iff_forall_not_mem.mpr
      intro value hvalue
      have hmem := TreeMap.mem_toList_iff_getElem?_eq_some.mpr hvalue
      exact List.not_mem_nil (hnil ▸ hmem)
    rw [Request.getMetadata, Request.getMetadata, hnone]
    exact congrArg (Option.getD · []) TreeMap.getElem?_emptyc

/-! ## Requests on the wire -/

open Wire Jxtd.Proto

def typedRequest : Record → Bool
  | ⟨2, .len b⟩ => isText b
  | ⟨3, .len b⟩ => isText b
  | ⟨6, .len b⟩ => isText b
  | ⟨17, .len b⟩ => (readMessage typedPair setPair ([], []) b).isSome
  | _ => true

def setRequest (r : request) : Record → request
  | ⟨1, .varint n⟩ => { r with magic := n.toUInt32 }
  | ⟨2, .len b⟩ => { r with token := b }
  | ⟨3, .len b⟩ => { r with name := b }
  | ⟨4, .varint n⟩ => { r with action := n.toUInt32 }
  | ⟨5, .varint n⟩ => { r with proto := n.toUInt32 }
  | ⟨6, .len b⟩ => { r with url := b }
  | ⟨7, .varint n⟩ => { r with port := n.toUInt32 }
  | ⟨17, .len b⟩ =>
    { r with metadata := r.metadata ++ (readMessage typedPair setPair ([], []) b).toList }
  | _ => r

def requestRecords (r : request) : List Record :=
  number 1 r.magic.toNat ++ bytes 2 r.token ++ bytes 3 r.name ++ number 4 r.action.toNat ++
    number 5 r.proto.toNat ++ bytes 6 r.url ++ number 7 r.port.toNat ++
    r.metadata.map fun entry => ⟨17, .len ((pairRecords entry).flatMap Record.encode)⟩

/-- The message `request`. -/
def datasourceProto : Protobuf request :=
  protobuf typedRequest setRequest .clear requestRecords

/-- A request without metadata. -/
theorem metadata_comes_back_bare : SameMetadata (after [.setName (lit "d"), .setMetadata ∅])
    (Request.append datasourceProto (fun _ => .clear) (.holding .new) (datasourceProto.serialize
      (after [.setName (lit "d"), .setMetadata ∅]).encode)).2.fields := by
  refine (metadata_comes_back_iff datasourceProto (fun _ => .clear) _ (by decide +kernel)).2.mpr ?_
  exact List.forall_mem_cons.mpr ⟨rfl, List.forall_mem_singleton.mpr rfl⟩

/-- **An entry is sent and cannot be read.** -/
theorem metadata_lost :
    let r := after [.addMetadata (lit "k") (lit "v")]
    let rx := Request.append datasourceProto (fun _ => .clear) (.holding .new)
      (datasourceProto.serialize r.encode)
    rx.1 = 1 ∧ rx.2.fields.req.metadata = [(lit "k", lit "v")] ∧
      r.getMetadata (lit "k") = lit "v" ∧ rx.2.fields.getMetadata (lit "k") = [] ∧
      ¬ SameMetadata r rx.2.fields := by
  have hparse : datasourceProto.parse (datasourceProto.serialize
      (after [.addMetadata (lit "k") (lit "v")]).encode) =
        some (after [.addMetadata (lit "k") (lit "v")]).encode := by
    decide +kernel
  dsimp only
  rw [append_encode _ hparse]
  have hsent : (after [.addMetadata (lit "k") (lit "v")]).getMetadata (lit "k") = lit "v" := by
    decide +kernel
  refine ⟨rfl, rfl, hsent, by decide, fun hsame => ?_⟩
  have heach := hsame.each (lit "k")
  rw [hsent] at heach
  exact absurd heach (by decide)

end Jxtd.Datasource
