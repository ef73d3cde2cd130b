import Jxtd.Lib.Multimap

/-!
# The sections of an engine description

`Section` maps keys to the list of their values. Its fields are private: a section is made by `new`
and `addEntry` only, so no key has an empty list of values.

* `IntegerValue`, `FloatingValue`, `IRValue`: the values; a float is given by its bits and is never
  a NaN.
* `Section.new`, `Section.addEntry`, `Section.build`: a section and how it is built.
* `Section.Same`: the same section, whatever order its map is iterated in.
* **`Section.values_addEntries`**: the values of every key, in the order of the calls.
-/

namespace Jxtd.Engug

open Lib

inductive IntegerValue
  | byte (value : UInt8)
  | word (value : UInt16)
  | double (value : UInt32)
  | quad (value : UInt64)
  deriving DecidableEq

/-- The bits of a NaN: all exponent bits are set and some mantissa bit is. -/
def nan32 (bits : UInt32) : Bool := 0x7f800000 < bits &&& 0x7fffffff

def nan64 (bits : UInt64) : Bool := 0x7ff0000000000000 < bits &&& 0x7fffffffffffffff

/-- The bits of a 32-bit float that is not a NaN. -/
structure F32 where
  bits : UInt32
  not_nan : nan32 bits = false
  deriving DecidableEq

/-- The bits of a 64-bit float that is not a NaN. -/
structure F64 where
  bits : UInt64
  not_nan : nan64 bits = false
  deriving DecidableEq

inductive FloatingValue
  | single (value : F32)
  | double (value : F64)
  deriving DecidableEq

inductive IRValue
  | integer (value : IntegerValue)
  | floating (value : FloatingValue)
  | seq (value : String)
  deriving DecidableEq

/-- `IRValue::from(f32)`, which asserts that the value is not a NaN. -/
def IRValue.ofF32 (bits : UInt32) : Except String IRValue :=
  if h : nan32 bits = false then .ok (.floating (.single ⟨bits, h⟩)) else .error "value is NaN"

/-- `IRValue::from(f64)`, which asserts that the value is not a NaN. -/
def IRValue.ofF64 (bits : UInt64) : Except String IRValue :=
  if h : nan64 bits = false then .ok (.floating (.double ⟨bits, h⟩)) else .error "value is NaN"

@[simp] theorem IRValue.ofF32_bits (x : F32) :
    IRValue.ofF32 x.bits = .ok (.floating (.single x)) := by
  rw [IRValue.ofF32, dif_pos x.not_nan]

@[simp] theorem IRValue.ofF64_bits (x : F64) :
    IRValue.ofF64 x.bits = .ok (.floating (.double x)) := by
  rw [IRValue.ofF64, dif_pos x.not_nan]

/-! ## Sections -/

structure Section where
  name : String
  entries : AList fun _ : String => List IRValue
  full : Full entries

def Section.new (name : String) : Section := ⟨name, ∅, full_empty⟩

def Section.addEntry (s : Section) (key : String) (value : IRValue) : Section :=
  ⟨s.name, push s.entries key value, s.full.push key value⟩

def Section.getKeys (s : Section) : List String := s.entries.keys

def Section.getEntryBoxed (s : Section) (key : String) : Option (List IRValue) :=
  s.entries.lookup key

/-- A section built by a sequence of calls of `add_entry`. -/
def Section.build (name : String) (calls : List (String × IRValue)) : Section :=
  calls.foldl (fun s call => s.addEntry call.1 call.2) (.new name)

/-- The same section, whatever order its map is iterated in. -/
structure Section.Same (s t : Section) : Prop where
  name : s.name = t.name
  entries : s.entries.entries.Perm t.entries.entries

theorem Section.Same.symm {s t : Section} (h : s.Same t) : t.Same s := ⟨h.name.symm, h.entries.symm⟩

theorem Section.Same.trans {s t u : Section} (h : s.Same t) (h' : t.Same u) : s.Same u :=
  ⟨h.name.trans h'.name, h.entries.trans h'.entries⟩

/-- **The same section has the same values under each key.** -/
theorem Section.Same.getEntryBoxed {s t : Section} (h : s.Same t) (key : String) :
    s.getEntryBoxed key = t.getEntryBoxed key :=
  AList.perm_lookup h.entries

theorem Section.Same.getKeys {s t : Section} (h : s.Same t) : s.getKeys.Perm t.getKeys :=
  h.entries.map Sigma.fst

/-! ## The values of a key -/

/-- The values of a key, none for one that is missing. -/
def Section.values (s : Section) (key : String) : List IRValue := (s.getEntryBoxed key).getD []

theorem Section.getEntryBoxed_eq (s : Section) (key : String) :
    s.getEntryBoxed key = if s.values key = [] then none else some (s.values key) := by
  unfold Section.values
  cases h : s.getEntryBoxed key with
  | none => rfl
  | some vs => rw [Option.getD_some, if_neg (s.full key vs h)]

theorem Section.values_new (name key : String) : (Section.new name).values key = [] := rfl

theorem Section.values_addEntry (s : Section) (key k : String) (value : IRValue) :
    (s.addEntry key value).values k = s.values k ++ if k = key then [value] else [] := by
  unfold Section.values Section.getEntryBoxed Section.addEntry Lib.push
  dsimp only
  by_cases h : k = key
  · subst h
    rw [if_pos rfl]
    cases hk : s.entries.lookup k with
    | none =>
      dsimp only
      rw [AList.lookup_insert]
      rfl
    | some vs =>
      dsimp only
      rw [AList.lookup_insert]
      rfl
  · rw [if_neg h, List.append_nil]
    cases hk : s.entries.lookup key with
    | none =>
      dsimp only
      rw [AList.lookup_insert_ne h]
    | some vs =>
      dsimp only
      rw [AList.lookup_insert_ne h]

/-- A sequence of calls of `add_entry`. -/
def Section.addEntries (s : Section) (calls : List (String × IRValue)) : Section :=
  calls.foldl (fun s call => s.addEntry call.1 call.2) s

theorem Section.name_addEntries (s : Section) (calls : List (String × IRValue)) :
    (s.addEntries calls).name = s.name := by
  induction calls generalizing s with
  | nil => rfl
  | cons call calls ih => exact ih _

/-- The values of a sequence of calls under a key. -/
def callValues (calls : List (String × IRValue)) (key : String) : List IRValue :=
  (calls.filter (·.1 = key)).map (·.2)

theorem callValues_cons (call : String × IRValue) (calls : List (String × IRValue)) (key : String) :
    callValues (call :: calls) key =
      (if key = call.1 then [call.2] else []) ++ callValues calls key := by
  unfold callValues
  by_cases h : key = call.1
  · simp [h]
  · simp [h, Ne.symm h]

/-- **Every key has the values of its calls**, in their order. -/
theorem Section.values_addEntries (s : Section) (calls : List (String × IRValue)) (key : String) :
    (s.addEntries calls).values key = s.values key ++ callValues calls key := by
  induction calls generalizing s with
  | nil =>
    rw [show callValues [] key = [] from rfl, List.append_nil]
    rfl
  | cons call calls ih =>
    rw [addEntries, List.foldl_cons, ← addEntries, ih, Section.values_addEntry, callValues_cons,
      List.append_assoc]

/-- **Calls with the same keys** are told apart by their sections. -/
theorem Section.addEntries_injective {name : String} {calls calls' : List (String × IRValue)}
    (hkeys : calls'.map Prod.fst = calls.map Prod.fst)
    (h : (Section.new name).addEntries calls' = (Section.new name).addEntries calls) :
    calls' = calls := by
  have hvalues (key : String) : callValues calls' key = callValues calls key := by
    have hkey := congrArg (fun s => Section.values s key) h
    simpa only [Section.values_addEntries, Section.values_new, List.nil_append] using hkey
  clear h
  induction calls generalizing calls' with
  | nil => exact List.map_eq_nil_iff.mp hkeys
  | cons call calls ih =>
    obtain ⟨call', calls', rfl⟩ : ∃ c cs, calls' = c :: cs := by
      cases calls' with
      | nil => cases hkeys
      | cons c cs => exact ⟨c, cs, rfl⟩
    rw [List.map_cons, List.map_cons, List.cons.injEq] at hkeys
    have hfirst := hvalues call.1
    rw [callValues_cons, callValues_cons, if_pos hkeys.1.symm, if_pos rfl, List.cons_append,
      List.cons_append, List.cons.injEq] at hfirst
    have hcall : call' = call := Prod.ext hkeys.1 hfirst.1
    subst hcall
    rw [ih hkeys.2 fun key => ?_]
    have hkey := hvalues key
    rwa [callValues_cons, callValues_cons, List.append_cancel_left_eq] at hkey

/-! ## All values of a key -/

/-- Add the values of one key in their order. -/
def Section.addAll (s : Section) (key : String) (values : List IRValue) : Section :=
  values.foldl (fun s value => s.addEntry key value) s

@[simp] theorem Section.name_addAll (s : Section) (key : String) (values : List IRValue) :
    (s.addAll key values).name = s.name := by
  induction values generalizing s with
  | nil => rfl
  | cons v values ih => exact ih (s.addEntry key v)

theorem Section.entries_addAll (s : Section) (key : String) (values : List IRValue) :
    (s.addAll key values).entries = values.foldl (fun m v => push m key v) s.entries := by
  induction values generalizing s with
  | nil => rfl
  | cons v values ih => exact ih (s.addEntry key v)

end Jxtd.Engug
