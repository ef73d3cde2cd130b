import Jxtd.Engug.EdcText

/-!
# The values of an EDC section

The loop over the properties of a section turns each value into a number, a flag or a string, by its
key.

* `valuesOf`: the texts that stand under a key; `irValue`: what such a text becomes.
* `Property.WellTyped`, `Property.Overflows`: the properties that are added, and those that panic.
* **`typeProperties_of_wellTyped`**, `typeProperties_eq_ok`: when the loop goes through.
* `panics_typeProperties`: when it panics.
* **`values_typed`**: the values of every key, in the order written.
-/

namespace Jxtd.Engug.Edc

open Lib

/-! ## Texts and values -/

/-- The texts under a key, in the order written. -/
def valuesOf (ps : List Property) (key : String) : List String :=
  (ps.filter (·.key = key)).map (·.value)

/-- The number that a text of digits denotes. -/
def number (value : String) : ℕ := Nat.ofDigitChars 10 value.toList 0

def Digits (value : String) : Prop := ∀ c ∈ value.toList, c.isDigit = true

/-- What a text becomes under a key. -/
def irValue (key value : String) : IRValue :=
  if key ∈ numberKeys then .integer (.double (number value).toUInt32)
  else if key ∈ flagKeys then .integer (.byte (if value = "true" then 1 else 0))
  else .seq value

/-- The properties whose text fits their key. -/
@[mk_iff] structure Property.WellTyped (p : Property) : Prop where
  number : p.key ∈ numberKeys → Digits p.value ∧ number p.value < 2 ^ 32
  flag : p.key ∈ flagKeys → p.value = "true" ∨ p.value = "false"

instance (value : String) : Decidable (Digits value) := List.decidableBAll _ value.toList

instance (p : Property) : Decidable p.WellTyped := decidable_of_iff _ (p.wellTyped_iff).symm

/-- The numbers that do not fit into 32 bits. -/
def Property.Overflows (p : Property) : Prop :=
  p.key ∈ numberKeys ∧ Digits p.value ∧ 2 ^ 32 ≤ Edc.number p.value

theorem valuesOf_cons (p : Property) (ps : List Property) (key : String) :
    valuesOf (p :: ps) key =
      if p.key = key then p.value :: valuesOf ps key else valuesOf ps key := by
  unfold valuesOf
  split_ifs with h <;> simp [h]

theorem mem_keys_iff {ps : List Property} {key : String} :
    key ∈ ps.map Property.key ↔ valuesOf ps key ≠ [] := by
  rw [valuesOf, Ne, List.map_eq_nil_iff, List.filter_eq_nil_iff, List.mem_map]
  simp

/-! ## One property -/

theorem digits_iff (value : String) : value.toList.all Char.isDigit = true ↔ Digits value :=
  List.all_eq_true

theorem numberKeys_not_flagKeys {key : String} (h : key ∈ numberKeys) : key ∉ flagKeys := by
  have hkeys : key = "outputs" ∨ key = "inputs" := by simpa [numberKeys] using h
  rcases hkeys with rfl | rfl <;> decide

theorem parseU32_of_lt (p : Property) (h : number p.value < 2 ^ 32) :
    parseU32 p.value = some (number p.value).toUInt32 := by
  refine if_pos ⟨fun hnil => p.value_ne ?_, h⟩
  rw [hnil]
  rfl

/-- A property that is well typed is added. -/
theorem addProperty_of_wellTyped {p : Property} (h : p.WellTyped) (s : Section)
    (keys : List String) :
    addProperty (s, keys) p.pair =
      .ok (s.addEntry p.key (irValue p.key p.value), keys ++ [p.key]) := by
  unfold addProperty irValue
  dsimp only [Property.pair]
  by_cases hn : p.key ∈ numberKeys
  · obtain ⟨hdigits, hlt⟩ := h.number hn
    rw [if_pos hn, if_pos ((digits_iff p.value).mpr hdigits), if_pos hn, parseU32_of_lt p hlt]
    rfl
  · rw [if_neg hn, if_neg hn]
    by_cases hf : p.key ∈ flagKeys
    · rw [if_pos hf, if_pos hf]
      by_cases ht : p.value = "true"
      · rw [if_pos ht, if_pos ht]
      · rw [if_neg ht, if_neg ht, if_pos ((h.flag hf).resolve_left ht)]
    · rw [if_neg hf, if_neg hf]

/-- A number that does not fit panics. -/
theorem panics_addProperty_of_overflows {p : Property} (h : p.Overflows) (s : Section)
    (keys : List String) : Panics (addProperty (s, keys) p.pair) := by
  obtain ⟨hn, hdigits, hle⟩ := h
  have hparse : parseU32 p.value = none := if_neg fun hlt => absurd hlt.2 (Nat.not_lt.mpr hle)
  unfold addProperty
  dsimp only [Property.pair]
  rw [if_pos hn, if_pos ((digits_iff p.value).mpr hdigits), hparse]
  exact panics_panics _

/-- Every other property is an error. -/
theorem addProperty_of_not {p : Property} (h : ¬p.WellTyped) (h' : ¬p.Overflows) (s : Section)
    (keys : List String) : addProperty (s, keys) p.pair = .error .error := by
  unfold addProperty
  dsimp only [Property.pair]
  by_cases hn : p.key ∈ numberKeys
  · rw [if_pos hn, if_neg]
    intro hdigits
    rw [digits_iff] at hdigits
    have hlt : number p.value < 2 ^ 32 := Nat.not_le.mp fun hle => h' ⟨hn, hdigits, hle⟩
    exact h ⟨fun _ => ⟨hdigits, hlt⟩, fun hf => absurd hf (numberKeys_not_flagKeys hn)⟩
  · rw [if_neg hn]
    by_cases hf : p.key ∈ flagKeys
    · have hflag (hv : p.value = "true" ∨ p.value = "false") : False :=
        h ⟨fun hn' => absurd hn' hn, fun _ => hv⟩
      rw [if_pos hf, if_neg fun ht => hflag (.inl ht), if_neg fun ht => hflag (.inr ht)]
    · exact absurd ⟨fun hn' => absurd hn' hn, fun hf' => absurd hf' hf⟩ h

theorem Property.WellTyped.not_overflows {p : Property} (h : p.WellTyped) : ¬p.Overflows :=
  fun ⟨hn, _, hle⟩ => absurd (h.number hn).2 (Nat.not_lt.mpr hle)

/-! ## The loop -/

/-- The call of `add_entry` for a property. -/
def Property.entry (p : Property) : String × IRValue := (p.key, irValue p.key p.value)

/-- The section with the values of the properties. -/
def typed (name : String) (ps : List Property) : Section :=
  (Section.new name).addEntries (ps.map Property.entry)

/-- **Properties that are well typed** are all added. -/
theorem typeProperties_of_wellTyped {ps : List Property} (h : ∀ p ∈ ps, p.WellTyped) (s : Section)
    (keys : List String) :
    typeProperties (s, keys) (ps.map Property.pair) =
      .ok (s.addEntries (ps.map Property.entry), keys ++ ps.map Property.key) := by
  induction ps generalizing s keys with
  | nil =>
    rw [List.map_nil, List.map_nil, List.map_nil, List.append_nil]
    rfl
  | cons p ps ih =>
    rw [List.forall_mem_cons] at h
    rw [List.map_cons, typeProperties, addProperty_of_wellTyped h.1, ok_bind, ih h.2, List.map_cons,
      List.append_assoc]
    rfl

theorem typeProperties_eq_ok {ps : List Property} {s : Section} {keys : List String}
    {out : Section × List String} (h : typeProperties (s, keys) (ps.map Property.pair) = .ok out) :
    ∀ p ∈ ps, p.WellTyped := by
  induction ps generalizing s keys with
  | nil => exact fun p hp => absurd hp List.not_mem_nil
  | cons p ps ih =>
    by_cases hp : p.WellTyped
    · rw [List.map_cons, typeProperties, addProperty_of_wellTyped hp, ok_bind] at h
      exact List.forall_mem_cons.mpr ⟨hp, ih h⟩
    · obtain ⟨state, hadd, -⟩ := bind_eq_ok.mp h
      by_cases ho : p.Overflows
      · exact absurd (panics_addProperty_of_overflows ho s keys) (hadd ▸ not_panics_ok state)
      · rw [addProperty_of_not hp ho] at hadd
        cases hadd

theorem panics_typeProperties {ps : List Property} {s : Section} {keys : List String} :
    Panics (typeProperties (s, keys) (ps.map Property.pair)) ↔
      FirstFails Property.WellTyped Property.Overflows ps := by
  induction ps generalizing s keys with
  | nil => exact iff_of_false (not_panics_ok _) not_false
  | cons p ps ih =>
    rw [List.map_cons, typeProperties, FirstFails]
    by_cases hp : p.WellTyped
    · rw [addProperty_of_wellTyped hp, ok_bind, ih]
      simp [hp, hp.not_overflows]
    · by_cases ho : p.Overflows
      · exact iff_of_true (panics_bind.mpr (.inl (panics_addProperty_of_overflows ho s keys)))
          (.inl ho)
      · rw [addProperty_of_not hp ho]
        exact iff_of_false not_panics_error (by simp [hp, ho])

theorem noFailure_typeProperties (ps : List Property) (s : Section) (keys : List String) :
    NoFailure (typeProperties (s, keys) (ps.map Property.pair)) := by
  induction ps generalizing s keys with
  | nil => exact noFailure_ok _
  | cons p ps ih =>
    rw [List.map_cons, typeProperties]
    by_cases hp : p.WellTyped
    · rw [addProperty_of_wellTyped hp, ok_bind]
      exact ih _ _
    · by_cases ho : p.Overflows
      · obtain ⟨msg, hmsg⟩ := panics_addProperty_of_overflows ho s keys
        rw [hmsg]
        exact noFailure_panics msg
      · rw [addProperty_of_not hp ho]
        exact noFailure_error

/-! ## The values -/

theorem name_typed (name : String) (ps : List Property) : (typed name ps).name = name :=
  Section.name_addEntries _ _

/-- **The values of every key**, in the order written. -/
theorem values_typed (name : String) (ps : List Property) (key : String) :
    (typed name ps).values key = (valuesOf ps key).map (irValue key) := by
  rw [typed, Section.values_addEntries, Section.values_new, List.nil_append]
  induction ps with
  | nil => rfl
  | cons p ps ih =>
    rw [List.map_cons, callValues_cons, ih, valuesOf_cons, Property.entry]
    by_cases h : p.key = key
    · subst h
      rw [if_pos rfl, if_pos rfl]
      rfl
    · rw [if_neg h, if_neg (Ne.symm h), List.nil_append]

end Jxtd.Engug.Edc
