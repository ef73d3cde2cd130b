import Jxtd.Engug.Ir
import Jxtd.Lib.Extent
import Mathlib.Data.List.Perm.Basic

/-!
# Flattened sections

An `EdtSection` holds numbers as they are, and each string as its extent in the concatenation of
`data.strings`.

* `EdtSection.ofSection`: the strings are collected in the order in which the keys are visited.
* `Section.ofEdtSection`: the strings are looked up by their extents and added entry by entry.
* `StandsFor`, `EntryOf`: what a flattened value and a flattened entry stand for.
* `Flattening.Stands`, `Keeps`: what holds at every key; **`ofSection_keeps`**: and in the end.
* **`section_round_trip`**: a section that is flattened and read back is the same section.
-/

namespace Jxtd.Engug

open Lib

def IntegerValue.width : IntegerValue → ℕ
  | .byte _ => 1
  | .word _ => 2
  | .double _ => 4
  | .quad _ => 8

def FloatingValue.width : FloatingValue → ℕ
  | .single _ => 4
  | .double _ => 8

/-- A flattened value; the `len` of a number is its width. -/
inductive EdtValue
  | integer (len : ℕ) (value : IntegerValue) (hlen : len = value.width)
  | floating (len : ℕ) (value : FloatingValue) (hlen : len = value.width)
  | seq (len offset : ℕ)
  deriving DecidableEq

/-- An integer with its width. -/
def EdtValue.ofInteger (value : IntegerValue) : EdtValue := .integer value.width value rfl

structure EdtData where
  strings : List String
  deriving DecidableEq

structure EdtSection where
  name : EdtValue
  entries : AList fun _ : EdtValue => List EdtValue
  data : EdtData
  deriving DecidableEq

/-- The same flattened section, whatever order its map is iterated in. -/
structure EdtSection.Same (s t : EdtSection) : Prop where
  name : s.name = t.name
  entries : s.entries.entries.Perm t.entries.entries
  data : s.data = t.data

/-! ## Flattening -/

/-- The strings and the entries so far, and the offset of the next string. -/
structure Flattening where
  strings : List String
  entries : AList fun _ : EdtValue => List EdtValue
  offset : ℕ

/-- One value of an entry: a string is pushed and takes the next extent. -/
def flattenValue (strings : List String) (offset : ℕ) : IRValue → EdtValue × List String × ℕ
  | .integer (.byte value) => (.integer 1 (.byte value) rfl, strings, offset)
  | .integer (.word value) => (.integer 2 (.word value) rfl, strings, offset)
  | .integer (.double value) => (.integer 4 (.double value) rfl, strings, offset)
  | .integer (.quad value) => (.integer 8 (.quad value) rfl, strings, offset)
  | .floating (.single value) => (.floating 4 (.single value) rfl, strings, offset)
  | .floating (.double value) => (.floating 8 (.double value) rfl, strings, offset)
  | .seq value =>
    (.seq value.utf8ByteSize offset, strings ++ [value], offset + value.utf8ByteSize)

/-- The values of an entry in their order. -/
def flattenValues (strings : List String) (offset : ℕ) :
    List IRValue → List EdtValue × List String × ℕ
  | [] => ([], strings, offset)
  | value :: values =>
    let (v, strings, offset) := flattenValue strings offset value
    let (vs, strings, offset) := flattenValues strings offset values
    (v :: vs, strings, offset)

/-- The body of the fold over the keys. -/
def flattenKey (value : Section) (acc : Flattening) (key : String) : Except String Flattening :=
  match value.getEntryBoxed key with
  | none => .error "key exists because of the same origin"
  | some values =>
    let (vs, strings, offset) :=
      flattenValues (acc.strings ++ [key]) (acc.offset + key.utf8ByteSize) values
    .ok ⟨strings, acc.entries.insert (.seq key.utf8ByteSize acc.offset) vs, offset⟩

/-- `EdtSection::from(Section)`. -/
def EdtSection.ofSection (value : Section) : Except String EdtSection := do
  let acc ← value.getKeys.foldlM (flattenKey value) ⟨[value.name], ∅, value.name.utf8ByteSize⟩
  return ⟨.seq value.name.utf8ByteSize 0, acc.entries, ⟨acc.strings⟩⟩

/-! ## Reading back -/

def searchString (strings : List String) (offset len : ℕ) : Option String :=
  findExtent String.utf8ByteSize offset len strings 0

/-- The body of the loop over the values of an entry. -/
def addEdtValue (strings : List String) (key : String) (s : Section) :
    EdtValue → Except String Section
  | .integer _ value _ => .ok (s.addEntry key (.integer value))
  | .floating _ (.single value) _ => (IRValue.ofF32 value.bits).map (s.addEntry key)
  | .floating _ (.double value) _ => (IRValue.ofF64 value.bits).map (s.addEntry key)
  | .seq len offset =>
    match searchString strings offset len with
    | none => .error "Edt String is wrong(len or offset)"
    | some value => .ok (s.addEntry key (.seq value))

/-- The body of the loop over the entries. -/
def addEdtEntry (strings : List String) (s : Section)
    (entry : Sigma fun _ : EdtValue => List EdtValue) : Except String Section :=
  match entry.1 with
  | .seq len offset =>
    match searchString strings offset len with
    | none => .error "Edt key exists because of the same origin"
    | some key => entry.2.foldlM (addEdtValue strings key) s
  | _ => .error "EdtSection key should be Seq type"

/-- `Section::from(EdtSection)`. -/
def Section.ofEdtSection (value : EdtSection) : Except String Section :=
  match value.name with
  | .seq len offset =>
    match searchString value.data.strings offset len with
    | none => .error "edt section name should exist"
    | some name => value.entries.entries.foldlM (addEdtEntry value.data.strings) (.new name)
  | _ => .error "edt section name should be string"

/-! ## What the flattened data stands for -/

theorem searchString_append {strings : List String} {offset len : ℕ} {s : String}
    (h : searchString strings offset len = some s) (more : List String) :
    searchString (strings ++ more) offset len = some s :=
  findExtent_append h more

theorem searchString_concat (strings : List String) (s : String) :
    searchString (strings ++ [s]) (total String.utf8ByteSize strings) s.utf8ByteSize = some s := by
  have hzero : ∀ x y : String, x.utf8ByteSize = 0 → y.utf8ByteSize = 0 → x = y := by
    intro x y hx hy
    rw [String.utf8ByteSize_eq_zero_iff] at hx hy
    rw [hx, hy]
  have h := findExtent_concat hzero strings s 0
  rwa [Nat.zero_add] at h

/-- A flattened value stands for a value. -/
def StandsFor (strings : List String) : EdtValue → IRValue → Prop
  | .integer _ i _, .integer j => i = j
  | .floating _ x _, .floating y => x = y
  | .seq len offset, .seq s => searchString strings offset len = some s
  | _, _ => False

/-- A flattened entry stands for a key and its values. -/
structure EntryOf (strings : List String) (e : Sigma fun _ : EdtValue => List EdtValue)
    (d : Sigma fun _ : String => List IRValue) : Prop where
  key : ∃ len offset, e.1 = .seq len offset ∧ searchString strings offset len = some d.1
  values : List.Forall₂ (StandsFor strings) e.2 d.2

theorem StandsFor.append {strings : List String} {v : EdtValue} {w : IRValue}
    (h : StandsFor strings v w) (more : List String) : StandsFor (strings ++ more) v w := by
  cases v <;> cases w
  case seq.seq => exact searchString_append h more
  all_goals exact h

theorem EntryOf.append {strings : List String} {e : Sigma fun _ : EdtValue => List EdtValue}
    {d : Sigma fun _ : String => List IRValue} (h : EntryOf strings e d) (more : List String) :
    EntryOf (strings ++ more) e d := by
  obtain ⟨len, offset, he, hs⟩ := h.key
  exact ⟨⟨len, offset, he, searchString_append hs more⟩, h.values.imp fun _ _ hv => hv.append more⟩

theorem addEdtValue_eq {strings : List String} {v : EdtValue} {w : IRValue}
    (h : StandsFor strings v w) (key : String) (s : Section) :
    addEdtValue strings key s v = .ok (s.addEntry key w) := by
  cases v with
  | integer len i hlen =>
    cases w with
    | integer j => rw [addEdtValue, show i = j from h]
    | floating y => exact h.elim
    | seq t => exact h.elim
  | floating len x hlen =>
    cases w with
    | integer j => exact h.elim
    | floating y =>
      obtain rfl : x = y := h
      cases x
      · rw [addEdtValue, IRValue.ofF32_bits]
        rfl
      · rw [addEdtValue, IRValue.ofF64_bits]
        rfl
    | seq t => exact h.elim
  | seq len offset =>
    cases w with
    | integer j => exact h.elim
    | floating y => exact h.elim
    | seq t =>
      have ht : searchString strings offset len = some t := h
      simp only [addEdtValue, ht]

/-- **An entry read back** adds all values of its key. -/
theorem addEdtEntry_eq {strings : List String} {e : Sigma fun _ : EdtValue => List EdtValue}
    {d : Sigma fun _ : String => List IRValue} (h : EntryOf strings e d) (s : Section) :
    addEdtEntry strings s e = .ok (s.addAll d.1 d.2) := by
  obtain ⟨len, offset, he, hs⟩ := h.key
  simp only [addEdtEntry, he, hs]
  have hv := h.values
  generalize e.2 = vs at hv
  generalize d.2 = ws at hv
  induction hv generalizing s with
  | nil => rfl
  | cons hvw _ ih =>
    rw [List.foldlM_cons, addEdtValue_eq hvw]
    exact ih _

theorem foldlM_addEdtEntry {strings : List String}
    {es : List (Sigma fun _ : EdtValue => List EdtValue)}
    {ds : List (Sigma fun _ : String => List IRValue)} (h : List.Forall₂ (EntryOf strings) es ds)
    (s : Section) :
    es.foldlM (addEdtEntry strings) s = .ok (ds.foldl (fun s d => s.addAll d.1 d.2) s) := by
  induction h generalizing s with
  | nil => rfl
  | cons hed _ ih =>
    rw [List.foldlM_cons, addEdtEntry_eq hed]
    exact ih _

/-! ## Flattening keeps the extents -/

/-- The state of the fold stands for the entries flattened so far, the last one first. -/
structure Flattening.Stands (acc : Flattening) (name : String)
    (done : List (Sigma fun _ : String => List IRValue)) : Prop where
  offset : acc.offset = total String.utf8ByteSize acc.strings
  name : searchString acc.strings 0 name.utf8ByteSize = some name
  entries : List.Forall₂ (EntryOf acc.strings) acc.entries.entries done

theorem flattenValue_spec {strings : List String} {offset : ℕ}
    (h : offset = total String.utf8ByteSize strings) (w : IRValue) :
    ∃ v more offset', flattenValue strings offset w = (v, strings ++ more, offset') ∧
      offset' = total String.utf8ByteSize (strings ++ more) ∧
      StandsFor (strings ++ more) v w := by
  cases w with
  | integer i =>
    refine ⟨.integer i.width i rfl, [], offset, ?_, by rwa [List.append_nil], rfl⟩
    rw [List.append_nil]
    cases i <;> rfl
  | floating x =>
    refine ⟨.floating x.width x rfl, [], offset, ?_, by rwa [List.append_nil], rfl⟩
    rw [List.append_nil]
    cases x <;> rfl
  | seq s =>
    refine ⟨_, [s], _, rfl, ?_, ?_⟩
    · rw [h, total_append, total_cons, total_nil, Nat.add_zero]
    · rw [h]
      exact searchString_concat strings s

theorem flattenValues_spec {strings : List String} {offset : ℕ}
    (h : offset = total String.utf8ByteSize strings) (ws : List IRValue) :
    ∃ vs more offset', flattenValues strings offset ws = (vs, strings ++ more, offset') ∧
      offset' = total String.utf8ByteSize (strings ++ more) ∧
      List.Forall₂ (StandsFor (strings ++ more)) vs ws := by
  induction ws generalizing strings offset with
  | nil => exact ⟨[], [], offset, by rw [List.append_nil]; rfl, by rwa [List.append_nil], .nil⟩
  | cons w ws ih =>
    obtain ⟨v, m₁, o₁, he₁, ho₁, hv⟩ := flattenValue_spec h w
    obtain ⟨vs, m₂, o₂, he₂, ho₂, hvs⟩ := ih ho₁
    refine ⟨v :: vs, m₁ ++ m₂, o₂, ?_, ?_, ?_⟩
    · simp only [flattenValues, he₁, he₂, List.append_assoc]
    · rw [← List.append_assoc, ho₂]
    · rw [← List.append_assoc]
      exact .cons (hv.append m₂) hvs

/-- **The extent of one more key is new to the map**: it stands for that key, and no earlier one
does. -/
theorem Flattening.Stands.notMem {acc : Flattening} {name : String}
    {done : List (Sigma fun _ : String => List IRValue)} (h : acc.Stands name done)
    {key : String} (hkey : ∀ d ∈ done, d.1 ≠ key) :
    EdtValue.seq key.utf8ByteSize acc.offset ∉ acc.entries := by
  intro hm
  rw [AList.mem_keys, AList.keys, List.keys, List.mem_map] at hm
  obtain ⟨e, hem, hek⟩ := hm
  obtain ⟨i, hi, rfl⟩ := List.mem_iff_getElem.mp hem
  have hid : i < done.length := h.entries.length_eq ▸ hi
  obtain ⟨len, offset, hseq, hs⟩ := (h.entries.get hi hid).key
  simp only [List.get_eq_getElem] at hseq hs
  rw [hek] at hseq
  cases hseq
  have hs' := searchString_append hs [key]
  rw [h.offset, searchString_concat acc.strings key, Option.some.injEq] at hs'
  exact hkey _ (List.getElem_mem hid) hs'.symm

/-- **One more key**: the earlier entries keep their meaning. -/
theorem Flattening.Stands.flattenKey {s : Section} {acc : Flattening} {name : String}
    {done : List (Sigma fun _ : String => List IRValue)} (h : acc.Stands name done)
    {key : String} {ws : List IRValue} (hw : s.getEntryBoxed key = some ws)
    (hkey : ∀ d ∈ done, d.1 ≠ key) :
    ∃ acc', flattenKey s acc key = .ok acc' ∧ acc'.Stands name (⟨key, ws⟩ :: done) := by
  have hpush : acc.offset + key.utf8ByteSize =
      total String.utf8ByteSize (acc.strings ++ [key]) := by
    rw [h.offset, total_append, total_cons, total_nil, Nat.add_zero]
  obtain ⟨vs, more, offset', he, ho, hvs⟩ := flattenValues_spec hpush ws
  have hfind : searchString (acc.strings ++ [key]) acc.offset key.utf8ByteSize = some key := by
    rw [h.offset]
    exact searchString_concat acc.strings key
  refine ⟨⟨acc.strings ++ [key] ++ more,
    acc.entries.insert (.seq key.utf8ByteSize acc.offset) vs, offset'⟩,
    by simp only [Engug.flattenKey, hw, he], ho, ?_, ?_⟩
  · rw [List.append_assoc]
    exact searchString_append h.name _
  · simp only [AList.entries_insert_of_notMem (h.notMem hkey)]
    refine .cons ⟨⟨_, _, rfl, searchString_append hfind more⟩, hvs⟩ ?_
    rw [List.append_assoc]
    exact h.entries.imp fun _ _ hed => hed.append _

/-- What one more key keeps. -/
def Keeps (s : Section) (name : String) (I : Flattening → Prop) : Prop :=
  ∀ acc done key acc', acc.Stands name done → (∀ d ∈ done, d.1 ≠ key) → I acc →
    flattenKey s acc key = .ok acc' → I acc'

/-- **The fold over the keys** does not fail, and keeps what each key keeps. -/
theorem Flattening.Stands.foldlM {s : Section} {name : String} {I : Flattening → Prop}
    (hI : Keeps s name I) {es done : List (Sigma fun _ : String => List IRValue)}
    {acc : Flattening} (h : acc.Stands name done) (hacc : I acc)
    (hes : ∀ e ∈ es, e ∈ s.entries.entries) (hnd : (done.reverse ++ es).NodupKeys) :
    ∃ acc', (es.map Sigma.fst).foldlM (Engug.flattenKey s) acc = .ok acc' ∧
      acc'.Stands name (es.reverse ++ done) ∧ I acc' := by
  induction es generalizing acc done with
  | nil => exact ⟨acc, rfl, h, hacc⟩
  | cons e es ih =>
    have hw : s.getEntryBoxed e.1 = some e.2 :=
      AList.mem_lookup_iff.mpr (hes e List.mem_cons_self)
    have hkey : ∀ d ∈ done, d.1 ≠ e.1 := by
      intro d hd
      rw [List.NodupKeys, List.keys, List.map_append, List.nodup_append] at hnd
      exact hnd.2.2 d.1 (List.mem_map_of_mem (List.mem_reverse.mpr hd)) e.1 (by simp)
    obtain ⟨acc₁, he, h₁⟩ := h.flattenKey hw hkey
    obtain ⟨acc₂, he₂, h₂, hI₂⟩ := ih h₁ (hI acc done e.1 acc₁ h hkey hacc he)
      (fun e' he' => hes e' (List.mem_cons_of_mem _ he')) (by simpa using hnd)
    refine ⟨acc₂, ?_, by simpa using h₂, hI₂⟩
    rw [List.map_cons, List.foldlM_cons, he]
    exact he₂

/-- The strings and the offset before the first key. -/
def Flattening.start (s : Section) : Flattening := ⟨[s.name], ∅, s.name.utf8ByteSize⟩

/-- **Flattening does not fail**, keeps what each key keeps, and its entries stand for those of the
section. -/
theorem ofSection_keeps {s : Section} {I : Flattening → Prop} (hI : Keeps s s.name I)
    (hstart : I (.start s)) :
    ∃ acc, EdtSection.ofSection s =
        .ok ⟨.seq s.name.utf8ByteSize 0, acc.entries, ⟨acc.strings⟩⟩ ∧
      acc.Stands s.name s.entries.entries.reverse ∧ I acc := by
  have h : (Flattening.start s).Stands s.name [] :=
    ⟨by simp [Flattening.start], searchString_concat [] s.name, .nil⟩
  obtain ⟨acc, he, hacc, hkept⟩ := h.foldlM hI hstart (fun _ he => he)
    (by simpa using s.entries.nodupKeys)
  rw [List.append_nil] at hacc
  refine ⟨acc, ?_, hacc, hkept⟩
  rw [EdtSection.ofSection, Section.getKeys, AList.keys, List.keys, ← Flattening.start, he]
  rfl

theorem ofSection_spec (s : Section) :
    ∃ e, EdtSection.ofSection s = .ok e ∧ e.name = .seq s.name.utf8ByteSize 0 ∧
      searchString e.data.strings 0 s.name.utf8ByteSize = some s.name ∧
      List.Forall₂ (EntryOf e.data.strings) e.entries.entries s.entries.entries.reverse := by
  have htrue : Keeps s s.name fun _ => True := fun _ _ _ _ _ _ _ _ => trivial
  obtain ⟨acc, he, hacc, -⟩ := ofSection_keeps htrue trivial
  exact ⟨_, he, rfl, hacc.name, hacc.entries⟩

/-! ## The round trip -/

theorem entries_foldl_addAll (ds : List (Sigma fun _ : String => List IRValue)) (s : Section) :
    (ds.foldl (fun s d => s.addAll d.1 d.2) s).entries =
      ds.foldl (fun m d => d.2.foldl (fun m v => push m d.1 v) m) s.entries := by
  induction ds generalizing s with
  | nil => rfl
  | cons d ds ih => rw [List.foldl_cons, List.foldl_cons, ih, Section.entries_addAll]

theorem name_foldl_addAll (ds : List (Sigma fun _ : String => List IRValue)) (s : Section) :
    (ds.foldl (fun s d => s.addAll d.1 d.2) s).name = s.name := by
  induction ds generalizing s with
  | nil => rfl
  | cons d ds ih => rw [List.foldl_cons, ih, Section.name_addAll]

/-- **A section comes back from its flattened form**, in whatever orders the two maps are
iterated. -/
theorem section_round_trip (name : String) (calls : List (String × IRValue)) {s : Section}
    (hs : s.Same (.build name calls)) :
    ∃ e, EdtSection.ofSection s = .ok e ∧ ∀ e', e'.Same e →
      ∃ s', Section.ofEdtSection e' = .ok s' ∧ s'.Same (.build name calls) := by
  obtain ⟨e, he, hname, hfind, hentries⟩ := ofSection_spec s
  refine ⟨e, he, fun e' hsame => ?_⟩
  obtain ⟨ds, hds, hperm⟩ := List.perm_comp_forall₂ hsame.entries hentries
  have hperm : ds.Perm s.entries.entries := hperm.trans (List.reverse_perm _)
  have hnd : ds.NodupKeys := (List.perm_nodupKeys hperm).mpr s.entries.nodupKeys
  have hne : ∀ d ∈ ds, d.2 ≠ [] := fun d hd =>
    s.full d.1 d.2 (AList.mem_lookup_iff.mpr (hperm.mem_iff.mp hd))
  rw [← hsame.data] at hfind hds
  refine ⟨ds.foldl (fun s d => s.addAll d.1 d.2) (.new s.name), ?_, ?_, ?_⟩
  · simp only [Section.ofEdtSection, hsame.name, hname, hfind]
    exact foldlM_addEdtEntry hds _
  · rw [name_foldl_addAll]
    exact hs.name
  · rw [entries_foldl_addAll]
    refine List.Perm.trans ?_ (hperm.trans hs.entries)
    exact (entries_foldl_push hnd hne).symm ▸ List.reverse_perm ds

/-- A section with an empty key, an empty string, and one string under two keys. -/
theorem section_round_trip_meta :
    ∃ e, EdtSection.ofSection (.build "meta" [("name", .seq "a"), ("", .seq ""), ("", .seq "a")]) =
        .ok e ∧ ∀ e', e'.Same e →
      ∃ s', Section.ofEdtSection e' = .ok s' ∧
        s'.Same (.build "meta" [("name", .seq "a"), ("", .seq ""), ("", .seq "a")]) :=
  section_round_trip "meta" _ ⟨rfl, .refl _⟩

end Jxtd.Engug
