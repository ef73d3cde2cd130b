import Jxtd.Engug.RoundTrip

/-!
# The extents of the strings of a file

The extents of a flattened section are those in its own strings; the writer moves them by the length
of the strings of all earlier sections.

* `EdtSection.extents`: the extents of the name, the keys and the string values; `Tiled`,
  **`ofSection_tiles`**: they follow each other over all strings of the section.
* `ExtentAt`, `Emitted`: an extent in a record, and the record of a value.
* `Lies`, **`writeEntry_emits`**: the records of an entry, when the strings lie in the blob.
* **`extents_tile`**: all sections of a file.
-/

namespace Jxtd.Engug

open Lib

/-! ## The extents of a section -/

def EdtValue.extent : EdtValue → Option (ℕ × ℕ)
  | .seq len offset => some (len, offset)
  | _ => none

/-- The extents of a key and of its string values. -/
def entryExtents (e : Sigma fun _ : EdtValue => List EdtValue) : List (ℕ × ℕ) :=
  (e.1 :: e.2).filterMap EdtValue.extent

/-- The extents of the name, the keys and the string values, as the map is iterated. -/
def EdtSection.extents (s : EdtSection) : List (ℕ × ℕ) :=
  s.name.extent.toList ++ s.entries.entries.flatMap entryExtents

theorem EdtSection.Same.extents {s t : EdtSection} (h : s.Same t) : s.extents.Perm t.extents := by
  rw [EdtSection.extents, EdtSection.extents, h.name]
  exact (h.entries.flatMap_right entryExtents).append_left _

theorem EdtSection.Same.dataset {s t : EdtSection} (h : s.Same t) : s.dataset = t.dataset := by
  rw [EdtSection.dataset, EdtSection.dataset, h.data]

theorem length_dataset (s : EdtSection) :
    s.dataset.length = total String.utf8ByteSize s.data.strings := by
  rw [EdtSection.dataset, List.length_flatMap, total]
  exact congrArg List.sum (List.map_congr_left fun x _ => length_bytes x)

/-! ## Flattening leaves no gap -/

theorem flattenValue_tiles {strings strings' : List String} {offset offset' : ℕ} {w : IRValue}
    {v : EdtValue} (h : flattenValue strings offset w = (v, strings', offset')) :
    Tiles offset v.extent.toList offset' := by
  cases w with
  | integer i =>
    cases i <;>
    · cases h
      exact rfl
  | floating x =>
    cases x <;>
    · cases h
      exact rfl
  | seq s =>
    cases h
    exact tiles_singleton _ _

theorem flattenValues_tiles {strings strings' : List String} {offset offset' : ℕ}
    {ws : List IRValue} {vs : List EdtValue}
    (h : flattenValues strings offset ws = (vs, strings', offset')) :
    Tiles offset (vs.filterMap EdtValue.extent) offset' := by
  induction ws generalizing strings offset vs with
  | nil =>
    cases h
    exact rfl
  | cons w ws ih =>
    simp only [flattenValues] at h
    cases h
    have hflat : flattenValue strings offset w = (_, _, _) := rfl
    have hv := flattenValue_tiles hflat
    have hsplit : ∀ (v : EdtValue) (vs : List EdtValue), (v :: vs).filterMap EdtValue.extent =
        v.extent.toList ++ vs.filterMap EdtValue.extent := by
      intro v vs
      cases v <;> rfl
    rw [hsplit]
    exact tiles_append.mpr ⟨_, hv, ih rfl⟩

/-- The extents so far, the last entry first, follow each other up to the offset. -/
def Flattening.Tiled (name : String) (acc : Flattening) : Prop :=
  Tiles 0 ((name.utf8ByteSize, 0) :: acc.entries.entries.reverse.flatMap entryExtents) acc.offset

theorem keeps_tiled (s : Section) : Keeps s s.name (Flattening.Tiled s.name) := by
  intro acc done key acc' h hkey hacc he
  unfold flattenKey at he
  cases hw : s.getEntryBoxed key with
  | none =>
    rw [hw] at he
    cases he
  | some ws =>
    rw [hw] at he
    dsimp only at he
    cases he
    have hflat : flattenValues (acc.strings ++ [key]) (acc.offset + key.utf8ByteSize) ws =
      (_, _, _) := rfl
    have hvs := flattenValues_tiles hflat
    rw [Flattening.Tiled, AList.entries_insert_of_notMem (h.notMem hkey), List.reverse_cons,
      List.flatMap_append, ← List.cons_append]
    refine tiles_append.mpr ⟨acc.offset, hacc, ?_⟩
    rw [List.flatMap_singleton]
    exact ⟨rfl, hvs⟩

/-- **A section is flattened without a gap or an overlap.** -/
theorem ofSection_tiles {s : Section} {e e' : EdtSection} (h : EdtSection.ofSection s = .ok e)
    (hsame : e'.Same e) : ∃ order, order.Perm e'.extents ∧ Tiles 0 order e'.dataset.length := by
  have hstart : (Flattening.start s).Tiled s.name := ⟨rfl, Nat.zero_add _⟩
  obtain ⟨acc, hacc, hstands, htiled⟩ := ofSection_keeps (keeps_tiled s) hstart
  obtain rfl := Except.ok.inj (hacc.symm.trans h)
  have hlen : e'.dataset.length = acc.offset := by
    rw [length_dataset, hsame.data, hstands.offset]
  rw [hlen]
  refine ⟨_, ?_, htiled⟩
  refine List.Perm.trans ?_ hsame.extents.symm
  exact ((List.reverse_perm _).flatMap_right entryExtents).cons _

/-! ## What is written of a section -/

/-- At position `i` of a record there is an extent, and the blob has the string there. -/
structure ExtentAt (be : Bool) (blob rec : Str) (i : ℕ) (s : String) : Prop where
  type : field rec i 1 = [2]
  fits : numVal be (field rec (i + 9) 8) + numVal be (field rec (i + 1) 8) ≤ blob.length
  string : field blob (numVal be (field rec (i + 9) 8)) (numVal be (field rec (i + 1) 8)) = bytes s

/-- The record of a value under a key: its extents are those of the key and of a string value. -/
structure Emitted (be : Bool) (blob : Str) (d : String × IRValue) (rec : Str) : Prop where
  key : ExtentAt be blob rec 0 d.1
  value : ∀ s, d.2 = .seq s → ExtentAt be blob rec 17 s

/-- A key with each of its values. -/
def valuesOf (d : Sigma fun _ : String => List IRValue) : List (String × IRValue) :=
  d.2.map fun w => (d.1, w)

/-- The bytes of an extent. -/
def extentBytes (be : Bool) (len offset : ℕ) : Str :=
  [2] ++ numBytes be 8 len ++ numBytes be 8 offset

theorem length_extentBytes (be : Bool) (len offset : ℕ) :
    (extentBytes be len offset).length = 17 := by
  simp [extentBytes]

/-- **An extent that is written is that of the string**, wherever it stands. -/
theorem extentAt_append (be : Bool) {blob a : Str} {i len offset : ℕ} {s : String}
    (hblob : blob.length < 2 ^ 64) (ha : a.length = i) (hfits : offset + len ≤ blob.length)
    (hs : field blob offset len = bytes s) (rest : Str) :
    ExtentAt be blob (a ++ (extentBytes be len offset ++ rest)) i s := by
  have hread (n : ℕ) (hn : n < 2 ^ 64) : numVal be (numBytes be 8 n) = n := by
    rw [numVal_numBytes]
    exact Nat.mod_eq_of_lt hn
  have hlen : numVal be (field (a ++ (extentBytes be len offset ++ rest)) (i + 1) 8) = len := by
    rw [extentBytes, List.append_assoc ([2] ++ _), List.append_assoc [2], ← List.append_assoc a,
      field_append (by simp [ha]) (length_numBytes be 8 len), hread len (by omega)]
  have hoffset : numVal be (field (a ++ (extentBytes be len offset ++ rest)) (i + 9) 8) =
      offset := by
    rw [extentBytes, List.append_assoc ([2] ++ _), ← List.append_assoc a,
      field_append (by simp [ha]) (length_numBytes be 8 offset), hread offset (by omega)]
  refine ⟨?_, ?_, ?_⟩
  · rw [extentBytes, List.append_assoc ([2] ++ _), List.append_assoc [2]]
    exact field_append ha rfl _
  · rw [hlen, hoffset]
    exact hfits
  · rw [hlen, hoffset]
    exact hs

/-- The strings of a section lie in the blob, from `pre` on. -/
structure Lies (blob : Str) (pre : ℕ) (strings : List String) : Prop where
  fits : pre + total String.utf8ByteSize strings ≤ blob.length
  strings : field blob pre (total String.utf8ByteSize strings) = strings.flatMap bytes

/-- A string that is found under an extent is found in the blob. -/
theorem Lies.of_searchString {blob : Str} {pre : ℕ} {strings : List String}
    (h : Lies blob pre strings) {offset len : ℕ} {s : String}
    (hs : searchString strings offset len = some s) :
    offset + pre + len ≤ blob.length ∧ field blob (offset + pre) len = bytes s := by
  have hend := end_of_findExtent hs
  have htake := take_of_findExtent length_bytes hs
  have hfits := h.fits
  rw [Nat.sub_zero, ← h.strings, field, List.drop_take, List.drop_drop, List.take_take,
    Nat.min_eq_left (by omega)] at htake
  refine ⟨by omega, ?_⟩
  rw [← htake, field, Nat.add_comm offset pre]

section Write

variable (p : Profile) (be : Bool) {blob : Str} (hblob : blob.length < 2 ^ 64) {pre : ℕ}
  {strings : List String} (hlies : Lies blob pre strings)

include hblob hlies

theorem writeSeq {offset len : ℕ} {s : String} (hs : searchString strings offset len = some s) :
    writeValue p be pre (.seq len offset) = .ok (extentBytes be len (offset + pre)) ∧
      writeKey p be pre (.seq len offset) = .ok (extentBytes be len (offset + pre)) := by
  have hfits := (hlies.of_searchString hs).1
  rw [writeValue, writeKey, p.add_of_lt (by omega)]
  exact ⟨rfl, rfl⟩

/-- **One record** of the value of a key. -/
theorem writeValue_emits {offset len : ℕ} {key : String}
    (hkey : searchString strings offset len = some key) {v : EdtValue} {w : IRValue}
    (hv : StandsFor strings v w) : ∃ value, writeValue p be pre v = .ok value ∧
      Emitted be blob (key, w) (extentBytes be len (offset + pre) ++ value) := by
  obtain ⟨hfits, hbytes⟩ := hlies.of_searchString hkey
  have hat (value : Str) :
      ExtentAt be blob (extentBytes be len (offset + pre) ++ value) 0 key :=
    extentAt_append be (a := []) hblob rfl hfits hbytes value
  cases v with
  | integer vlen i hlen =>
    refine ⟨_, rfl, hat _, ?_⟩
    rintro s rfl
    exact hv.elim
  | floating vlen x hlen =>
    refine ⟨_, rfl, hat _, ?_⟩
    rintro s rfl
    exact hv.elim
  | seq vlen voffset =>
    cases w with
    | integer j => exact hv.elim
    | floating y => exact hv.elim
    | seq t =>
      have ht : searchString strings voffset vlen = some t := hv
      obtain ⟨htfits, htbytes⟩ := hlies.of_searchString ht
      refine ⟨_, (writeSeq p be hblob hlies ht).1, hat _, ?_⟩
      rintro s ⟨⟩
      have hend :=
        extentAt_append be hblob (length_extentBytes be len (offset + pre)) htfits htbytes []
      rwa [List.append_nil] at hend

/-- **The records of an entry**: one for each value, with the extents of the key and the value. -/
theorem writeEntry_emits {e : Sigma fun _ : EdtValue => List EdtValue}
    {d : Sigma fun _ : String => List IRValue} (h : EntryOf strings e d) :
    ∃ rs, writeEntry p be pre e = .ok rs ∧ List.Forall₂ (Emitted be blob) (valuesOf d) rs := by
  obtain ⟨len, offset, he, hkey⟩ := h.key
  have hvalues : ∃ rs, e.2.mapM (fun value => do
      return extentBytes be len (offset + pre) ++ (← writeValue p be pre value)) = .ok rs ∧
        List.Forall₂ (Emitted be blob) (valuesOf d) rs := by
    have hall := h.values
    rw [valuesOf]
    generalize e.2 = vs at hall ⊢
    generalize d.2 = ws at hall ⊢
    induction hall with
    | nil => exact ⟨[], rfl, .nil⟩
    | cons hv _ ih =>
      obtain ⟨value, hvalue, hemitted⟩ := writeValue_emits p be hblob hlies hkey hv
      obtain ⟨rs, hrs, hall⟩ := ih
      refine ⟨_ :: rs, ?_, .cons hemitted hall⟩
      rw [List.mapM_cons, hvalue, ok_bind, pure_eq_ok, ok_bind, hrs]
      rfl
  obtain ⟨rs, hrs, hall⟩ := hvalues
  refine ⟨rs, ?_, hall⟩
  rw [writeEntry, he, (writeSeq p be hblob hlies hkey).2, ok_bind]
  exact hrs

end Write

/-! ## The file -/

/-- The records of a section: one for each value of each key, in some order of the keys. -/
def EmittedSection (be : Bool) (blob : Str) (s : Section) (rs : List Str) : Prop :=
  ∃ order : List (Sigma fun _ : String => List IRValue), order.Perm s.entries.entries ∧
    List.Forall₂ (Emitted be blob) (order.flatMap valuesOf) rs

theorem writeSection_emits (p : Profile) (be : Bool) {blob : Str} (hblob : blob.length < 2 ^ 64)
    {pre : ℕ} {s : Section} {e' : EdtSection} (h : FlattensTo s e')
    (hlies : Lies blob pre e'.data.strings) :
    ∃ rss, e'.entries.entries.mapM (writeEntry p be pre) = .ok rss ∧
      EmittedSection be blob s rss.flatten := by
  obtain ⟨e, he, hsame⟩ := h
  obtain ⟨e₁, he₁, -, -, hentries⟩ := ofSection_spec s
  obtain rfl := Except.ok.inj (he₁.symm.trans he)
  obtain ⟨order, horder, hperm⟩ := List.perm_comp_forall₂ hsame.entries hentries
  rw [← hsame.data] at horder
  have hwrite : ∃ rss, e'.entries.entries.mapM (writeEntry p be pre) = .ok rss ∧
      List.Forall₂ (Emitted be blob) (order.flatMap valuesOf) rss.flatten := by
    clear hperm
    generalize e'.entries.entries = es at horder ⊢
    induction horder with
    | nil => exact ⟨[], rfl, .nil⟩
    | cons hentry _ ih =>
      obtain ⟨rs, hrs, hemitted⟩ := writeEntry_emits p be hblob hlies hentry
      obtain ⟨rss, hrss, hall⟩ := ih
      refine ⟨rs :: rss, ?_, List.rel_append hemitted hall⟩
      rw [List.mapM_cons, hrs, ok_bind, hrss]
      rfl
  obtain ⟨rss, hrss, hall⟩ := hwrite
  exact ⟨rss, hrss, order, hperm.trans (List.reverse_perm _), hall⟩

/-- The strings of the next section lie behind those of the sections before. -/
theorem lies_append (before : Str) (e : EdtSection) (rest : Str) :
    Lies (before ++ (e.dataset ++ rest)) before.length e.data.strings := by
  refine ⟨?_, ?_⟩
  · simp only [List.length_append, length_dataset]
    omega
  · exact field_append rfl (length_dataset e) rest

/-- **The second pass** moves the extents to where the strings are. -/
theorem writeRecords_emits (p : Profile) (be : Bool) {ss : List Section} {es : List EdtSection}
    (h : List.Forall₂ FlattensTo ss es) (before : Str)
    (hlt : (before ++ es.flatMap EdtSection.dataset).length < 2 ^ 64) :
    ∃ records, writeRecords p be es before.length = .ok records ∧
      List.Forall₂ (EmittedSection be (before ++ es.flatMap EdtSection.dataset)) ss records := by
  induction h generalizing before with
  | nil => exact ⟨[], rfl, .nil⟩
  | @cons s e ss es hs _ ih =>
    rw [List.flatMap_cons] at hlt ⊢
    obtain ⟨rss, hrss, hemitted⟩ := writeSection_emits p be hlt hs
      (lies_append before e _)
    rw [← List.append_assoc] at hlt
    obtain ⟨records, hrecords, hall⟩ := ih (before ++ e.dataset) hlt
    rw [List.append_assoc] at hall
    rw [List.length_append] at hrecords
    refine ⟨rss.flatten :: records, ?_, .cons hemitted hall⟩
    rw [writeRecords, hrss, ok_bind, hrecords]
    rfl

/-- **The extents of a file are right**: those of every section follow each other over all its
strings, and every extent in a record is that of the key or the string value in the strings of all
sections. -/
theorem extents_tile (p : Profile) (be : Bool) {ss : List Section} {es : List EdtSection}
    (h : List.Forall₂ FlattensTo ss es) (hlt : (es.flatMap EdtSection.dataset).length < 2 ^ 64) :
    (∀ e ∈ es, ∃ order, order.Perm e.extents ∧ Tiles 0 order e.dataset.length) ∧
      ∃ records, writeSection p be es = .ok records ∧
        List.Forall₂ (EmittedSection be (es.flatMap EdtSection.dataset)) ss records := by
  constructor
  · intro e he
    obtain ⟨i, hi, rfl⟩ := List.mem_iff_getElem.mp he
    obtain ⟨e', he', hsame⟩ := h.get (h.length_eq ▸ hi) hi
    exact ofSection_tiles he' hsame
  · exact writeRecords_emits p be h [] hlt

/-- Two sections, the second with an empty key. -/
def twoSections : List Section :=
  [.build "meta" [("name", .seq "demo"), ("mid", .seq "")],
    .build "buffers" [("", .integer (.byte 1)), ("input0bind", .seq "demo")]]

/-- A map of two entries, as it is iterated. -/
def twoEntries (e f : Sigma fun _ : EdtValue => List EdtValue) :
    AList fun _ : EdtValue => List EdtValue :=
  [e, f].toAList

/-- Their flattened forms; the map of the first one is iterated the other way round. -/
def twoFlattened : List EdtSection :=
  [⟨.seq 4 0, twoEntries ⟨.seq 3 4, [.seq 0 7]⟩ ⟨.seq 4 7, [.seq 4 11]⟩,
      ⟨["meta", "mid", "", "name", "demo"]⟩⟩,
    ⟨.seq 7 0, twoEntries ⟨.seq 0 21, [.ofInteger (.byte 1)]⟩ ⟨.seq 10 7, [.seq 4 17]⟩,
      ⟨["buffers", "input0bind", "demo", ""]⟩⟩]

theorem extents_tile_two :
    (∀ e ∈ twoFlattened, ∃ order, order.Perm e.extents ∧ Tiles 0 order e.dataset.length) ∧
      ∃ records, writeSection .release true twoFlattened = .ok records ∧
        List.Forall₂ (EmittedSection true (twoFlattened.flatMap EdtSection.dataset)) twoSections
          records := by
  have hmeta : EdtSection.ofSection
      (.build "meta" [("name", .seq "demo"), ("mid", .seq "")]) = .ok ⟨.seq 4 0,
      twoEntries ⟨.seq 4 7, [.seq 4 11]⟩ ⟨.seq 3 4, [.seq 0 7]⟩,
      ⟨["meta", "mid", "", "name", "demo"]⟩⟩ := rfl
  have hflattens : List.Forall₂ FlattensTo twoSections twoFlattened :=
    .cons ⟨_, hmeta, rfl, by decide +kernel, rfl⟩
      (.cons ⟨_, rfl, rfl, .refl _, rfl⟩ .nil)
  exact extents_tile .release true hflattens (by decide +kernel)

end Jxtd.Engug
