import Jxtd.Engug.Writer

/-!
# Does the section table describe the file?

The table is computed before the records are emitted, by adding up in one byte what every record of
a section is expected to take.

* `predictedSize`, `emittedSize`: what the table counts for a value, and what is emitted for it.
  They differ for 8-bit integers and for strings.
* `scanSection_eq`, `writeEntries_eq`, `writeRecords_eq`: what the two passes compute.
* `Describes`: every field of the table agrees with what is emitted.
* **`describes_iff`**: exactly the files that the table describes.
* `flagSection_not_described`: one 8-bit integer.
-/

namespace Jxtd.Engug

open Lib

/-! ## The sizes of a record -/

/-- What the table counts for the record of a value. -/
def predictedSize : EdtValue → ℕ
  | .integer len _ _ => 17 + 1 + (1 + len)
  | .floating len _ _ => 17 + 1 + (1 + len)
  | .seq _ _ => 17 + 1 + 17

/-- What is emitted for the record of a value. -/
def emittedSize : EdtValue → ℕ
  | .integer _ (.byte _) _ => 17 + (2 + 8)
  | .integer len _ _ => 17 + (2 + len)
  | .floating len _ _ => 17 + (2 + len)
  | .seq _ _ => 17 + 17

def isByte : EdtValue → Bool
  | .integer _ (.byte _) _ => true
  | _ => false

def isSeq : EdtValue → Bool
  | .seq _ _ => true
  | _ => false

def EdtSection.predicted (s : EdtSection) : ℕ := (s.values.map predictedSize).sum

def EdtSection.emitted (s : EdtSection) : ℕ := (s.values.map emittedSize).sum

theorem sizes_balance (vs : List EdtValue) :
    (vs.map predictedSize).sum + 7 * vs.countP isByte =
      (vs.map emittedSize).sum + vs.countP isSeq := by
  induction vs with
  | nil => rfl
  | cons v vs ih =>
    rw [List.map_cons, List.map_cons, List.sum_cons, List.sum_cons, List.countP_cons,
      List.countP_cons]
    cases v with
    | integer len i hlen =>
      cases i with
      | byte i =>
        have h1 : len = 1 := hlen
        simp only [predictedSize, emittedSize, isByte, isSeq, if_true, Bool.false_eq_true, if_false]
        omega
      | _ =>
        simp only [predictedSize, emittedSize, isByte, isSeq, Bool.false_eq_true, if_false]
        omega
    | floating len x hlen =>
      simp only [predictedSize, emittedSize, isByte, isSeq, Bool.false_eq_true, if_false]
      omega
    | seq len offset =>
      simp only [predictedSize, emittedSize, isByte, isSeq, if_true, Bool.false_eq_true, if_false]
      omega

theorem sizes_bound (vs : List EdtValue) :
    27 * vs.countP isByte + 34 * vs.countP isSeq ≤ (vs.map emittedSize).sum := by
  induction vs with
  | nil => exact Nat.le_refl 0
  | cons v vs ih =>
    rw [List.map_cons, List.sum_cons, List.countP_cons, List.countP_cons]
    cases v with
    | integer len i hlen =>
      cases i <;>
        simp only [emittedSize, isByte, isSeq, if_true, Bool.false_eq_true, if_false] <;> omega
    | floating len x hlen =>
      simp only [isByte, isSeq, Bool.false_eq_true, if_false]
      omega
    | seq len offset =>
      simp only [emittedSize, isByte, isSeq, if_true, Bool.false_eq_true, if_false]
      omega

theorem predicted_le (vs : List EdtValue) :
    (vs.map predictedSize).sum ≤ 2 * (vs.map emittedSize).sum := by
  have h1 := sizes_balance vs
  have h2 := sizes_bound vs
  omega

/-- **The two sizes agree** modulo 256 only when they agree value by value. -/
theorem wide_of_sizes {vs : List EdtValue} (hlt : (vs.map emittedSize).sum < 256)
    (h : (vs.map emittedSize).sum = (vs.map predictedSize).sum % 256) :
    ∀ v ∈ vs, isByte v = false ∧ isSeq v = false := by
  have h1 := sizes_balance vs
  have h2 := sizes_bound vs
  have hb : vs.countP isByte = 0 := by omega
  have hs : vs.countP isSeq = 0 := by omega
  intro v hv
  exact ⟨by simpa using List.countP_eq_zero.mp hb v hv, by simpa using List.countP_eq_zero.mp hs v hv⟩

theorem predicted_eq_emitted {vs : List EdtValue}
    (h : ∀ v ∈ vs, isByte v = false ∧ isSeq v = false) :
    (vs.map predictedSize).sum = (vs.map emittedSize).sum := by
  have h1 := sizes_balance vs
  rw [List.countP_eq_zero.mpr fun v hv => by simp [(h v hv).1],
    List.countP_eq_zero.mpr fun v hv => by simp [(h v hv).2]] at h1
  omega

theorem length_le_emitted (vs : List EdtValue) : 17 * vs.length ≤ (vs.map emittedSize).sum := by
  induction vs with
  | nil => exact Nat.le_refl 0
  | cons v vs ih =>
    have hv : 17 ≤ emittedSize v := by
      cases v with
      | integer len i hlen => cases i <;> simp only [emittedSize] <;> omega
      | floating len x hlen => simp only [emittedSize]; omega
      | seq len offset => simp only [emittedSize]; omega
    rw [List.map_cons, List.sum_cons, List.length_cons]
    omega

/-! ## The first pass -/

theorem scanValue_of_lt (p : Profile) {c l : ℕ} {v : EdtValue} (hc : c + 1 < 2 ^ 32)
    (hl : l + predictedSize v < 256) :
    scanValue p (c, l) v = .ok (c + 1, l + predictedSize v) := by
  cases v <;> simp only [predictedSize] at hl ⊢ <;> unfold scanValue
  all_goals
    rw [p.add_of_lt hc, ok_bind, p.add_of_lt (by omega : l + 17 < 2 ^ 8), ok_bind,
      p.add_of_lt (by omega : l + 17 + 1 < 2 ^ 8), ok_bind]
  · rename_i len _ _
    simp only [p.add_of_lt (by omega : l + 17 + 1 + 1 < 2 ^ 8),
      p.add_of_lt (by omega : l + 17 + 1 + 1 + len < 2 ^ 8), ok_bind, pure_eq_ok]
    congr 2
    omega
  · rename_i len _ _
    simp only [p.add_of_lt (by omega : l + 17 + 1 + 1 < 2 ^ 8),
      p.add_of_lt (by omega : l + 17 + 1 + 1 + len < 2 ^ 8), ok_bind, pure_eq_ok]
    congr 2
    omega
  · simp only [p.add_of_lt (by omega : l + 17 + 1 + 17 < 2 ^ 8), ok_bind, pure_eq_ok]

theorem scanValue_eq {p : Profile} {acc acc' : ℕ × ℕ} {v : EdtValue}
    (h : scanValue p acc v = .ok acc') : acc'.2 = (acc.2 + predictedSize v) % 256 := by
  unfold scanValue at h
  obtain ⟨c, -, h⟩ := bind_eq_ok.mp h
  obtain ⟨l₁, h₁, h⟩ := bind_eq_ok.mp h
  obtain ⟨l₂, h₂, h⟩ := bind_eq_ok.mp h
  have e₁ := (Profile.of_add_eq_ok h₁).1
  have e₂ := (Profile.of_add_eq_ok h₂).1
  cases v with
  | integer len i hlen =>
    obtain ⟨l₃, h₃, h⟩ := bind_eq_ok.mp h
    obtain ⟨l₄, h₄, h⟩ := bind_eq_ok.mp h
    have e₃ := (Profile.of_add_eq_ok h₃).1
    have e₄ := (Profile.of_add_eq_ok h₄).1
    cases h
    simp only [predictedSize]
    omega
  | floating len x hlen =>
    obtain ⟨l₃, h₃, h⟩ := bind_eq_ok.mp h
    obtain ⟨l₄, h₄, h⟩ := bind_eq_ok.mp h
    have e₃ := (Profile.of_add_eq_ok h₃).1
    have e₄ := (Profile.of_add_eq_ok h₄).1
    cases h
    simp only [predictedSize]
    omega
  | seq len offset =>
    obtain ⟨l₃, h₃, h⟩ := bind_eq_ok.mp h
    have e₃ := (Profile.of_add_eq_ok h₃).1
    cases h
    simp only [predictedSize]
    omega

theorem foldlM_scanValue_of_lt (p : Profile) {vs : List EdtValue} {c l : ℕ}
    (hc : c + vs.length < 2 ^ 32) (hl : l + (vs.map predictedSize).sum < 256) :
    vs.foldlM (scanValue p) (c, l) = .ok (c + vs.length, l + (vs.map predictedSize).sum) := by
  induction vs generalizing c l with
  | nil => rfl
  | cons v vs ih =>
    rw [List.map_cons, List.sum_cons] at hl ⊢
    rw [List.length_cons] at hc ⊢
    rw [List.foldlM_cons, scanValue_of_lt p (by omega) (by omega), ok_bind, ih (by omega) (by omega)]
    congr 2 <;> omega

theorem foldlM_scanValue_eq {p : Profile} {vs : List EdtValue} {acc acc' : ℕ × ℕ}
    (hlt : acc.2 < 256) (h : vs.foldlM (scanValue p) acc = .ok acc') :
    acc'.2 = (acc.2 + (vs.map predictedSize).sum) % 256 := by
  induction vs generalizing acc with
  | nil =>
    cases h
    rw [List.map_nil, List.sum_nil, Nat.add_zero, Nat.mod_eq_of_lt hlt]
  | cons v vs ih =>
    rw [List.foldlM_cons] at h
    obtain ⟨acc₁, h₁, h⟩ := bind_eq_ok.mp h
    have e₁ := scanValue_eq h₁
    rw [ih (by omega) h, e₁, List.map_cons, List.sum_cons]
    omega

/-- **What is scanned in a section**: its size wraps at 256. -/
theorem scanSection_eq {p : Profile} {s : EdtSection} {info : SectionInfo}
    (h : scanSection p s = .ok info) :
    sectionName s = .ok info.name ∧ info.size = s.predicted % 256 ∧
      info.dataLen = s.dataset.length := by
  unfold scanSection at h
  obtain ⟨acc, hacc, h⟩ := bind_eq_ok.mp h
  obtain ⟨name, hname, h⟩ := bind_eq_ok.mp h
  cases h
  refine ⟨hname, ?_, rfl⟩
  rw [foldlM_scanValue_eq (by decide) hacc, Nat.zero_add]
  rfl

theorem scanSection_of_lt (p : Profile) {s : EdtSection} {name : Str}
    (hname : sectionName s = .ok name) (hs : s.predicted < 256) (hc : s.values.length < 2 ^ 32) :
    scanSection p s = .ok ⟨name, s.predicted, s.values.length, s.dataset.length⟩ := by
  rw [scanSection, foldlM_scanValue_of_lt p (by omega) (by rw [Nat.zero_add]; exact hs), ok_bind,
    hname, ok_bind, Nat.zero_add, Nat.zero_add]
  rfl

/-- The table laid out from what is scanned. -/
def layout (be : Bool) : List SectionInfo → ℕ → ℕ → List Str
  | [], totalOffset, dataLen => [dataEntry be totalOffset dataLen]
  | info :: infos, totalOffset, dataLen =>
    sectionEntry be info totalOffset ::
      layout be infos (totalOffset + info.size) (dataLen + info.dataLen)

/-- **The first pass** scans every section and lays out the table. -/
theorem writeEntries_eq {p : Profile} {be : Bool} {sections : List EdtSection} {t d : ℕ}
    {entries : List Str} : writeEntries p be sections t d = .ok entries ↔
      ∃ infos, List.Forall₂ (fun s i => scanSection p s = .ok i) sections infos ∧
        entries = layout be infos t d := by
  induction sections generalizing t d entries with
  | nil =>
    simp only [List.forall₂_nil_left_iff, exists_eq_left, layout, writeEntries, Except.ok.injEq,
      eq_comm]
  | cons s sections ih =>
    rw [writeEntries, bind_eq_ok]
    constructor
    · rintro ⟨info, hinfo, h⟩
      obtain ⟨rest, hrest, h⟩ := bind_eq_ok.mp h
      obtain ⟨infos, hinfos, rfl⟩ := ih.mp hrest
      cases h
      exact ⟨info :: infos, .cons hinfo hinfos, rfl⟩
    · rintro ⟨infos, hinfos, rfl⟩
      cases hinfos with
      | cons hinfo hinfos =>
        exact ⟨_, hinfo, bind_eq_ok.mpr ⟨_, ih.mpr ⟨_, hinfos, rfl⟩, rfl⟩⟩

@[simp] theorem length_layout (be : Bool) (infos : List SectionInfo) (t d : ℕ) :
    (layout be infos t d).length = infos.length + 1 := by
  induction infos generalizing t d with
  | nil => rfl
  | cons info infos ih => rw [layout, List.length_cons, ih, List.length_cons]

/-- The entry of a section, at the sum of the sizes of the earlier sections. -/
theorem getElem?_layout (be : Bool) {infos : List SectionInfo} {i : ℕ} {info : SectionInfo}
    (h : infos[i]? = some info) (t d : ℕ) :
    (layout be infos t d)[i]? =
      some (sectionEntry be info (t + ((infos.take i).map SectionInfo.size).sum)) := by
  induction infos generalizing i t d with
  | nil => simp at h
  | cons info' infos ih =>
    cases i with
    | zero =>
      obtain rfl : info' = info := by simpa using h
      rfl
    | succ i =>
      rw [List.getElem?_cons_succ] at h
      rw [layout, List.getElem?_cons_succ, ih h, List.take_succ_cons, List.map_cons, List.sum_cons,
        Nat.add_assoc]

/-- The entry of the strings. -/
theorem getElem?_layout_length (be : Bool) (infos : List SectionInfo) (t d : ℕ) :
    (layout be infos t d)[infos.length]? =
      some (dataEntry be (t + (infos.map SectionInfo.size).sum)
        (d + (infos.map SectionInfo.dataLen).sum)) := by
  induction infos generalizing t d with
  | nil => rfl
  | cons info infos ih =>
    rw [List.length_cons, layout, List.getElem?_cons_succ, ih, List.map_cons, List.sum_cons,
      List.map_cons, List.sum_cons, Nat.add_assoc, Nat.add_assoc]

/-! ## The second pass -/

theorem length_writeInteger (be : Bool) (i : IntegerValue) :
    (writeInteger be i).length = if i.width = 1 then 8 else i.width := by
  cases i
  · exact length_beBytes 8 _
  all_goals exact length_numBytes be _ _

theorem length_writeFloating (be : Bool) (x : FloatingValue) :
    (writeFloating be x).length = x.width := by
  cases x <;> exact length_numBytes be _ _

theorem length_writeValue {p : Profile} {be : Bool} {pre : ℕ} {v : EdtValue} {bs : Str}
    (h : writeValue p be pre v = .ok bs) : 17 + bs.length = emittedSize v := by
  cases v with
  | integer len i hlen =>
    cases h
    rw [List.length_append, length_writeInteger]
    cases i <;> simp_all [emittedSize, IntegerValue.width]
  | floating len x hlen =>
    cases h
    rw [List.length_append, length_writeFloating, emittedSize, hlen]
    rfl
  | seq len offset =>
    obtain ⟨o, -, h⟩ := bind_eq_ok.mp h
    cases h
    simp [emittedSize]

/-- Where the key of a record can be written. -/
def KeyOk (p : Profile) (pre : ℕ) : EdtValue → Prop
  | .seq _ offset => p = .debug → offset + pre < 2 ^ 64
  | _ => False

theorem exists_writeKey {p : Profile} {be : Bool} {pre : ℕ} {k : EdtValue} :
    (∃ bs, writeKey p be pre k = .ok bs) ↔ KeyOk p pre k := by
  cases k with
  | integer len i hlen => exact iff_of_false (fun ⟨_, h⟩ => nomatch h) id
  | floating len x hlen => exact iff_of_false (fun ⟨_, h⟩ => nomatch h) id
  | seq len offset =>
    rw [KeyOk, ← Profile.add_isOk_iff]
    constructor
    · rintro ⟨bs, h⟩
      obtain ⟨o, ho, -⟩ := bind_eq_ok.mp h
      exact ⟨o, ho⟩
    · rintro ⟨o, ho⟩
      exact ⟨_, by rw [writeKey, ho]; rfl⟩

theorem length_writeKey {p : Profile} {be : Bool} {pre : ℕ} {k : EdtValue} {bs : Str}
    (h : writeKey p be pre k = .ok bs) : bs.length = 17 := by
  cases k with
  | integer len i hlen => cases h
  | floating len x hlen => cases h
  | seq len offset =>
    obtain ⟨o, -, h⟩ := bind_eq_ok.mp h
    cases h
    simp

/-- The records of one entry: one for each value, of the emitted size. -/
theorem writeEntry_eq {p : Profile} {be : Bool} {pre : ℕ}
    {e : Sigma fun _ : EdtValue => List EdtValue} {rs : List Str}
    (h : writeEntry p be pre e = .ok rs) :
    rs.length = e.2.length ∧ rs.flatten.length = (e.2.map emittedSize).sum := by
  obtain ⟨key, hkey, hm⟩ := bind_eq_ok.mp h
  have hk := length_writeKey hkey
  rw [mapM_eq_ok] at hm
  clear h
  generalize e.2 = vs at hm ⊢
  induction hm with
  | nil => exact ⟨rfl, rfl⟩
  | cons hv _ ih =>
    obtain ⟨bs, hbs, hv⟩ := bind_eq_ok.mp hv
    have hl := length_writeValue hbs
    cases hv
    rw [List.length_cons, List.length_cons, List.flatten_cons, List.length_append,
      List.length_append, List.map_cons, List.sum_cons]
    omega

/-- **The second pass** emits one record for each value of a section. -/
theorem writeRecords_eq {p : Profile} {be : Bool} {sections : List EdtSection} {pre : ℕ}
    {records : List (List Str)} (h : writeRecords p be sections pre = .ok records) :
    List.Forall₂ (fun s rs => rs.length = s.values.length ∧ rs.flatten.length = s.emitted)
      sections records := by
  induction sections generalizing pre records with
  | nil =>
    cases h
    exact .nil
  | cons s sections ih =>
    obtain ⟨rss, hrss, h'⟩ := bind_eq_ok.mp h
    obtain ⟨rest, hrest, h''⟩ := bind_eq_ok.mp h'
    cases h''
    refine .cons ?_ (ih hrest)
    rw [mapM_eq_ok] at hrss
    rw [EdtSection.emitted, EdtSection.values]
    clear h h' ih hrest
    generalize s.entries.entries = es at hrss ⊢
    induction hrss with
    | nil => exact ⟨rfl, rfl⟩
    | cons he _ ih' =>
      have hl := writeEntry_eq he
      simp only [List.flatten_cons, List.length_append, List.flatten_append, List.flatMap_cons,
        List.map_append, List.sum_append]
      omega

/-- The keys of all sections can be written. -/
def Keyed (p : Profile) : List EdtSection → ℕ → Prop
  | [], _ => True
  | s :: sections, pre =>
    (∀ e ∈ s.entries.entries, KeyOk p pre e.1) ∧ Keyed p sections (pre + s.dataset.length)

theorem keyed_of_writeRecords {p : Profile} {be : Bool} {sections : List EdtSection} {pre : ℕ}
    {records : List (List Str)} (h : writeRecords p be sections pre = .ok records) :
    Keyed p sections pre := by
  induction sections generalizing pre records with
  | nil => trivial
  | cons s sections ih =>
    obtain ⟨rss, hrss, h⟩ := bind_eq_ok.mp h
    obtain ⟨rest, hrest, -⟩ := bind_eq_ok.mp h
    refine ⟨fun e he => ?_, ih hrest⟩
    obtain ⟨rs, hrs⟩ := exists_mapM_eq_ok.mp ⟨rss, hrss⟩ e he
    obtain ⟨key, hkey, -⟩ := bind_eq_ok.mp hrs
    exact exists_writeKey.mp ⟨key, hkey⟩

theorem exists_writeRecords {p : Profile} (be : Bool) {sections : List EdtSection} {pre : ℕ}
    (h : Keyed p sections pre) (hv : ∀ s ∈ sections, ∀ v ∈ s.values, isSeq v = false) :
    ∃ records, writeRecords p be sections pre = .ok records := by
  induction sections generalizing pre with
  | nil => exact ⟨[], rfl⟩
  | cons s sections ih =>
    obtain ⟨rest, hrest⟩ := ih h.2 fun s' hs' => hv s' (List.mem_cons_of_mem _ hs')
    obtain ⟨rss, hrss⟩ : ∃ rss, s.entries.entries.mapM (writeEntry p be pre) = .ok rss := by
      refine exists_mapM_eq_ok.mpr fun e he => ?_
      obtain ⟨key, hkey⟩ := exists_writeKey.mpr (h.1 e he)
      rw [writeEntry, hkey, ok_bind]
      refine exists_mapM_eq_ok.mpr fun v hvm => ?_
      have hseq := hv s List.mem_cons_self v (List.mem_flatMap.mpr ⟨e, he, hvm⟩)
      cases v with
      | integer len i hlen => exact ⟨_, rfl⟩
      | floating len x hlen => exact ⟨_, rfl⟩
      | seq len offset => cases hseq
    exact ⟨_, by rw [writeRecords, hrss, ok_bind, hrest]; rfl⟩

/-! ## The table and the file -/

/-- Where the records of section `i` begin, and the strings after the last section. -/
def Output.position (out : Output) (i : ℕ) : ℕ :=
  out.header.length + out.table.length + (out.records.take i).flatten.flatten.length

/-- **The table describes the file**: the header holds the size of the table, all entries take 38
bytes, and every entry holds the position, the size and the number of what it stands for. -/
structure Describes (be : Bool) (out : Output) : Prop where
  headerSize : numVal be (field out.header 15 8) = out.table.length
  numEntries : out.entries.length = out.records.length + 1
  entrySize : ∀ e ∈ out.entries, e.length = 38
  sections : ∀ i e rs, out.entries[i]? = some e → out.records[i]? = some rs →
    numVal be (field e 18 8) = out.position i ∧ numVal be (field e 26 8) = rs.flatten.length ∧
      numVal be (field e 34 4) = rs.length
  data : ∀ e, out.entries[out.records.length]? = some e →
    numVal be (field e 18 8) = out.position out.records.length ∧
      numVal be (field e 26 8) = out.blob.length

/-! ## The fields of the table -/

theorem length_padName (name : Str) : (padName name).length = max 17 name.length := by
  rw [padName, List.length_append, List.length_replicate]
  omega

theorem length_sectionEntry (be : Bool) (info : SectionInfo) (offset : ℕ) :
    (sectionEntry be info offset).length = max 17 info.name.length + 21 := by
  simp only [sectionEntry, List.length_append, length_padName, length_numBytes, List.length_singleton]

theorem length_dataEntry (be : Bool) (offset len : ℕ) : (dataEntry be offset len).length = 38 := by
  simp only [dataEntry, List.length_append, length_padName, length_numBytes, length_beBytes,
    List.length_singleton]
  rfl

section Fields

variable (be : Bool) {info : SectionInfo} (offset : ℕ)

/-- The three numbers of an entry whose name is not too long. -/
theorem sectionEntry_fields (h : info.name.length ≤ 17) :
    numVal be (field (sectionEntry be info offset) 18 8) = offset % 256 ^ 8 ∧
      numVal be (field (sectionEntry be info offset) 26 8) = info.size % 256 ^ 8 ∧
      numVal be (field (sectionEntry be info offset) 34 4) = info.count % 256 ^ 4 := by
  have hn : (padName info.name).length = 17 := by
    rw [length_padName, Nat.max_eq_left h]
  refine ⟨?_, ?_, ?_⟩
  · rw [sectionEntry, List.append_assoc (_ ++ _), List.append_assoc (_ ++ _),
      field_append (by simp [hn]) (length_numBytes be 8 offset), numVal_numBytes]
  · rw [sectionEntry, List.append_assoc (_ ++ _),
      field_append (by simp [hn]) (length_numBytes be 8 info.size), numVal_numBytes]
  · rw [sectionEntry, ← List.append_nil (numBytes be 4 info.count),
      field_append (by simp [hn]) (length_numBytes be 4 info.count), numVal_numBytes]

theorem dataEntry_fields (len : ℕ) :
    numVal be (field (dataEntry be offset len) 18 8) = offset % 256 ^ 8 ∧
      numVal be (field (dataEntry be offset len) 26 8) = len % 256 ^ 8 := by
  have hn : (padName (lit "data")).length = 17 := rfl
  constructor
  · rw [dataEntry, List.append_assoc (_ ++ _), List.append_assoc (_ ++ _),
      field_append (by simp [hn]) (length_numBytes be 8 offset), numVal_numBytes]
  · rw [dataEntry, List.append_assoc (_ ++ _),
      field_append (by simp [hn]) (length_numBytes be 8 len), numVal_numBytes]

end Fields

theorem writeHeader_size (be : Bool) (nums : ℕ) :
    numVal be (field (writeHeader be nums) 15 8) = (1 + 38 * (nums + 1)) % 256 ^ 8 := by
  rw [writeHeader, List.append_assoc (_ ++ _),
    field_append (by simp only [List.length_append, length_numBytes]; rfl)
      (length_numBytes be 8 _), numVal_numBytes]

theorem length_sectionCount (be : Bool) (nums : ℕ) :
    (sectionCount be nums).length = if be then 2 else 1 := by
  cases be <;> rfl

/-! ## When the table describes the file -/

/-- The name of a section is a slice of its own strings, of at most 17 bytes. -/
def EdtSection.ShortName (s : EdtSection) : Prop :=
  match s.name with
  | .seq len offset => len ≤ 17 ∧ offset + len ≤ s.dataset.length ∧
      isCharBoundary s.dataset offset = true ∧ isCharBoundary s.dataset (offset + len) = true
  | _ => False

theorem shortName_iff {s : EdtSection} :
    s.ShortName ↔ ∃ name, sectionName s = .ok name ∧ name.length ≤ 17 := by
  unfold EdtSection.ShortName sectionName
  cases s.name with
  | integer len i hlen => exact iff_of_false id fun ⟨_, h, _⟩ => nomatch h
  | floating len x hlen => exact iff_of_false id fun ⟨_, h, _⟩ => nomatch h
  | seq len offset =>
    constructor
    · rintro ⟨hlen, hle, hb, hb'⟩
      have hs : slice s.dataset offset (offset + len) =
          .ok ((s.dataset.take (offset + len)).drop offset) := if_pos ⟨by omega, hle⟩
      refine ⟨_, by simp only [sliceStr, hb, hb', Bool.and_self, if_true]; exact hs, ?_⟩
      have hl := (length_of_slice hs).1
      omega
    · rintro ⟨name, h, hlen⟩
      have hs := length_of_slice (slice_of_sliceStr h)
      simp only [sliceStr] at h
      split_ifs at h with hb
      rw [Bool.and_eq_true] at hb
      exact ⟨by omega, hs.2.2, hb⟩

/-- The sections whose table can describe the file: the writer does not panic on them, their names
take at most 17 bytes, all their values are numbers of 16, 32 or 64 bits, and the records of every
section take at most 255 bytes. -/
structure Describable (p : Profile) (sections : List EdtSection) : Prop where
  names : ∀ s ∈ sections, s.ShortName
  values : ∀ s ∈ sections, ∀ v ∈ s.values, isByte v = false ∧ isSeq v = false
  sizes : ∀ s ∈ sections, s.emitted < 256
  keys : Keyed p sections 0
  fits : 24 + (1 + 38 * (sections.length + 1)) + (sections.map EdtSection.emitted).sum +
    (sections.flatMap EdtSection.dataset).length < 2 ^ 63

theorem write_eq {p : Profile} {be : Bool} {sections : List EdtSection} {out : Output}
    (h : write p be sections = .ok out) :
    ∃ infos, List.Forall₂ (fun s i => scanSection p s = .ok i) sections infos ∧
      writeRecords p be sections 0 = .ok out.records ∧
      out = ⟨writeHeader be sections.length, sectionCount be sections.length,
        layout be infos (24 + (1 + 38 * (sections.length + 1))) 0, out.records,
        sections.flatMap EdtSection.dataset⟩ ∧ out.bytes.length < 2 ^ 63 := by
  obtain ⟨entries, he, h⟩ := bind_eq_ok.mp h
  obtain ⟨records, hr, h⟩ := bind_eq_ok.mp h
  obtain ⟨infos, hinfos, rfl⟩ := writeEntries_eq.mp he
  dsimp only at h
  split_ifs at h with hlt
  cases h
  exact ⟨infos, hinfos, hr, rfl, hlt⟩

theorem sum_emitted {sections : List EdtSection} {records : List (List Str)}
    (h : List.Forall₂ (fun s rs => rs.length = s.values.length ∧ rs.flatten.length = s.emitted)
      sections records) :
    records.flatten.flatten.length = (sections.map EdtSection.emitted).sum := by
  induction h with
  | nil => rfl
  | cons hs _ ih =>
    rw [List.flatten_cons, List.flatten_append, List.length_append, hs.2, ih, List.map_cons,
      List.sum_cons]

theorem Output.length_bytes (out : Output) :
    out.bytes.length = out.header.length + out.table.length + out.records.flatten.flatten.length +
      out.blob.length := by
  simp only [Output.bytes, List.length_append]

/-- What a table that describes the file says about the sections. -/
theorem describable_of_describes {p : Profile} {be : Bool} {sections : List EdtSection}
    {out : Output} (h : write p be sections = .ok out) (hd : Describes be out) :
    be = false ∧ Describable p sections := by
  obtain ⟨infos, hinfos, hrecords, hout, hlt⟩ := write_eq h
  have hrs := writeRecords_eq hrecords
  have hentries : out.entries = layout be infos (24 + (1 + 38 * (sections.length + 1))) 0 := by
    rw [hout]
  have hlen : infos.length = sections.length := hinfos.length_eq.symm
  have hheader : out.header = writeHeader be sections.length := by rw [hout]
  have htable : out.table.length = (sectionCount be sections.length).length +
      38 * (sections.length + 1) := by
    rw [Output.table, List.length_append, length_flatten_of_forall hd.entrySize, hentries,
      length_layout, hlen, hout]
  have hbytes := out.length_bytes
  have hblob : out.blob = sections.flatMap EdtSection.dataset := by rw [hout]
  rw [hheader, length_writeHeader, sum_emitted hrs, hblob] at hbytes
  -- the size in the header leaves one byte for the number of sections
  have hsize := hd.headerSize
  rw [hheader, writeHeader_size, Nat.mod_eq_of_lt (by omega), htable, length_sectionCount] at hsize
  have hbe : be = false := by
    cases be
    · rfl
    · simp only [if_true] at hsize
      omega
  -- every section has an entry, in which its own size is read
  have hsection : ∀ s ∈ sections, s.ShortName ∧ s.emitted = s.predicted % 256 := by
    intro s hs
    obtain ⟨i, hi, rfl⟩ := List.mem_iff_getElem.mp hs
    have hi' : i < infos.length := hlen ▸ hi
    have hi'' : i < out.records.length := hrs.length_eq ▸ hi
    have hscan := hinfos.get hi hi'
    have hrec := hrs.get hi hi''
    simp only [List.get_eq_getElem] at hscan hrec
    obtain ⟨hname, hinfo, -⟩ := scanSection_eq hscan
    have hentry := getElem?_layout be (List.getElem?_eq_getElem hi')
      (24 + (1 + 38 * (sections.length + 1))) 0
    rw [← hentries] at hentry
    have h38 := hd.entrySize _ (List.mem_of_getElem? hentry)
    rw [length_sectionEntry] at h38
    have hshort : infos[i].name.length ≤ 17 := by omega
    have hfield := (hd.sections i _ _ hentry (List.getElem?_eq_getElem hi'')).2.1
    rw [(sectionEntry_fields be _ hshort).2.1, hrec.2, hinfo, Nat.mod_eq_of_lt (by omega)] at hfield
    exact ⟨shortName_iff.mpr ⟨_, hname, hshort⟩, hfield.symm⟩
  refine ⟨hbe, fun s hs => (hsection s hs).1, fun s hs => ?_, fun s hs => ?_,
    keyed_of_writeRecords hrecords, ?_⟩
  · have he := (hsection s hs).2
    exact wide_of_sizes (by rw [← EdtSection.emitted, he]; omega) he
  · rw [(hsection s hs).2]
    omega
  · rw [htable, length_sectionCount, hbe] at hbytes
    simp only [Bool.false_eq_true, if_false] at hbytes
    omega

/-- What is scanned in a section that fits into the table. -/
def EdtSection.info (s : EdtSection) : SectionInfo :=
  { name := (sectionName s).toOption.getD [], size := s.predicted, count := s.values.length
    dataLen := s.dataset.length }

theorem Describable.info {p : Profile} {sections : List EdtSection} (h : Describable p sections)
    {s : EdtSection} (hs : s ∈ sections) :
    scanSection p s = .ok s.info ∧ s.info.name.length ≤ 17 ∧ s.predicted = s.emitted := by
  obtain ⟨name, hname, hlen⟩ := shortName_iff.mp (h.names s hs)
  have hsize : s.predicted = s.emitted := predicted_eq_emitted (h.values s hs)
  have hlt := h.sizes s hs
  have hcount : 17 * s.values.length ≤ s.emitted := length_le_emitted s.values
  have hinfo : s.info = ⟨name, s.predicted, s.values.length, s.dataset.length⟩ := by
    rw [EdtSection.info, hname]
    rfl
  rw [hinfo]
  exact ⟨scanSection_of_lt p hname (by omega) (by omega), hlen, hsize⟩

theorem length_of_mem_layout {be : Bool} {infos : List SectionInfo} {t d : ℕ}
    (h : ∀ info ∈ infos, info.name.length ≤ 17) : ∀ e ∈ layout be infos t d, e.length = 38 := by
  induction infos generalizing t d with
  | nil =>
    intro e he
    rw [List.mem_singleton.mp he]
    exact length_dataEntry be t d
  | cons info infos ih =>
    intro e he
    rcases List.mem_cons.mp he with rfl | he
    · rw [length_sectionEntry, Nat.max_eq_left (h info List.mem_cons_self)]
    · exact ih (fun i hi => h i (List.mem_cons_of_mem _ hi)) e he

theorem Output.position_le (out : Output) (i : ℕ) : out.position i ≤ out.bytes.length := by
  have h : (out.records.take i).flatten.flatten.length ≤ out.records.flatten.flatten.length := by
    conv => rhs; rw [← List.take_append_drop i out.records]
    rw [List.flatten_append, List.flatten_append, List.length_append]
    omega
  rw [out.length_bytes, Output.position]
  omega

/-- The offsets of the table are the positions in the file. -/
theorem Describable.offset_eq {p : Profile} {sections : List EdtSection} (h : Describable p sections)
    {records : List (List Str)}
    (hrs : List.Forall₂ (fun s rs => rs.length = s.values.length ∧ rs.flatten.length = s.emitted)
      sections records) (i : ℕ) :
    (((sections.map EdtSection.info).take i).map SectionInfo.size).sum =
      (records.take i).flatten.flatten.length := by
  rw [sum_emitted (List.forall₂_take i hrs), ← List.map_take, List.map_map]
  refine congrArg List.sum (List.map_congr_left fun s hs => ?_)
  exact (h.info (List.mem_of_mem_take hs)).2.2

/-- What is written for describable sections. -/
structure Written (sections : List EdtSection) (out : Output) : Prop where
  header : out.header = writeHeader false sections.length
  entries : out.entries =
    layout false (sections.map EdtSection.info) (24 + (1 + 38 * (sections.length + 1))) 0
  entrySize : ∀ e ∈ out.entries, e.length = 38
  records : List.Forall₂ (fun s rs => rs.length = s.values.length ∧ rs.flatten.length = s.emitted)
    sections out.records
  blob : out.blob = sections.flatMap EdtSection.dataset
  tableSize : out.table.length = 1 + 38 * (sections.length + 1)
  size : out.bytes.length < 2 ^ 63

theorem Describable.written {p : Profile} {sections : List EdtSection}
    (h : Describable p sections) : ∃ out, write p false sections = .ok out ∧ Written sections out := by
  obtain ⟨records, hrecords⟩ := exists_writeRecords false h.keys
    fun s hs v hv => (h.values s hs v hv).2
  have hrs := writeRecords_eq hrecords
  have hinfos : List.Forall₂ (fun s i => scanSection p s = .ok i) sections
      (sections.map EdtSection.info) := by
    rw [List.forall₂_map_right_iff, List.forall₂_same]
    exact fun s hs => (h.info hs).1
  have hnames : ∀ info ∈ sections.map EdtSection.info, info.name.length ≤ 17 := by
    intro info hi
    obtain ⟨s, hs, rfl⟩ := List.mem_map.mp hi
    exact (h.info hs).2.1
  obtain ⟨out, hout⟩ : ∃ out : Output, out = ⟨writeHeader false sections.length,
      sectionCount false sections.length, layout false (sections.map EdtSection.info)
        (24 + (1 + 38 * (sections.length + 1))) 0, records,
      sections.flatMap EdtSection.dataset⟩ := ⟨_, rfl⟩
  have hentries : out.entries = layout false (sections.map EdtSection.info)
      (24 + (1 + 38 * (sections.length + 1))) 0 := by rw [hout]
  have hrec : out.records = records := by rw [hout]
  have hheader : out.header = writeHeader false sections.length := by rw [hout]
  have hblob : out.blob = sections.flatMap EdtSection.dataset := by rw [hout]
  have h38 : ∀ e ∈ out.entries, e.length = 38 := by
    rw [hentries]
    exact length_of_mem_layout hnames
  have htable : out.table.length = 1 + 38 * (sections.length + 1) := by
    rw [Output.table, List.length_append, length_flatten_of_forall h38, hentries, length_layout,
      List.length_map, hout]
    rfl
  have hbytes : out.bytes.length < 2 ^ 63 := by
    rw [out.length_bytes, hheader, length_writeHeader, htable, hrec, sum_emitted hrs, hblob]
    exact h.fits
  refine ⟨out, ?_, hheader, hentries, h38, hrec ▸ hrs, hblob, htable, hbytes⟩
  rw [write, writeSectionHeader, writeEntries_eq.mpr ⟨_, hinfos, rfl⟩, ok_bind, writeSection,
    hrecords, ok_bind, ← hout]
  exact if_pos hbytes

section Written

variable {p : Profile} {sections : List EdtSection} {out : Output}

theorem Written.mod_eq (hw : Written sections out) {n : ℕ} (hn : n ≤ out.bytes.length) :
    n % 256 ^ 8 = n :=
  Nat.mod_eq_of_lt (lt_of_le_of_lt hn (hw.size.trans (by decide)))

/-- Where the records of a section begin. -/
theorem Written.position_eq (hw : Written sections out) (h : Describable p sections) (i : ℕ) :
    out.position i = 24 + (1 + 38 * (sections.length + 1)) +
      (((sections.map EdtSection.info).take i).map SectionInfo.size).sum := by
  rw [Output.position, hw.header, length_writeHeader, hw.tableSize, h.offset_eq hw.records]

/-- The entry of a section. -/
theorem Written.section_entry (hw : Written sections out) (h : Describable p sections) {i : ℕ}
    {e : Str} {rs : List Str} (he : out.entries[i]? = some e) (hri : out.records[i]? = some rs) :
    numVal false (field e 18 8) = out.position i ∧ numVal false (field e 26 8) = rs.flatten.length ∧
      numVal false (field e 34 4) = rs.length := by
  obtain ⟨hi', hri'⟩ := List.getElem?_eq_some_iff.mp hri
  have hi : i < sections.length := hw.records.length_eq ▸ hi'
  have hinfo : (sections.map EdtSection.info)[i]? = some sections[i].info := by
    rw [List.getElem?_map, List.getElem?_eq_getElem hi, Option.map_some]
  rw [hw.entries, getElem?_layout false hinfo, Option.some.injEq] at he
  obtain ⟨hscan, hshort, hpe⟩ := h.info (List.getElem_mem hi)
  have hsizes := hw.records.get hi hi'
  simp only [List.get_eq_getElem, hri'] at hsizes
  obtain ⟨f₁, f₂, f₃⟩ := sectionEntry_fields false (24 + (1 + 38 * (sections.length + 1)) +
    (((sections.map EdtSection.info).take i).map SectionInfo.size).sum) hshort
  have hlt := h.sizes _ (List.getElem_mem hi)
  have hcount := length_le_emitted sections[i].values
  rw [← EdtSection.emitted] at hcount
  rw [← he, f₁, f₂, f₃, ← hw.position_eq h, hw.mod_eq (out.position_le i), hsizes.1, hsizes.2, ← hpe]
  refine ⟨rfl, Nat.mod_eq_of_lt ?_, Nat.mod_eq_of_lt ?_⟩
  · show sections[i].predicted < 256 ^ 8
    omega
  · show sections[i].values.length < 256 ^ 4
    omega

/-- The entry of the strings. -/
theorem Written.data_entry (hw : Written sections out) (h : Describable p sections) {e : Str}
    (he : out.entries[out.records.length]? = some e) :
    numVal false (field e 18 8) = out.position out.records.length ∧
      numVal false (field e 26 8) = out.blob.length := by
  have hn : out.records.length = (sections.map EdtSection.info).length := by
    rw [List.length_map, hw.records.length_eq]
  have hdata : ((sections.map EdtSection.info).map SectionInfo.dataLen).sum = out.blob.length := by
    rw [hw.blob, List.length_flatMap, List.map_map]
    rfl
  have hle : out.blob.length ≤ out.bytes.length := by
    rw [out.length_bytes]
    omega
  have hp := hw.position_eq h (sections.map EdtSection.info).length
  rw [List.take_length] at hp
  rw [hn, hw.entries, getElem?_layout_length, Option.some.injEq, Nat.zero_add, hdata, ← hp] at he
  obtain ⟨f₁, f₂⟩ := dataEntry_fields false (out.position (sections.map EdtSection.info).length)
    out.blob.length
  rw [← he, f₁, f₂, hw.mod_eq (out.position_le _), hw.mod_eq hle, hn]
  exact ⟨rfl, rfl⟩

/-- A little-endian file of describable sections is described by its table. -/
theorem Describable.describes (h : Describable p sections) :
    ∃ out, write p false sections = .ok out ∧ Describes false out := by
  obtain ⟨out, hout, hw⟩ := h.written
  have htable : out.table.length ≤ out.bytes.length := by
    rw [out.length_bytes]
    omega
  refine ⟨out, hout, ?_, ?_, hw.entrySize, fun i e rs => hw.section_entry h, fun e => hw.data_entry h⟩
  · rw [hw.header, writeHeader_size, ← hw.tableSize, hw.mod_eq htable]
  · rw [hw.entries, length_layout, List.length_map, hw.records.length_eq]

end Written

/-- **When the table describes the file.** -/
theorem describes_iff (p : Profile) (be : Bool) (sections : List EdtSection) :
    (∃ out, write p be sections = .ok out ∧ Describes be out) ↔
      be = false ∧ Describable p sections := by
  constructor
  · rintro ⟨out, h, hd⟩
    exact describable_of_describes h hd
  · rintro ⟨rfl, h⟩
    exact h.describes

/-- A section with one 8-bit integer under one key. -/
def flagSection : EdtSection :=
  { name := .seq 7 0
    entries := AList.singleton (.seq 4 7) [.ofInteger (.byte 1)]
    data := ⟨["buffers", "flag"]⟩ }

/-- **The size of a byte** is counted as one and emitted as eight, so the strings of this file do
not begin where its table says. -/
theorem flagSection_not_described :
    ∃ out, write .debug false [flagSection] = .ok out ∧ ¬ Describes false out := by
  have hok : (write .debug false [flagSection]).isOk = true := by decide +kernel
  obtain ⟨out, hout⟩ : ∃ out, write .debug false [flagSection] = .ok out := by
    cases h : write .debug false [flagSection] with
    | error e => rw [h] at hok; cases hok
    | ok out => exact ⟨out, rfl⟩
  refine ⟨out, hout, fun hd => ?_⟩
  have hv := (describable_of_describes hout hd).2.values flagSection (by simp)
  exact absurd (hv (.integer 1 (.byte 1) rfl) (by decide)).1 (by decide)

end Jxtd.Engug
