import Jxtd.Engug.EdtFormat

/-!
# EDT files of both byte orders

The mirror of a file has the other byte order and the bytes of every number reversed. It is parsed
into the same sections, except for what the parser reads without looking at the byte order: 64-bit
floats, and strings whose end is taken from their offset.

* `Mirror`: two files that are mirrors of each other.
* `tableOf_mirror`, `holds_mirror`, `gives_mirror_iff`: the parts of a mirror.
* `Unaffected`: the values that are read from both.
* **`parse_mirror_iff`**: when both files are parsed into the same sections.
* `double_mirror`: a float that is not read from both.
-/

namespace Jxtd.Engug

open Lib

/-! ## Mirrors -/

/-- A typed value in the other byte order. -/
def EdtRecord.mirror (r : EdtRecord) : EdtRecord :=
  if r.dataType = [2] then ⟨r.dataType, r.length.reverse, r.value.reverse⟩
  else ⟨r.dataType, r.length, r.value.reverse⟩

def RawEntry.mirror (e : RawEntry) : RawEntry := ⟨e.key.mirror, e.value.mirror⟩

def EdtSectionEntry.mirror (i : EdtSectionEntry) : EdtSectionEntry :=
  ⟨i.name, i.sectionType, i.offset.reverse, i.size.reverse, i.entryCount.reverse⟩

/-- The texts that a record refers to are the same in both files. -/
structure SameTexts (be : Bool) (data data' : Str) (e : RawEntry) : Prop where
  key : field data' (e.key.start be) (e.key.extent be) =
    field data (e.key.start be) (e.key.extent be)
  value : e.value.dataType = [2] → field data' (e.value.start be) (e.value.extent be) =
    field data (e.value.start be) (e.value.extent be)

/-- **The second file is the first one** with the flag of the byte order flipped and the bytes of
every number of more than one byte reversed. -/
structure Mirror (f f' : Str) : Prop where
  length : f'.length = f.length
  magic : f'.take 6 = f.take 6
  endian : field f' 6 1 = [if bigEndian f then 0 else 1]
  offset : field f' 7 8 = (field f 7 8).reverse
  size : field f' 15 8 = (field f 15 8).reverse
  zero : field f' 23 1 = field f 23 1
  count : field f' (tablePos f) 8 = (field f (tablePos f) 8).reverse
  table : ∀ i < tableCount f, entryAt (f'.drop (tablePos f + 8 + 38 * i)) =
    (entryAt (f.drop (tablePos f + 8 + 38 * i))).mirror
  records : ∀ i ∈ tableOf f, isDataEntry i = false → ∃ es, Holds (bigEndian f) f i es ∧
    Stand (es.map RawEntry.mirror) (f'.drop (numVal (bigEndian f) i.offset)) ∧
    ∀ e ∈ es, SameTexts (bigEndian f) (dataOf f) (dataOf f') e

theorem numVal_reverse (be : Bool) (bs : Str) : numVal (!be) bs.reverse = numVal be bs := by
  cases be with
  | false =>
    show beVal bs.reverse = leVal bs
    rw [beVal, List.reverse_reverse]
  | true => rfl

section Parts

variable {f f' : Str} (h : Mirror f f')

include h

theorem bigEndian_mirror : bigEndian f' = !bigEndian f := by
  unfold bigEndian
  rw [h.endian]
  unfold bigEndian
  by_cases hflag : field f 6 1 = [1]
  · simp [hflag]
  · simp [hflag]

theorem tablePos_mirror : tablePos f' = tablePos f := by
  rw [tablePos, bigEndian_mirror h, h.offset, numVal_reverse, tablePos]

theorem tableCount_mirror : tableCount f' = tableCount f := by
  rw [tableCount, bigEndian_mirror h, tablePos_mirror h, h.count, numVal_reverse, tableCount]

theorem tableOf_mirror : tableOf f' = (tableOf f).map EdtSectionEntry.mirror := by
  rw [tableOf, tableCount_mirror h, tablePos_mirror h, tableOf, List.map_map]
  exact List.map_congr_left fun i hi => h.table i (List.mem_range.mp hi)

theorem descriptionOf_mirror : descriptionOf f' = (descriptionOf f).map EdtSectionEntry.mirror := by
  have hdata : isDataEntry ∘ EdtSectionEntry.mirror = isDataEntry := rfl
  rw [descriptionOf, tableOf_mirror h, List.find?_map, hdata, descriptionOf]

theorem length_dataOf_mirror : (dataOf f').length = (dataOf f).length := by
  unfold dataOf
  rw [descriptionOf_mirror h]
  cases descriptionOf f with
  | none => rfl
  | some description =>
    show (f'.drop (numVal (bigEndian f') description.offset.reverse)).length = _
    rw [bigEndian_mirror h, numVal_reverse, List.length_drop, List.length_drop, h.length]

theorem headerOk_mirror (hok : HeaderOk f) : HeaderOk f' := by
  have hfirst (k : ℕ) (hk : k + 1 ≤ 6) : field f' k 1 = field f k 1 := by
    have htake (g : Str) : field g k 1 = field (g.take 6) k 1 := by
      rw [field, field, List.drop_take, List.take_take, Nat.min_eq_left (by omega)]
    rw [htake, h.magic, ← htake]
  refine ⟨?_, ?_, ?_, ?_, ?_, ?_⟩
  · rw [h.length]
    exact hok.length
  · have htake (g : Str) : g.take 4 = (g.take 6).take 4 := by
      rw [List.take_take]
      rfl
    rw [htake, h.magic, ← htake, hok.magic]
  · rw [hfirst 4 (by omega), hok.fileType]
  · rw [hfirst 5 (by omega), hok.apiVersion]
  · rw [h.endian]
    split_ifs
    · exact .inl rfl
    · exact .inr rfl
  · rw [h.zero, hok.zero]

theorem tableOk_mirror (hok : TableOk f) : TableOk f' := by
  obtain ⟨description, hdescription, hinside⟩ := hok.data
  refine ⟨headerOk_mirror h hok.header, ?_, description.mirror, ?_, ?_⟩
  · rw [tablePos_mirror h, tableCount_mirror h, h.length]
    exact hok.table
  · rw [descriptionOf_mirror h, hdescription]
    rfl
  · rw [bigEndian_mirror h, h.length]
    show numVal (!bigEndian f) description.offset.reverse ≤ _
    rw [numVal_reverse]
    exact hinside

end Parts

/-! ## Records -/

theorem EdtRecord.start_mirror (be : Bool) (r : EdtRecord) : r.mirror.start (!be) = r.start be := by
  unfold EdtRecord.start EdtRecord.mirror
  split_ifs
  · exact numVal_reverse be r.value
  · exact numVal_reverse be r.value

theorem EdtRecord.extent_mirror (be : Bool) {r : EdtRecord} (h : r.dataType = [2]) :
    r.mirror.extent (!be) = r.extent be := by
  rw [EdtRecord.extent, EdtRecord.mirror, if_pos h, EdtRecord.extent]
  exact numVal_reverse be r.length

/-- Only one value stands at the beginning of some bytes. -/
theorem EdtRecord.Shaped.unique {r r' : EdtRecord} (h : r.Shaped) (h' : r'.Shaped)
    {rest rest' : Str} (heq : r.bytes ++ rest = r'.bytes ++ rest') : r = r' ∧ rest = rest' := by
  have hr : dataParser (r.bytes ++ rest) = .ok (rest, r) := dataParser_eq_ok.mpr ⟨h, rfl⟩
  have hr' : dataParser (r.bytes ++ rest) = .ok (rest', r') := dataParser_eq_ok.mpr ⟨h', heq⟩
  rw [hr, Except.ok.injEq, Prod.mk.injEq] at hr'
  exact ⟨hr'.2, hr'.1⟩

/-- **Only one list of records** of a given length stands at the beginning of some bytes. -/
theorem Stand.unique {es es' : List RawEntry} {bs : Str} (h : Stand es bs) (h' : Stand es' bs)
    (hlen : es.length = es'.length) : es = es' := by
  induction es generalizing es' bs with
  | nil => exact (List.length_eq_zero_iff.mp hlen.symm).symm
  | cons e es ih =>
    cases es' with
    | nil => cases hlen
    | cons e' es' =>
      obtain ⟨hshaped, rest, rfl⟩ := h
      obtain ⟨hshaped', rest', heq⟩ := h'
      rw [List.forall_mem_cons] at hshaped hshaped'
      simp only [List.flatMap_cons, RawEntry.bytes, List.append_assoc] at heq
      obtain ⟨hkey, heq⟩ := hshaped.1.key.unique hshaped'.1.key heq
      obtain ⟨hvalue, heq⟩ := hshaped.1.value.unique hshaped'.1.value heq
      have hes : es = es' :=
        ih ⟨hshaped.2, rest, rfl⟩ ⟨hshaped'.2, rest', heq⟩ (Nat.succ.inj hlen)
      have he : e = e' := by
        cases e
        cases e'
        rw [RawEntry.mk.injEq]
        exact ⟨hkey, hvalue⟩
      rw [he, hes]

theorem Holds.unique {be : Bool} {f : Str} {i : EdtSectionEntry} {es es' : List RawEntry}
    (h : Holds be f i es) (h' : Holds be f i es') : es = es' :=
  h.stand.unique h'.stand (h.count.trans h'.count.symm)

/-! ## Values -/

/-- The values that are read from both files: a 64-bit float is the same in both directions, and the
bytes that are taken for a string are the same. -/
structure Unaffected (be : Bool) (data data' : Str) (r : EdtRecord) : Prop where
  double : r.dataType = [1] → r.length = [8] → r.value.reverse = r.value
  seq : r.dataType = [2] →
    field data' (r.start be) (r.start be) = field data (r.start be) (r.start be)

theorem ofF64_injective {a b : UInt64} {v : IRValue} (ha : orPanic (IRValue.ofF64 a) = .ok v)
    (hb : orPanic (IRValue.ofF64 b) = .ok v) : a = b := by
  unfold IRValue.ofF64 at ha hb
  split_ifs at ha with hna
  · split_ifs at hb with hnb
    · cases ha
      cases hb
      rfl
    · cases hb
  · cases ha

theorem toUInt64_injective {m n : ℕ} (hm : m < 2 ^ 64) (hn : n < 2 ^ 64)
    (h : m.toUInt64 = n.toUInt64) : m = n := by
  have htoNat := congrArg UInt64.toNat h
  simp only [Nat.toUInt64, UInt64.toNat_ofNat'] at htoNat
  omega

/-- **A value of the mirror** is that of the file exactly if it is unaffected. -/
theorem recordValue_mirror_iff {be : Bool} {data data' : Str} {r : EdtRecord} {v : IRValue}
    (hshaped : r.Shaped) (hlen : data'.length = data.length)
    (h : recordValue be data r = .ok v) :
    recordValue (!be) data' r.mirror = .ok v ↔ Unaffected be data data' r := by
  obtain ⟨h01, h02, h12, h48⟩ := tags_ne
  cases hshaped with
  | @integer width value hwidth hvalue =>
    have hmirror : (EdtRecord.mk [0] [width] value).mirror = ⟨[0], [width], value.reverse⟩ :=
      if_neg h02
    have hnone : Unaffected be data data' ⟨[0], [width], value⟩ :=
      ⟨fun h => absurd h h01, fun h => absurd h h02⟩
    refine iff_of_true ?_ hnone
    rw [hmirror, ← h]
    have hwidths : width = 1 ∨ width = 2 ∨ width = 4 ∨ width = 8 := by simpa using hwidth
    rcases hwidths with rfl | rfl | rfl | rfl
    · obtain ⟨b, rfl⟩ := List.length_eq_one_iff.mp hvalue
      rfl
    · show Except.ok (IRValue.integer (.word (numVal (!be) value.reverse).toUInt16)) = _
      rw [numVal_reverse]
      rfl
    · show Except.ok (IRValue.integer (.double (numVal (!be) value.reverse).toUInt32)) = _
      rw [numVal_reverse]
      rfl
    · show Except.ok (IRValue.integer (.quad (numVal (!be) value.reverse).toUInt64)) = _
      rw [numVal_reverse]
      rfl
  | @floating width value hwidth hvalue =>
    have hmirror : (EdtRecord.mk [1] [width] value).mirror = ⟨[1], [width], value.reverse⟩ :=
      if_neg h12
    rw [hmirror]
    have hwidths : width = 4 ∨ width = 8 := by simpa using hwidth
    rcases hwidths with rfl | rfl
    · refine iff_of_true ?_ ⟨fun _ h => absurd h h48, fun h => absurd h h12⟩
      show orPanic (IRValue.ofF32 (numVal (!be) value.reverse).toUInt32) = _
      rw [numVal_reverse]
      exact h
    · constructor
      · intro h'
        refine ⟨fun _ _ => ?_, fun h => absurd h h12⟩
        have hlt (bs : Str) (hbs : bs.length = 8) : beVal bs < 2 ^ 64 := by
          have hbound := numVal_lt true bs
          rw [hbs] at hbound
          exact hbound
        have hreverse : value.reverse.length = 8 := by
          rw [List.length_reverse]
          exact hvalue
        have hbits : (beVal value).toUInt64 = (beVal value.reverse).toUInt64 := ofF64_injective h h'
        have hval := toUInt64_injective (hlt value hvalue) (hlt value.reverse hreverse) hbits
        have hbytes := leVal_injective (by simp) hval
        rw [List.reverse_reverse] at hbytes
        exact hbytes
      · intro hun
        have hsame : value.reverse = value := hun.double rfl rfl
        rw [hsame]
        exact h
  | @seq length value hlength hvalue =>
    have hmirror : (EdtRecord.mk [2] length value).mirror = ⟨[2], length.reverse, value.reverse⟩ :=
      if_pos rfl
    obtain ⟨s, hinside, hs, rfl⟩ := recordValue_seq.mp h
    rw [hmirror, recordValue_seq, numVal_reverse, hlen]
    constructor
    · rintro ⟨s', -, hs', heq⟩
      cases heq
      refine ⟨fun h => absurd h h12.symm, fun _ => ?_⟩
      exact (bytes_of_fromUtf8 hs').symm.trans (bytes_of_fromUtf8 hs)
    · intro hun
      have hfield : field data' (numVal be value) (numVal be value) =
          field data (numVal be value) (numVal be value) := hun.seq rfl
      rw [hfield]
      exact ⟨s, hinside, hs, rfl⟩

section Records

variable {be : Bool} {data data' : Str} {e : RawEntry} {entry entry' : String × IRValue}
  (hlen : data'.length = data.length) (hsame : SameTexts be data data' e)
  (hgives : e.Gives be data entry)

include hsame hgives

/-- The key of a record is that of its mirror. -/
theorem key_mirror (h : e.mirror.Gives (!be) data' entry') : entry'.1 = entry.1 := by
  have hkey := h.key
  have hseq := hgives.shaped.isSeq
  rw [RawEntry.mirror, EdtRecord.start_mirror, EdtRecord.extent_mirror be hseq, hsame.key,
    hgives.key] at hkey
  exact (Option.some.inj hkey).symm

include hlen

/-- **A record of the mirror** gives the same exactly if its value is unaffected. -/
theorem gives_mirror_iff (hshaped : e.mirror.Shaped) :
    e.mirror.Gives (!be) data' entry ↔ Unaffected be data data' e.value := by
  rw [← recordValue_mirror_iff hgives.shaped.value hlen hgives.value]
  have hseq := hgives.shaped.isSeq
  constructor
  · exact RawEntry.Gives.value
  · intro hvalue
    refine ⟨hshaped, ?_, ?_, hvalue⟩
    · rw [RawEntry.mirror, EdtRecord.start_mirror, EdtRecord.extent_mirror be hseq, hlen]
      exact hgives.fits
    · rw [RawEntry.mirror, EdtRecord.start_mirror, EdtRecord.extent_mirror be hseq, hsame.key]
      exact hgives.key

end Records

theorem keys_mirror {be : Bool} {data data' : Str} {es : List RawEntry}
    {entries entries' : List (String × IRValue)} (hsame : ∀ e ∈ es, SameTexts be data data' e)
    (hgives : List.Forall₂ (RawEntry.Gives be data) es entries)
    (hgives' : List.Forall₂ (fun e entry => e.mirror.Gives (!be) data' entry) es entries') :
    entries'.map Prod.fst = entries.map Prod.fst := by
  induction hgives generalizing entries' with
  | nil =>
    cases hgives'
    rfl
  | cons hentry _ ih =>
    cases hgives' with
    | cons hentry' hgives' =>
      rw [List.forall_mem_cons] at hsame
      rw [List.map_cons, List.map_cons, ih hsame.2 hgives', key_mirror hsame.1 hentry hentry']

/-! ## Sections -/

section Sections

variable {f f' : Str} (h : Mirror f f') {i : EdtSectionEntry} (hi : i ∈ tableOf f)
  (hdata : isDataEntry i = false)

include h hi hdata

/-- The records of an entry of the mirror. -/
theorem holds_mirror : ∃ es, Holds (bigEndian f) f i es ∧
    Holds (bigEndian f') f' i.mirror (es.map RawEntry.mirror) ∧
    ∀ e ∈ es, SameTexts (bigEndian f) (dataOf f) (dataOf f') e := by
  obtain ⟨es, hholds, hstand, hsame⟩ := h.records i hi hdata
  have hoffset : numVal (bigEndian f') i.mirror.offset = numVal (bigEndian f) i.offset := by
    rw [bigEndian_mirror h]
    exact numVal_reverse _ _
  have hcount : numVal (bigEndian f') i.mirror.entryCount = numVal (bigEndian f) i.entryCount := by
    rw [bigEndian_mirror h]
    exact numVal_reverse _ _
  refine ⟨es, hholds, ⟨?_, ?_, ?_⟩, hsame⟩
  · rw [hoffset, h.length]
    exact hholds.inside
  · rw [hcount, List.length_map]
    exact hholds.count
  · rw [hoffset]
    exact hstand

/-- **A section of the mirror** is that of the file exactly if its values are unaffected. -/
theorem parseSection_mirror_iff {p : Profile} {s : Section} (hf : f.length < 2 ^ 47)
    (hs : parseSection p (bigEndian f) f (dataOf f) i = .ok s) :
    parseSection p (bigEndian f') f' (dataOf f') i.mirror = .ok s ↔
      ∀ es, Holds (bigEndian f) f i es →
        ∀ e ∈ es, Unaffected (bigEndian f) (dataOf f) (dataOf f') e.value := by
  have hlen : (dataOf f').length = (dataOf f).length := length_dataOf_mirror h
  have hdata : (dataOf f).length < 2 ^ 64 := by
    have hle := length_dataOf_le f
    omega
  have hdata' : (dataOf f').length < 2 ^ 64 := by
    rw [hlen]
    exact hdata
  obtain ⟨es, hholds, hholds', hsame⟩ := holds_mirror h hi ‹_›
  obtain ⟨name, es₁, entries, hname, hholds₁, hgives, rfl⟩ := (parseSection_eq_ok hdata).mp hs
  obtain rfl := hholds₁.unique hholds
  have hiff : List.Forall₂ (fun e entry => e.mirror.Gives (bigEndian f') (dataOf f') entry)
      es₁ entries ↔ ∀ e ∈ es₁, Unaffected (bigEndian f) (dataOf f) (dataOf f') e.value := by
    refine forall₂_iff_forall_mem hgives fun e he entry hentry => ?_
    rw [bigEndian_mirror h]
    exact gives_mirror_iff hlen (hsame e he) hentry
      (hholds'.stand.shaped _ (List.mem_map_of_mem he))
  rw [parseSection_eq_ok hdata']
  constructor
  · rintro ⟨name', es', entries', hname', hholds'', hgives', hsections⟩ es₂ hholds₂
    obtain rfl := hholds₂.unique hholds₁
    obtain rfl := hholds''.unique hholds'
    obtain rfl : name = name' := Option.some.inj (hname.symm.trans hname')
    rw [List.forall₂_map_left_iff] at hgives'
    have hkeys : entries'.map Prod.fst = entries.map Prod.fst := by
      rw [bigEndian_mirror h] at hgives'
      exact keys_mirror hsame hgives hgives'
    obtain rfl := Section.addEntries_injective hkeys hsections.symm
    exact hiff.mp hgives'
  · intro hun
    refine ⟨name, es₁.map RawEntry.mirror, entries, hname, hholds', ?_, rfl⟩
    rw [List.forall₂_map_left_iff]
    exact hiff.mpr (hun es₁ hholds₁)

end Sections

/-- **A mirror is parsed into the same sections** exactly if it is still a text, and all values of
the file are unaffected. -/
theorem parse_mirror_iff (p : Profile) {f f' : Str} (hf : Readable f) (hw : WellFormed f)
    (h : Mirror f f') :
    (∃ sections, parse p f = .ok sections ∧ parse p f' = .ok sections) ↔
      (fromUtf8 f').isSome ∧ ∀ i ∈ tableOf f, isDataEntry i = false →
        ∀ es, Holds (bigEndian f) f i es →
          ∀ e ∈ es, Unaffected (bigEndian f) (dataOf f) (dataOf f') e.value := by
  obtain ⟨sections, hparse⟩ := (parse_isOk_iff (p := p) hf).mpr hw
  have hsections := (parse_eq_ok.mp hparse).2.2
  have hfilter : (tableOf f').filter (fun i => !isDataEntry i) =
      ((tableOf f).filter fun i => !isDataEntry i).map EdtSectionEntry.mirror := by
    rw [tableOf_mirror h, List.filter_map]
    rfl
  have hreadable : Readable f' ↔ (fromUtf8 f').isSome := by
    rw [Readable, h.length]
    exact and_iff_right hf.1
  have hcond := forall₂_iff_forall_mem hsections fun i hi s hs =>
    parseSection_mirror_iff h (List.mem_filter.mp hi).1 (by simpa using (List.mem_filter.mp hi).2)
      hf.1 hs
  simp only [List.mem_filter, Bool.not_eq_true', and_imp] at hcond
  have hmirror : parse p f' = .ok sections ↔ (fromUtf8 f').isSome ∧
      ∀ i ∈ tableOf f, isDataEntry i = false → ∀ es, Holds (bigEndian f) f i es →
        ∀ e ∈ es, Unaffected (bigEndian f) (dataOf f) (dataOf f') e.value := by
    rw [parse_eq_ok, hreadable, hfilter, List.forall₂_map_left_iff, hcond,
      and_iff_right (tableOk_mirror h hw.table)]
  rw [← hmirror]
  constructor
  · rintro ⟨sections', hparse', h'⟩
    obtain rfl : sections' = sections := Except.ok.inj (hparse'.symm.trans hparse)
    exact h'
  · exact fun h' => ⟨sections, hparse, h'⟩

/-! ## A float that is read in one order only -/

/-- A section with the key `k` and the float 3.0 in 64 bits. -/
def doubleFile (be : Bool) : Str :=
  lit "edtf" ++ [0, 0, if be then 1 else 0] ++ numBytes be 8 24 ++ numBytes be 8 84 ++ [0] ++
  numBytes be 8 2 ++
  lit "s" ++ List.replicate 16 0 ++ [0] ++
  numBytes be 8 109 ++ numBytes be 8 27 ++ numBytes be 4 1 ++
  List.replicate 17 0 ++ [2] ++ numBytes be 8 108 ++ numBytes be 8 1 ++ numBytes be 4 0 ++
  lit "k" ++
  [2] ++ numBytes be 8 1 ++ numBytes be 8 0 ++ [1, 8] ++ numBytes be 8 0x4008000000000000

/-- The only record of the file. -/
def doubleEntry : RawEntry :=
  ⟨⟨[2], numBytes true 8 1, numBytes true 8 0⟩, ⟨[1], [8], numBytes true 8 0x4008000000000000⟩⟩

/-- The float that is read: its bytes are taken as big-endian in both files. -/
def readDouble (be : Bool) : F64 := ⟨if be then 0x4008000000000000 else 0x0840, by cases be <;> rfl⟩

theorem parse_doubleFile (p : Profile) (be : Bool) : ∃ sections,
    parse p (doubleFile be) = .ok sections ∧
      sections.map (·.values "k") = [[.floating (.double (readDouble be))]] := by
  have hvalues : (parse .debug (doubleFile be)).toOption.map (fun ss => ss.map (·.values "k")) =
      some [[.floating (.double (readDouble be))]] := by
    cases be with
    | false => decide +kernel
    | true => decide +kernel
  cases h : parse .debug (doubleFile be) with
  | error e =>
    rw [h] at hvalues
    cases hvalues
  | ok sections =>
    rw [h] at hvalues
    exact ⟨sections, (parse_profile_iff p .debug).mpr h, Option.some.inj hvalues⟩

theorem readable_doubleFile (be : Bool) : Readable (doubleFile be) := by
  obtain ⟨sections, h, -⟩ := parse_doubleFile .debug be
  exact (parse_eq_ok.mp h).1

theorem wellFormed_doubleFile (be : Bool) : WellFormed (doubleFile be) := by
  obtain ⟨sections, h, -⟩ := parse_doubleFile .debug be
  exact (parse_isOk_iff (readable_doubleFile be)).mp ⟨sections, h⟩

theorem tableOf_doubleFile : tableOf (doubleFile true) =
    [entryAt ((doubleFile true).drop 32), entryAt ((doubleFile true).drop 70)] := by
  decide +kernel

theorem mirror_doubleFile : Mirror (doubleFile true) (doubleFile false) where
  length := by decide +kernel
  magic := by decide +kernel
  endian := by decide +kernel
  offset := by decide +kernel
  size := by decide +kernel
  zero := by decide +kernel
  count := by decide +kernel
  table := by decide +kernel
  records := by
    have hshaped : doubleEntry.Shaped := ⟨.seq rfl rfl, rfl, .floating (by decide) rfl⟩
    have hmirror : doubleEntry.mirror.Shaped := ⟨.seq rfl rfl, rfl, .floating (by decide) rfl⟩
    have hstrings : isDataEntry (entryAt ((doubleFile true).drop 70)) = true := by decide +kernel
    intro i hi hdata
    rw [tableOf_doubleFile, List.mem_cons, List.mem_singleton] at hi
    rcases hi with rfl | rfl
    · refine ⟨[doubleEntry], ⟨?_, ?_, ?_⟩, ?_, ?_⟩
      · decide +kernel
      · decide +kernel
      · exact ⟨List.forall_mem_singleton.mpr hshaped, [], by decide +kernel⟩
      · exact ⟨List.forall_mem_singleton.mpr hmirror, [], by decide +kernel⟩
      · refine List.forall_mem_singleton.mpr ⟨by decide +kernel, fun h => ?_⟩
        exact absurd h (by decide)
    · rw [hstrings] at hdata
      cases hdata

theorem parse_mirror_iff_double :
    (∃ sections, parse .debug (doubleFile true) = .ok sections ∧
      parse .debug (doubleFile false) = .ok sections) ↔
      (fromUtf8 (doubleFile false)).isSome ∧
        ∀ i ∈ tableOf (doubleFile true), isDataEntry i = false →
          ∀ es, Holds (bigEndian (doubleFile true)) (doubleFile true) i es → ∀ e ∈ es,
            Unaffected (bigEndian (doubleFile true)) (dataOf (doubleFile true))
              (dataOf (doubleFile false)) e.value :=
  parse_mirror_iff .debug (readable_doubleFile true) (wellFormed_doubleFile true) mirror_doubleFile

/-- **The mirror of a float of 64 bits** is parsed into another float. -/
theorem double_mirror : Mirror (doubleFile true) (doubleFile false) ∧
    (∀ be, Readable (doubleFile be) ∧ WellFormed (doubleFile be)) ∧
    ∀ p, ¬∃ sections, parse p (doubleFile true) = .ok sections ∧
      parse p (doubleFile false) = .ok sections := by
  refine ⟨mirror_doubleFile, fun be => ⟨readable_doubleFile be, wellFormed_doubleFile be⟩, ?_⟩
  rintro p ⟨sections, hbig, hlittle⟩
  obtain ⟨sections₁, h₁, hvalues₁⟩ := parse_doubleFile p true
  obtain ⟨sections₂, h₂, hvalues₂⟩ := parse_doubleFile p false
  obtain rfl : sections = sections₁ := Except.ok.inj (hbig.symm.trans h₁)
  obtain rfl : sections = sections₂ := Except.ok.inj (hlittle.symm.trans h₂)
  rw [hvalues₁] at hvalues₂
  exact absurd hvalues₂ (by decide)

end Jxtd.Engug
