import Jxtd.Engug.EdtParser

/-!
# The format of EDT files

What the parser takes for an EDT file: a header that gives the byte order and the position of the
table, the entries of the table, the strings, and the records of every other entry.

* `EdtRecord.Shaped`, `RawEntry`: the values and the records as they stand in a file.
* `EdtRecord.Denotes`: the string that a record refers to; **`keyString_eq_ok`**: how a key is decoded.
* `dataParser_eq_ok`, `recordLoop_eq_ok`, `parseSection_eq_ok`, **`parse_eq_ok`**: exactly what the
  parsers return.
* `parse_profile_iff`: the profile of the build does not matter.
* `WellFormed`: the files that are parsed.
* **`edt_panics_iff`**: the parser panics on every other one that can be read.
-/

namespace Jxtd.Engug

open Lib

/-! ## Typed values -/

def EdtRecord.bytes (r : EdtRecord) : Str := r.dataType ++ (r.length ++ r.value)

/-- The type, the length and the value fit together. -/
inductive EdtRecord.Shaped : EdtRecord → Prop
  | integer {width : UInt8} {value : Str} (hwidth : width ∈ [1, 2, 4, 8])
      (hvalue : value.length = width.toNat) : Shaped ⟨[0], [width], value⟩
  | floating {width : UInt8} {value : Str} (hwidth : width ∈ [4, 8])
      (hvalue : value.length = width.toNat) : Shaped ⟨[1], [width], value⟩
  | seq {length value : Str} (hlength : length.length = 8) (hvalue : value.length = 8) :
      Shaped ⟨[2], length, value⟩

theorem numVal_lt (be : Bool) (bs : Str) : numVal be bs < 256 ^ bs.length := by
  cases be with
  | false => exact leVal_lt bs
  | true =>
    have h := leVal_lt bs.reverse
    rwa [List.length_reverse] at h

theorem numberParser_eq_ok {widths : List UInt8} {dataType data rest : Str} {r : EdtRecord} :
    numberParser widths dataType data = .ok (rest, r) ↔
      ∃ width ∈ widths, ∃ value, value.length = width.toNat ∧ r = ⟨dataType, [width], value⟩ ∧
        data = width :: (value ++ rest) := by
  constructor
  · intro h
    obtain ⟨⟨data', length⟩, hlength, hbody⟩ := bind_eq_ok.mp h
    obtain ⟨width, rfl, rfl⟩ := take_one_iff.mp hlength
    dsimp only at hbody
    split_ifs at hbody with hwidth
    obtain ⟨⟨rest', value⟩, hvalue, hbody⟩ := bind_eq_ok.mp hbody
    cases hbody
    obtain ⟨hlen, rfl⟩ := take_iff_append.mp hvalue
    exact ⟨width, hwidth, value, hlen, rfl, rfl⟩
  · rintro ⟨width, hwidth, value, hlen, rfl, rfl⟩
    rw [numberParser, take_one_iff.mpr ⟨width, rfl, rfl⟩, ok_bind]
    dsimp only
    rw [if_pos hwidth, take_iff_append.mpr ⟨hlen, rfl⟩]
    rfl

/-- **A typed value is read** exactly where one stands. -/
theorem dataParser_eq_ok {data rest : Str} {r : EdtRecord} :
    dataParser data = .ok (rest, r) ↔ r.Shaped ∧ data = r.bytes ++ rest := by
  constructor
  · intro h
    obtain ⟨⟨data', dataType⟩, htype, hbody⟩ := bind_eq_ok.mp h
    obtain ⟨t, rfl, rfl⟩ := take_one_iff.mp htype
    dsimp only at hbody
    split at hbody
    · rename_i heq
      cases heq
      obtain ⟨width, hwidth, value, hlen, rfl, rfl⟩ := numberParser_eq_ok.mp hbody
      exact ⟨.integer hwidth hlen, by simp [EdtRecord.bytes]⟩
    · rename_i heq
      cases heq
      obtain ⟨width, hwidth, value, hlen, rfl, rfl⟩ := numberParser_eq_ok.mp hbody
      exact ⟨.floating hwidth hlen, by simp [EdtRecord.bytes]⟩
    · rename_i heq
      cases heq
      obtain ⟨⟨data₁, length⟩, hlength, hbody⟩ := bind_eq_ok.mp hbody
      obtain ⟨⟨data₂, value⟩, hvalue, hbody⟩ := bind_eq_ok.mp hbody
      cases hbody
      obtain ⟨hlen₁, rfl⟩ := take_iff_append.mp hlength
      obtain ⟨hlen₂, rfl⟩ := take_iff_append.mp hvalue
      exact ⟨.seq hlen₁ hlen₂, by simp [EdtRecord.bytes]⟩
    · cases hbody
  · rintro ⟨hshaped, rfl⟩
    cases hshaped with
    | @integer width value hwidth hvalue =>
      show dataParser (([0] ++ ([width] ++ value)) ++ rest) = _
      rw [List.append_assoc, dataParser, take_one, ok_bind]
      exact numberParser_eq_ok.mpr ⟨width, hwidth, value, hvalue, rfl, by simp⟩
    | @floating width value hwidth hvalue =>
      show dataParser (([1] ++ ([width] ++ value)) ++ rest) = _
      rw [List.append_assoc, dataParser, take_one, ok_bind]
      exact numberParser_eq_ok.mpr ⟨width, hwidth, value, hvalue, rfl, by simp⟩
    | @seq length value hlength hvalue =>
      show dataParser (([2] ++ (length ++ value)) ++ rest) = _
      rw [List.append_assoc, dataParser, take_one, ok_bind]
      dsimp only
      rw [List.append_assoc, take_append hlength, ok_bind]
      dsimp only
      rw [take_append hvalue]
      rfl

/-! ## Records -/

/-- A record as it stands in the file. -/
structure RawEntry where
  key : EdtRecord
  value : EdtRecord

def RawEntry.bytes (e : RawEntry) : Str := e.key.bytes ++ e.value.bytes

/-- The extent of the strings that a key or a string value gives. -/
def EdtRecord.start (be : Bool) (r : EdtRecord) : ℕ := numVal be r.value

def EdtRecord.extent (be : Bool) (r : EdtRecord) : ℕ := numVal be r.length

structure RawEntry.Shaped (e : RawEntry) : Prop where
  key : e.key.Shaped
  isSeq : e.key.dataType = [2]
  value : e.value.Shaped

/-- What is read of a record: the key, and the value. -/
structure RawEntry.Gives (be : Bool) (data : Str) (e : RawEntry) (entry : String × IRValue) :
    Prop where
  shaped : e.Shaped
  fits : e.key.start be + e.key.extent be ≤ data.length
  key : fromUtf8 (field data (e.key.start be) (e.key.extent be)) = some entry.1
  value : recordValue be data e.value = .ok entry.2

theorem EdtRecord.Shaped.start_lt {r : EdtRecord} (h : r.Shaped) (hseq : r.dataType = [2])
    (be : Bool) : r.start be < 2 ^ 64 ∧ r.extent be < 2 ^ 64 := by
  cases h with
  | integer => cases hseq
  | floating => cases hseq
  | @seq length value hlength hvalue =>
    have hstart := numVal_lt be value
    have hextent := numVal_lt be length
    rw [hvalue] at hstart
    rw [hlength] at hextent
    exact ⟨hstart, hextent⟩

theorem slice_eq_ok {bs out : Str} {start stop : ℕ} :
    slice bs start stop = .ok out ↔
      start ≤ stop ∧ stop ≤ bs.length ∧ out = field bs start (stop - start) := by
  unfold slice
  split_ifs with h
  · rw [Except.ok.injEq, field, List.drop_take]
    exact ⟨fun hout => ⟨h.1, h.2, hout.symm⟩, fun hout => hout.2.2.symm⟩
  · refine iff_of_false ?_ fun h' => h ⟨h'.1, h'.2.1⟩
    intro h'
    cases h'

/-- **An extent is cut out** exactly if it lies in the strings; a sum that wraps around ends before
it begins. -/
theorem extent_eq_ok {p : Profile} {data out : Str} {start len : ℕ} (hstart : start < 2 ^ 64)
    (hlen : len < 2 ^ 64) (hdata : data.length < 2 ^ 64) :
    (orPanic (p.add 64 start len) >>= fun stop => orPanic (slice data start stop)) = .ok out ↔
      start + len ≤ data.length ∧ out = field data start len := by
  rw [bind_eq_ok]
  simp only [orPanic_eq_ok, slice_eq_ok]
  constructor
  · rintro ⟨stop, hadd, hle, hstop, rfl⟩
    obtain ⟨rfl, -⟩ := Profile.of_add_eq_ok hadd
    have hlt : start + len < 2 ^ 64 := by
      by_contra hge
      have hmod : (start + len) % 2 ^ 64 = start + len - 2 ^ 64 := by omega
      omega
    rw [Nat.mod_eq_of_lt hlt] at hstop ⊢
    rw [Nat.add_sub_cancel_left]
    exact ⟨hstop, rfl⟩
  · rintro ⟨hfits, rfl⟩
    refine ⟨start + len, p.add_of_lt (by omega), Nat.le_add_right _ _, hfits, ?_⟩
    rw [Nat.add_sub_cancel_left]

theorem utf8OrPanic_eq_ok {bs : Str} {s : String} :
    utf8OrPanic bs = .ok s ↔ fromUtf8 bs = some s := by
  unfold utf8OrPanic
  cases fromUtf8 bs with
  | none => exact iff_of_false (fun h => nomatch h) fun h => nomatch h
  | some t => rw [Except.ok.injEq, Option.some.injEq]

theorem settles_utf8OrPanic (bs : Str) : Settles (utf8OrPanic bs) := by
  unfold utf8OrPanic
  cases fromUtf8 bs with
  | none => exact settles_panics _
  | some t => exact settles_ok t

/-- The record refers to the string at its offset, of its length. -/
def EdtRecord.Denotes (be : Bool) (data : Str) (r : EdtRecord) (s : String) : Prop :=
  r.start be + r.extent be ≤ data.length ∧
    fromUtf8 (field data (r.start be) (r.extent be)) = some s

/-- The decoding of a key in `section_parser`. -/
def keyString (p : Profile) (be : Bool) (dataSection : Str) (key : EdtRecord) :
    Except Fail String := do
  let start := numVal be key.value
  let stop ← orPanic (p.add 64 start (numVal be key.length))
  let target ← orPanic (slice dataSection start stop)
  utf8OrPanic target

/-- The parser of an entry decodes its key by `keyString`. -/
theorem sectionParser_eq (p : Profile) (be : Bool) (dataSection entry : Str) :
    sectionParser p be dataSection entry = do
      let (entry, key) ← expect "Error occurred when try to parse the key of the section"
        (dataParser entry)
      if key.dataType ≠ [2] then .error .failure else
      let name ← keyString p be dataSection key
      let (entry, value) ← expect "Error occurred when try to parse the value of the section"
        (dataParser entry)
      return (entry, ⟨name, value⟩) := by
  simp only [sectionParser, keyString, bind_assoc]

/-- **A key is decoded** to the string that it refers to. -/
theorem keyString_eq_ok {p : Profile} {be : Bool} {data : Str} (hdata : data.length < 2 ^ 64)
    {r : EdtRecord} (hr : r.Shaped) (hseq : r.dataType = [2]) {s : String} :
    keyString p be data r = .ok s ↔ r.Denotes be data s := by
  obtain ⟨hstart, hlen⟩ := hr.start_lt hseq be
  have hslice : keyString p be data r =
      (orPanic (p.add 64 (r.start be) (r.extent be)) >>= fun stop =>
        orPanic (slice data (r.start be) stop)) >>= utf8OrPanic := by
    simp only [keyString, EdtRecord.start, EdtRecord.extent, bind_assoc]
  rw [hslice, bind_eq_ok]
  simp only [extent_eq_ok hstart hlen hdata, utf8OrPanic_eq_ok, EdtRecord.Denotes]
  constructor
  · rintro ⟨target, ⟨hfits, rfl⟩, hs⟩
    exact ⟨hfits, hs⟩
  · rintro ⟨hfits, hs⟩
    exact ⟨_, ⟨hfits, rfl⟩, hs⟩

/-- **A record is read** exactly where one stands whose key lies in the strings. -/
theorem sectionParser_eq_ok {p : Profile} {be : Bool} {data entry rest : Str} {e : EdtEntry}
    (hdata : data.length < 2 ^ 64) :
    sectionParser p be data entry = .ok (rest, e) ↔
      ∃ raw : RawEntry, raw.Shaped ∧ entry = raw.bytes ++ rest ∧ e.value = raw.value ∧
        raw.key.start be + raw.key.extent be ≤ data.length ∧
        fromUtf8 (field data (raw.key.start be) (raw.key.extent be)) = some e.key := by
  rw [sectionParser_eq]
  constructor
  · intro h
    obtain ⟨⟨entry₁, key⟩, hkey, hbody⟩ := bind_eq_ok.mp h
    rw [expect_eq_ok, dataParser_eq_ok] at hkey
    obtain ⟨hshaped, rfl⟩ := hkey
    dsimp only at hbody
    split_ifs at hbody with hseq
    rw [not_not] at hseq
    obtain ⟨name, hname, hbody⟩ := bind_eq_ok.mp hbody
    obtain ⟨⟨entry₂, value⟩, hvalue, hbody⟩ := bind_eq_ok.mp hbody
    cases hbody
    rw [expect_eq_ok, dataParser_eq_ok] at hvalue
    obtain ⟨hvshaped, rfl⟩ := hvalue
    obtain ⟨hfits, hdenotes⟩ := (keyString_eq_ok hdata hshaped hseq).mp hname
    refine ⟨⟨key, value⟩, ⟨hshaped, hseq, hvshaped⟩, ?_, rfl, hfits, hdenotes⟩
    rw [RawEntry.bytes, List.append_assoc]
  · rintro ⟨⟨key, value⟩, ⟨hshaped, hseq, hvshaped⟩, rfl, hvalue, hfits, hdenotes⟩
    have hname : keyString p be data key = .ok e.key :=
      (keyString_eq_ok hdata hshaped hseq).mpr ⟨hfits, hdenotes⟩
    have hkey : dataParser ((RawEntry.mk key value).bytes ++ rest) =
        .ok (value.bytes ++ rest, key) := by
      refine dataParser_eq_ok.mpr ⟨hshaped, ?_⟩
      rw [RawEntry.bytes, List.append_assoc]
    refine bind_eq_ok.mpr ⟨_, expect_eq_ok.mpr hkey, ?_⟩
    dsimp only
    rw [if_neg (not_not.mpr hseq)]
    refine bind_eq_ok.mpr ⟨_, hname, bind_eq_ok.mpr
      ⟨_, expect_eq_ok.mpr (dataParser_eq_ok.mpr ⟨hvshaped, rfl⟩), ?_⟩⟩
    rw [pure_eq_ok, ← hvalue]

/-- Records stand at the beginning of some bytes. -/
structure Stand (es : List RawEntry) (bs : Str) : Prop where
  shaped : ∀ e ∈ es, e.Shaped
  begins : ∃ rest, bs = es.flatMap RawEntry.bytes ++ rest

/-- **The loop over the records** goes through exactly where they stand and are readable. -/
theorem recordLoop_eq_ok {p : Profile} {be : Bool} {data : Str} (hdata : data.length < 2 ^ 64)
    {times : ℕ} {bs : Str} {s s' : Section} :
    recordLoop p be data times bs s = .ok s' ↔
      ∃ (es : List RawEntry) (entries : List (String × IRValue)), es.length = times ∧ Stand es bs ∧
        List.Forall₂ (RawEntry.Gives be data) es entries ∧
        s' = s.addEntries entries := by
  induction times generalizing bs s with
  | zero =>
    rw [recordLoop, Except.ok.injEq]
    constructor
    · rintro rfl
      exact ⟨[], [], rfl, ⟨fun e he => absurd he List.not_mem_nil, bs, rfl⟩, .nil, rfl⟩
    · rintro ⟨es, entries, hlen, -, hgives, rfl⟩
      rw [List.length_eq_zero_iff.mp hlen] at hgives
      cases hgives
      rfl
  | succ times ih =>
    constructor
    · intro h
      obtain ⟨⟨bs', e⟩, he, hbody⟩ := bind_eq_ok.mp h
      rw [expect_eq_ok, sectionParser_eq_ok hdata] at he
      obtain ⟨raw, hraw, rfl, hvalue, hfits, hkey⟩ := he
      obtain ⟨value, hv, hbody⟩ := bind_eq_ok.mp hbody
      obtain ⟨es, entries, rfl, ⟨hshaped, rest, rfl⟩, hgives, rfl⟩ := ih.mp hbody
      refine ⟨raw :: es, (e.key, value) :: entries, rfl, ⟨?_, rest, ?_⟩, .cons ?_ hgives, rfl⟩
      · exact List.forall_mem_cons.mpr ⟨hraw, hshaped⟩
      · rw [List.flatMap_cons, List.append_assoc]
      · exact ⟨hraw, hfits, hkey, hvalue ▸ hv⟩
    · rintro ⟨es, entries, hlen, ⟨hshaped, rest, rfl⟩, hgives, rfl⟩
      cases hgives with
      | nil => cases hlen
      | @cons raw entry es entries hentry hgives =>
        rw [List.forall_mem_cons] at hshaped
        have he : sectionParser p be data
            ((raw :: es).flatMap RawEntry.bytes ++ rest) =
              .ok (es.flatMap RawEntry.bytes ++ rest, ⟨entry.1, raw.value⟩) := by
          refine (sectionParser_eq_ok hdata).mpr ⟨raw, hshaped.1, ?_, rfl, hentry.fits, hentry.key⟩
          rw [List.flatMap_cons, List.append_assoc]
        refine bind_eq_ok.mpr ⟨_, expect_eq_ok.mpr he, bind_eq_ok.mpr ⟨_, hentry.value, ?_⟩⟩
        exact ih.mpr ⟨es, entries, Nat.succ.inj hlen, ⟨hshaped.2, rest, rfl⟩, hgives, rfl⟩

theorem settles_recordValue (be : Bool) (data : Str) (r : EdtRecord) :
    Settles (recordValue be data r) := by
  unfold recordValue
  split
  case h_9 =>
    refine (settles_orPanic _).bind fun _ _ => (settles_orPanic _).bind fun _ _ => ?_
    exact (settles_utf8OrPanic _).bind fun _ _ => settles_ok _
  all_goals first | exact settles_ok _ | exact settles_panics _ | exact settles_orPanic _

theorem settles_recordLoop (p : Profile) (be : Bool) (data : Str) (times : ℕ) (bs : Str)
    (s : Section) : Settles (recordLoop p be data times bs s) := by
  induction times generalizing bs s with
  | zero => exact settles_ok s
  | succ times ih =>
    exact (settles_expect _ _).bind fun _ _ => (settles_recordValue _ _ _).bind fun _ _ => ih _ _

/-! ## Sections -/

/-- The records of an entry of the table. -/
structure Holds (be : Bool) (f : Str) (i : EdtSectionEntry) (es : List RawEntry) : Prop where
  inside : numVal be i.offset ≤ f.length
  count : es.length = numVal be i.entryCount
  stand : Stand es (f.drop (numVal be i.offset))

theorem offsetProcess_eq_ok {be : Bool} {f offset out : Str} :
    offsetProcess be f offset = .ok out ↔
      numVal be offset ≤ f.length ∧ out = f.drop (numVal be offset) := by
  rw [offsetProcess, orPanic_eq_ok, sliceFrom]
  split_ifs with h
  · rw [Except.ok.injEq]
    exact ⟨fun hout => ⟨h, hout.symm⟩, fun hout => hout.2.symm⟩
  · refine iff_of_false ?_ fun h' => h h'.1
    intro h'
    cases h'

/-- **The section of an entry** is built from its records. -/
theorem parseSection_eq_ok {p : Profile} {be : Bool} {f data : Str} {i : EdtSectionEntry}
    (hdata : data.length < 2 ^ 64) {s : Section} :
    parseSection p be f data i = .ok s ↔
      ∃ (name : String) (es : List RawEntry) (entries : List (String × IRValue)),
        fromUtf8 i.name = some name ∧ Holds be f i es ∧
        List.Forall₂ (RawEntry.Gives be data) es entries ∧
        s = (Section.new name).addEntries entries := by
  constructor
  · intro h
    obtain ⟨name, hname, hbody⟩ := bind_eq_ok.mp h
    obtain ⟨bs, hbs, hbody⟩ := bind_eq_ok.mp hbody
    obtain ⟨hinside, rfl⟩ := offsetProcess_eq_ok.mp hbs
    obtain ⟨es, entries, hlen, hstand, hgives, rfl⟩ := (recordLoop_eq_ok hdata).mp hbody
    exact ⟨name, es, entries, utf8OrPanic_eq_ok.mp hname, ⟨hinside, hlen, hstand⟩, hgives, rfl⟩
  · rintro ⟨name, es, entries, hname, ⟨hinside, hlen, hstand⟩, hgives, rfl⟩
    refine bind_eq_ok.mpr ⟨name, utf8OrPanic_eq_ok.mpr hname, bind_eq_ok.mpr
      ⟨_, offsetProcess_eq_ok.mpr ⟨hinside, rfl⟩, ?_⟩⟩
    exact (recordLoop_eq_ok hdata).mpr ⟨es, entries, hlen, hstand, hgives, rfl⟩

theorem settles_parseSection (p : Profile) (be : Bool) (f data : Str) (i : EdtSectionEntry) :
    Settles (parseSection p be f data i) :=
  (settles_utf8OrPanic _).bind fun _ _ => (settles_orPanic _).bind fun _ _ =>
    settles_recordLoop _ _ _ _ _ _

/-! ## The header and the table -/

structure HeaderOk (f : Str) : Prop where
  length : 24 ≤ f.length
  magic : f.take 4 = lit "edtf"
  fileType : field f 4 1 = [0]
  apiVersion : field f 5 1 = [0]
  endian : field f 6 1 = [0] ∨ field f 6 1 = [1]
  zero : field f 23 1 = [0]

def headerOf (f : Str) : EdtHeader :=
  ⟨field f 4 1, field f 5 1, field f 6 1, field f 7 8, field f 15 8⟩

theorem headerParser_eq_ok {f rest : Str} {h : EdtHeader} :
    headerParser f = .ok (rest, h) ↔ HeaderOk f ∧ rest = f.drop 24 ∧ h = headerOf f := by
  have hlit : (lit "edtf").length = 4 := rfl
  constructor
  · intro hparse
    obtain ⟨⟨f₁, x₁⟩, h₁, hbody⟩ := bind_eq_ok.mp hparse
    obtain ⟨⟨f₂, x₂⟩, h₂, hbody⟩ := bind_eq_ok.mp hbody
    dsimp only at hbody
    split_ifs at hbody with hfile
    obtain ⟨⟨f₃, x₃⟩, h₃, hbody⟩ := bind_eq_ok.mp hbody
    dsimp only at hbody
    split_ifs at hbody with hversion
    obtain ⟨⟨f₄, x₄⟩, h₄, hbody⟩ := bind_eq_ok.mp hbody
    dsimp only at hbody
    split_ifs at hbody with hendian
    obtain ⟨⟨f₅, x₅⟩, h₅, hbody⟩ := bind_eq_ok.mp hbody
    obtain ⟨⟨f₆, x₆⟩, h₆, hbody⟩ := bind_eq_ok.mp hbody
    obtain ⟨⟨f₇, x₇⟩, h₇, hbody⟩ := bind_eq_ok.mp hbody
    cases hbody
    obtain ⟨hmagic, rfl, -⟩ := tag_eq_ok_iff.mp h₁
    obtain ⟨-, rfl, rfl⟩ := take_eq_ok.mp h₂
    obtain ⟨-, rfl, rfl⟩ := take_eq_ok.mp h₃
    obtain ⟨-, rfl, rfl⟩ := take_eq_ok.mp h₄
    obtain ⟨-, rfl, rfl⟩ := take_eq_ok.mp h₅
    obtain ⟨-, rfl, rfl⟩ := take_eq_ok.mp h₆
    obtain ⟨hzero, rfl, -⟩ := tag_eq_ok_iff.mp h₇
    rw [not_not] at hfile hversion
    have hlen := congrArg List.length hzero
    simp only [List.drop_drop, hlit, List.length_take, List.length_drop, List.length_singleton,
      Nat.reduceAdd] at hfile hversion hendian hzero hlen
    refine ⟨⟨by omega, hmagic, hfile, hversion, hendian, hzero⟩, ?_, ?_⟩
    · simp only [List.drop_drop, hlit, List.length_singleton, Nat.reduceAdd]
    · simp only [headerOf, field, List.drop_drop, hlit, Nat.reduceAdd]
  · rintro ⟨hok, rfl, rfl⟩
    have hlen := hok.length
    have hmagic : tag (lit "edtf") f = .ok (f.drop 4, lit "edtf") :=
      tag_eq_ok_iff.mpr ⟨hok.magic, rfl, rfl⟩
    have hzero : tag [0] (f.drop 23) = .ok (f.drop 24, [0]) := by
      refine tag_eq_ok_iff.mpr ⟨hok.zero, ?_, rfl⟩
      rw [List.drop_drop]
      rfl
    rw [headerParser, hmagic, ok_bind]
    dsimp only
    rw [take_field (by omega), ok_bind]
    dsimp only
    rw [if_neg (not_not.mpr hok.fileType), take_field (by omega), ok_bind]
    dsimp only
    rw [if_neg (not_not.mpr hok.apiVersion), take_field (by omega), ok_bind]
    dsimp only
    rw [if_neg (not_not.mpr hok.endian), take_field (by omega), ok_bind]
    dsimp only
    rw [take_field (by omega), ok_bind]
    dsimp only
    rw [hzero]
    rfl

/-- The order of the bytes that the header gives. -/
def bigEndian (f : Str) : Bool := decide (field f 6 1 = [1])

def tablePos (f : Str) : ℕ := numVal (bigEndian f) (field f 7 8)

def tableCount (f : Str) : ℕ := numVal (bigEndian f) (field f (tablePos f) 8)

def tableOf (f : Str) : List EdtSectionEntry :=
  (List.range (tableCount f)).map fun i => entryAt (f.drop (tablePos f + 8 + 38 * i))

theorem sectionEntryParser_eq_ok {input rest : Str} {e : EdtSectionEntry} :
    sectionEntryParser input = .ok (rest, e) ↔
      38 ≤ input.length ∧ rest = input.drop 38 ∧ e = entryAt input := by
  refine ⟨sectionEntryParser_eq, ?_⟩
  rintro ⟨hlen, rfl, rfl⟩
  have hfirst : take 17 input = .ok (input.drop 17, field input 0 17) :=
    take_eq_ok.mpr ⟨by omega, rfl, rfl⟩
  rw [sectionEntryParser, hfirst, ok_bind]
  dsimp only
  rw [take_field (by omega), ok_bind]
  dsimp only
  rw [take_field (by omega), ok_bind]
  dsimp only
  rw [take_field (by omega), ok_bind]
  dsimp only
  rw [take_field (by omega)]
  rfl

theorem sectionHeaderParser_eq_ok {f : Str} (hpos : tablePos f ≤ f.length) {rest : Str}
    {table : EdtSectionHeader} :
    sectionHeaderParser (bigEndian f) (f.drop (tablePos f)) = .ok (rest, table) ↔
      tablePos f + 8 + 38 * tableCount f ≤ f.length ∧
        rest = f.drop (tablePos f + 8 + 38 * tableCount f) ∧
        table = ⟨field f (tablePos f) 8, tableOf f⟩ := by
  have hentries : ((List.range (tableCount f)).map fun i =>
      entryAt (((f.drop (tablePos f)).drop 8).drop (38 * i))) = tableOf f := by
    refine List.map_congr_left fun i _ => ?_
    rw [List.drop_drop, List.drop_drop, Nat.add_assoc]
  constructor
  · intro h
    obtain ⟨⟨f₁, sectionCount⟩, hcount, hbody⟩ := bind_eq_ok.mp h
    obtain ⟨h8, rfl, rfl⟩ := take_eq_ok.mp hcount
    obtain ⟨⟨f₂, entries⟩, hentry, hbody⟩ := bind_eq_ok.mp hbody
    cases hbody
    obtain ⟨hlen, rfl, rfl⟩ :=
      (count_eq_ok fun _ _ _ => sectionEntryParser_eq_ok).mp (expect_eq_ok.mp hentry)
    rw [show numVal (bigEndian f) (List.take 8 (f.drop (tablePos f))) = tableCount f from rfl]
      at hlen ⊢
    rw [List.length_drop] at h8
    rw [List.length_drop, List.length_drop] at hlen
    refine ⟨by omega, ?_, ?_⟩
    · rw [List.drop_drop, List.drop_drop, Nat.add_assoc]
    · rw [hentries]
      rfl
  · rintro ⟨hlen, rfl, rfl⟩
    refine bind_eq_ok.mpr ⟨_, take_field (by omega), bind_eq_ok.mpr
      ⟨(f.drop (tablePos f + 8 + 38 * tableCount f), tableOf f), expect_eq_ok.mpr ?_, rfl⟩⟩
    refine (count_eq_ok fun _ _ _ => sectionEntryParser_eq_ok).mpr ⟨?_, ?_, ?_⟩
    · show 38 * tableCount f ≤ (f.drop (tablePos f + 8)).length
      rw [List.length_drop]
      omega
    · show _ = (f.drop (tablePos f + 8)).drop (38 * tableCount f)
      rw [List.drop_drop]
    · rw [← hentries]
      refine List.map_congr_left fun i _ => ?_
      simp only [List.drop_drop, Nat.add_assoc]

/-! ## Files -/

/-- The entry of the strings. -/
def descriptionOf (f : Str) : Option EdtSectionEntry := (tableOf f).find? isDataEntry

/-- The strings of a file. -/
def dataOf (f : Str) : Str :=
  match descriptionOf f with
  | none => []
  | some description => f.drop (numVal (bigEndian f) description.offset)

/-- The file can be read as a text. -/
def Readable (f : Str) : Prop := f.length < 2 ^ 47 ∧ (fromUtf8 f).isSome

structure TableOk (f : Str) : Prop where
  header : HeaderOk f
  table : tablePos f + 8 + 38 * tableCount f ≤ f.length
  data : ∃ description, descriptionOf f = some description ∧
    numVal (bigEndian f) description.offset ≤ f.length

theorem readToString_eq_ok {f out : Str} : readToString f = .ok out ↔ Readable f ∧ out = f := by
  unfold readToString Readable
  split_ifs with h
  · rw [Except.ok.injEq]
    exact ⟨fun hout => ⟨h, hout.symm⟩, fun hout => hout.2.symm⟩
  · exact iff_of_false (fun h' => nomatch h') fun h' => h h'.1

theorem dataOf_eq {f : Str} {description : EdtSectionEntry}
    (h : descriptionOf f = some description) :
    dataOf f = f.drop (numVal (bigEndian f) description.offset) := by
  rw [dataOf, h]

theorem length_dataOf_le (f : Str) : (dataOf f).length ≤ f.length := by
  cases h : descriptionOf f with
  | none =>
    rw [dataOf, h]
    exact Nat.zero_le _
  | some description =>
    rw [dataOf_eq h, List.length_drop]
    omega

/-- **Exactly what is parsed**: the sections of the entries of the table. -/
theorem parse_eq_ok {p : Profile} {f : Str} {sections : List Section} :
    parse p f = .ok sections ↔ Readable f ∧ TableOk f ∧
      List.Forall₂ (fun i s => parseSection p (bigEndian f) f (dataOf f) i = .ok s)
        ((tableOf f).filter fun i => !isDataEntry i) sections := by
  constructor
  · intro h
    obtain ⟨edtf, hread, hbody⟩ := bind_eq_ok.mp h
    obtain ⟨hreadable, rfl⟩ := readToString_eq_ok.mp hread
    obtain ⟨⟨f₁, header⟩, hheader, hbody⟩ := bind_eq_ok.mp hbody
    obtain ⟨hok, rfl, rfl⟩ := headerParser_eq_ok.mp (expect_eq_ok.mp hheader)
    obtain ⟨f₂, hoffset, hbody⟩ := bind_eq_ok.mp hbody
    obtain ⟨hpos, rfl⟩ := offsetProcess_eq_ok.mp hoffset
    obtain ⟨⟨f₃, table⟩, htable, hbody⟩ := bind_eq_ok.mp hbody
    obtain ⟨hlen, rfl, rfl⟩ := (sectionHeaderParser_eq_ok hpos).mp (expect_eq_ok.mp htable)
    dsimp only at hbody
    rw [← descriptionOf] at hbody
    cases hdata : descriptionOf edtf with
    | none =>
      rw [hdata] at hbody
      cases hbody
    | some description =>
      rw [hdata] at hbody
      obtain ⟨data, hstrings, hbody⟩ := bind_eq_ok.mp hbody
      obtain ⟨hinside, rfl⟩ := offsetProcess_eq_ok.mp hstrings
      refine ⟨hreadable, ⟨hok, hlen, description, hdata, hinside⟩, ?_⟩
      rw [dataOf_eq hdata]
      exact mapM_eq_ok.mp hbody
  · rintro ⟨hreadable, ⟨hok, hlen, description, hdata, hinside⟩, hsections⟩
    have hpos : tablePos f ≤ f.length := by omega
    refine bind_eq_ok.mpr ⟨f, readToString_eq_ok.mpr ⟨hreadable, rfl⟩, bind_eq_ok.mpr
      ⟨_, expect_eq_ok.mpr (headerParser_eq_ok.mpr ⟨hok, rfl, rfl⟩), bind_eq_ok.mpr
        ⟨_, offsetProcess_eq_ok.mpr ⟨hpos, rfl⟩, bind_eq_ok.mpr
          ⟨_, expect_eq_ok.mpr ((sectionHeaderParser_eq_ok hpos).mpr ⟨hlen, rfl, rfl⟩), ?_⟩⟩⟩⟩
    dsimp only
    rw [← descriptionOf, hdata]
    rw [dataOf_eq hdata] at hsections
    exact bind_eq_ok.mpr ⟨_, offsetProcess_eq_ok.mpr ⟨hinside, rfl⟩, mapM_eq_ok.mpr hsections⟩

/-- **Both profiles parse a file alike**: no addition of what is parsed wraps around. -/
theorem parse_profile_iff (p q : Profile) {f : Str} {sections : List Section} :
    parse p f = .ok sections ↔ parse q f = .ok sections := by
  rw [parse_eq_ok, parse_eq_ok]
  refine and_congr_right fun hreadable => ?_
  have hdata : (dataOf f).length < 2 ^ 64 := by
    have hle := length_dataOf_le f
    have hlt := hreadable.1
    omega
  simp only [parseSection_eq_ok hdata]

theorem settles_parse {p : Profile} {f : Str} (h : Readable f) : Settles (parse p f) := by
  rw [parse, readToString_eq_ok.mpr ⟨h, rfl⟩, ok_bind]
  refine (settles_expect _ _).bind fun header _ => (settles_orPanic _).bind fun _ _ =>
    (settles_expect _ _).bind fun table _ => ?_
  dsimp only
  cases table.2.entry.find? isDataEntry with
  | none => exact settles_panics _
  | some description =>
    exact (settles_orPanic _).bind fun _ _ =>
      Settles.mapM (fun i => settles_parseSection _ _ _ _ i) _

/-! ## Well-formed files -/

/-- A value that can be read: a float is not a NaN, and a string lies in the strings, from its
offset as far as the offset is from their beginning. -/
structure ValueOk (be : Bool) (data : Str) (r : EdtRecord) : Prop where
  single : r.dataType = [1] → r.length = [4] → nan32 (numVal be r.value).toUInt32 = false
  double : r.dataType = [1] → r.length = [8] → nan64 (beVal r.value).toUInt64 = false
  seq : r.dataType = [2] → 2 * r.start be ≤ data.length ∧
    (fromUtf8 (field data (r.start be) (r.start be))).isSome

structure EntryOk (be : Bool) (data : Str) (e : RawEntry) : Prop where
  fits : e.key.start be + e.key.extent be ≤ data.length
  key : (fromUtf8 (field data (e.key.start be) (e.key.extent be))).isSome
  value : ValueOk be data e.value

structure SectionOk (f : Str) (i : EdtSectionEntry) : Prop where
  name : (fromUtf8 i.name).isSome
  records : ∃ es, Holds (bigEndian f) f i es ∧ ∀ e ∈ es, EntryOk (bigEndian f) (dataOf f) e

/-- The files that are parsed. -/
structure WellFormed (f : Str) : Prop where
  table : TableOk f
  sections : ∀ i ∈ tableOf f, isDataEntry i = false → SectionOk f i

theorem ofF32_isOk_iff {bits : UInt32} :
    (∃ v, orPanic (IRValue.ofF32 bits) = .ok v) ↔ nan32 bits = false := by
  unfold IRValue.ofF32
  split_ifs with h
  · exact iff_of_true ⟨_, rfl⟩ h
  · exact iff_of_false (fun ⟨_, hv⟩ => nomatch hv) h

theorem ofF64_isOk_iff {bits : UInt64} :
    (∃ v, orPanic (IRValue.ofF64 bits) = .ok v) ↔ nan64 bits = false := by
  unfold IRValue.ofF64
  split_ifs with h
  · exact iff_of_true ⟨_, rfl⟩ h
  · exact iff_of_false (fun ⟨_, hv⟩ => nomatch hv) h

/-- The string that is read of a string value. -/
theorem recordValue_seq {be : Bool} {data length value : Str} {v : IRValue} :
    recordValue be data ⟨[2], length, value⟩ = .ok v ↔
      ∃ s, 2 * numVal be value ≤ data.length ∧
        fromUtf8 (field data (numVal be value) (numVal be value)) = some s ∧ v = .seq s := by
  have hdo : recordValue be data ⟨[2], length, value⟩ =
      offsetProcess be data value >>= fun dataPosition =>
        orPanic (slice dataPosition 0 (numVal be value)) >>= fun valueBytes =>
          utf8OrPanic valueBytes >>= fun s => .ok (.seq s) := rfl
  have hfield : field (data.drop (numVal be value)) 0 (numVal be value - 0) =
      field data (numVal be value) (numVal be value) := by
    rw [Nat.sub_zero, field_drop, Nat.add_zero]
  rw [hdo]
  constructor
  · intro h
    obtain ⟨dataPosition, hposition, hbody⟩ := bind_eq_ok.mp h
    obtain ⟨hinside, rfl⟩ := offsetProcess_eq_ok.mp hposition
    obtain ⟨valueBytes, hslice, hbody⟩ := bind_eq_ok.mp hbody
    obtain ⟨-, hlen, rfl⟩ := slice_eq_ok.mp (orPanic_eq_ok.mp hslice)
    obtain ⟨s, hs, hbody⟩ := bind_eq_ok.mp hbody
    cases hbody
    rw [List.length_drop] at hlen
    rw [utf8OrPanic_eq_ok, hfield] at hs
    exact ⟨s, by omega, hs, rfl⟩
  · rintro ⟨s, hinside, hs, rfl⟩
    refine bind_eq_ok.mpr ⟨_, offsetProcess_eq_ok.mpr ⟨by omega, rfl⟩, bind_eq_ok.mpr
      ⟨_, orPanic_eq_ok.mpr (slice_eq_ok.mpr ⟨Nat.zero_le _, ?_, rfl⟩), bind_eq_ok.mpr
        ⟨s, ?_, rfl⟩⟩⟩
    · rw [List.length_drop]
      omega
    · rw [utf8OrPanic_eq_ok, hfield]
      exact hs

/-- The types of a value differ, and so do the widths of a float. -/
theorem tags_ne : ([0] : Str) ≠ [1] ∧ ([0] : Str) ≠ [2] ∧ ([1] : Str) ≠ [2] ∧
    ([4] : Str) ≠ [8] := by
  decide

theorem recordValue_isOk_iff {be : Bool} {data : Str} {r : EdtRecord} (h : r.Shaped) :
    (∃ v, recordValue be data r = .ok v) ↔ ValueOk be data r := by
  obtain ⟨h01, h02, h12, h48⟩ := tags_ne
  cases h with
  | @integer width value hwidth hvalue =>
    have hnone : ValueOk be data ⟨[0], [width], value⟩ :=
      ⟨fun h => absurd h h01, fun h => absurd h h01, fun h => absurd h h02⟩
    have hwidths : width = 1 ∨ width = 2 ∨ width = 4 ∨ width = 8 := by simpa using hwidth
    rcases hwidths with rfl | rfl | rfl | rfl <;> exact iff_of_true ⟨_, rfl⟩ hnone
  | @floating width value hwidth hvalue =>
    have hwidths : width = 4 ∨ width = 8 := by simpa using hwidth
    rcases hwidths with rfl | rfl
    · refine ofF32_isOk_iff.trans ⟨fun h => ⟨fun _ _ => h, ?_, ?_⟩, fun h => h.single rfl rfl⟩
      · exact fun _ h => absurd h h48
      · exact fun h => absurd h h12
    · refine ofF64_isOk_iff.trans ⟨fun h => ⟨?_, fun _ _ => h, ?_⟩, fun h => h.double rfl rfl⟩
      · exact fun _ h => absurd h h48.symm
      · exact fun h => absurd h h12
  | @seq length value hlength hvalue =>
    constructor
    · rintro ⟨v, hv⟩
      obtain ⟨s, hinside, hs, -⟩ := recordValue_seq.mp hv
      refine ⟨fun h => absurd h h12.symm, fun h => absurd h h12.symm, fun _ => ⟨hinside, ?_⟩⟩
      exact Option.isSome_iff_exists.mpr ⟨s, hs⟩
    · intro h
      obtain ⟨hinside, hsome⟩ := h.seq rfl
      obtain ⟨s, hs⟩ := Option.isSome_iff_exists.mp hsome
      exact ⟨_, recordValue_seq.mpr ⟨s, hinside, hs, rfl⟩⟩

theorem exists_gives_iff {be : Bool} {data : Str} {e : RawEntry} :
    (∃ entry, e.Gives be data entry) ↔ e.Shaped ∧ EntryOk be data e := by
  constructor
  · rintro ⟨entry, hshaped, hfits, hkey, hvalue⟩
    exact ⟨hshaped, hfits, Option.isSome_iff_exists.mpr ⟨_, hkey⟩,
      (recordValue_isOk_iff hshaped.value).mp ⟨_, hvalue⟩⟩
  · rintro ⟨hshaped, hfits, hkey, hvalue⟩
    obtain ⟨key, hkey⟩ := Option.isSome_iff_exists.mp hkey
    obtain ⟨value, hvalue⟩ := (recordValue_isOk_iff hshaped.value).mpr hvalue
    exact ⟨(key, value), hshaped, hfits, hkey, hvalue⟩

theorem parseSection_isOk_iff {p : Profile} {f : Str} (hf : f.length < 2 ^ 47)
    {i : EdtSectionEntry} :
    (∃ s, parseSection p (bigEndian f) f (dataOf f) i = .ok s) ↔ SectionOk f i := by
  have hdata : (dataOf f).length < 2 ^ 64 := by
    have := length_dataOf_le f
    omega
  simp only [parseSection_eq_ok hdata]
  constructor
  · rintro ⟨s, name, es, entries, hname, hholds, hgives, -⟩
    refine ⟨Option.isSome_iff_exists.mpr ⟨name, hname⟩, es, hholds, fun e he => ?_⟩
    exact (exists_gives_iff.mp (exists_forall₂_iff.mp ⟨entries, hgives⟩ e he)).2
  · rintro ⟨hname, es, hholds, hok⟩
    obtain ⟨name, hname⟩ := Option.isSome_iff_exists.mp hname
    obtain ⟨entries, hgives⟩ := exists_forall₂_iff.mpr fun e he =>
      exists_gives_iff.mpr ⟨hholds.stand.shaped e he, hok e he⟩
    exact ⟨_, name, es, entries, hname, hholds, hgives, rfl⟩

/-- **The files that are parsed** are the well-formed ones. -/
theorem parse_isOk_iff {p : Profile} {f : Str} (h : Readable f) :
    (∃ sections, parse p f = .ok sections) ↔ WellFormed f := by
  simp only [parse_eq_ok, h, true_and]
  constructor
  · rintro ⟨sections, htable, hsections⟩
    refine ⟨htable, fun i hi hdata => (parseSection_isOk_iff (p := p) h.1).mp ?_⟩
    exact exists_forall₂_iff.mp ⟨sections, hsections⟩ i (List.mem_filter.mpr ⟨hi, by simp [hdata]⟩)
  · rintro ⟨htable, hok⟩
    have hsections : ∀ i ∈ (tableOf f).filter fun i => !isDataEntry i,
        ∃ s, parseSection p (bigEndian f) f (dataOf f) i = .ok s := by
      intro i hi
      rw [List.mem_filter] at hi
      exact (parseSection_isOk_iff h.1).mpr (hok i hi.1 (by simpa using hi.2))
    obtain ⟨sections, hsections⟩ := exists_forall₂_iff.mpr hsections
    exact ⟨sections, htable, hsections⟩

/-- **The parser panics** on every file that can be read and is not well formed. -/
theorem edt_panics_iff (p : Profile) (f : Str) :
    ¬Panics (parse p f) ↔ ¬Readable f ∨ WellFormed f := by
  by_cases h : Readable f
  · rw [(settles_parse h).not_panics_iff, parse_isOk_iff h]
    exact ⟨.inr, fun hf => hf.resolve_left (not_not.mpr h)⟩
  · have herror : parse p f = .error .error := by
      have hread : readToString f = .error .error := if_neg h
      rw [parse, hread]
      rfl
    rw [herror]
    exact iff_of_true not_panics_error (.inl h)

/-- An empty file panics. -/
theorem empty_panics : Panics (parse .debug []) ∧ Panics (parse .release []) :=
  ⟨⟨_, rfl⟩, ⟨_, rfl⟩⟩

end Jxtd.Engug
