import Jxtd.Engug.Writer
import Jxtd.Lib.Nom

/-!
# The parser of EDT files

`EdtParser::parse` reads the header, the table of the sections, finds the entry of the strings, and
reads the records of every other entry. It returns an error only when the file cannot be read; a
parser that fails makes it panic.

* `headerParser`, `sectionHeaderParser`, `dataParser`, `sectionParser`: the parsers of the parts.
* `parse`: the whole file.
* **`parse_written`**: what is read behind a written header when `parse` returns sections.
-/

namespace Jxtd.Engug

open Lib

structure EdtHeader where
  fileType : Str
  apiVersion : Str
  endian : Str
  offset : Str
  size : Str
  deriving DecidableEq

structure EdtSectionEntry where
  name : Str
  sectionType : Str
  offset : Str
  size : Str
  entryCount : Str
  deriving DecidableEq

structure EdtSectionHeader where
  count : Str
  entry : List EdtSectionEntry
  deriving DecidableEq

/-- A typed value as it stands in the file. -/
structure EdtRecord where
  dataType : Str
  length : Str
  value : Str
  deriving DecidableEq

structure EdtEntry where
  key : String
  value : EdtRecord
  deriving DecidableEq

/-! ## The header and the table -/

def headerParser (header : Str) : Except Fail (Str × EdtHeader) := do
  let (header, _) ← tag (lit "edtf") header
  let (header, fileType) ← take 1 header
  if fileType ≠ [0] then .error .failure else
  let (header, apiVersion) ← take 1 header
  if apiVersion ≠ [0] then .error .failure else
  let (header, endian) ← take 1 header
  if ¬(endian = [0] ∨ endian = [1]) then .error .failure else
  let (header, offset) ← take 8 header
  let (header, size) ← take 8 header
  let (header, _) ← tag [0] header
  return (header, ⟨fileType, apiVersion, endian, offset, size⟩)

def sectionEntryParser (input : Str) : Except Fail (Str × EdtSectionEntry) := do
  let (input, name) ← take 17 input
  let (input, sectionType) ← take 1 input
  let (input, offset) ← take 8 input
  let (input, size) ← take 8 input
  let (input, entryCount) ← take 4 input
  return (input, ⟨name, sectionType, offset, size, entryCount⟩)

def sectionHeaderParser (be : Bool) (input : Str) : Except Fail (Str × EdtSectionHeader) := do
  let (input, sectionCount) ← take 8 input
  let (input, entry) ← expect "Error occurred when try to parse section entry"
    (count sectionEntryParser (numVal be sectionCount) input)
  return (input, ⟨sectionCount, entry⟩)

/-! ## The records -/

/-- The length byte and the bytes of a number whose width is one of `widths`. -/
def numberParser (widths : List UInt8) (dataType data : Str) : Except Fail (Str × EdtRecord) := do
  let (data, length) ← take 1 data
  match length with
  | [width] =>
    if width ∈ widths then
      let (data, value) ← take width.toNat data
      return (data, ⟨dataType, length, value⟩)
    else .error .failure
  | _ => .error .failure

def dataParser (data : Str) : Except Fail (Str × EdtRecord) := do
  let (data, dataType) ← take 1 data
  match dataType with
  | [0] => numberParser [1, 2, 4, 8] dataType data
  | [1] => numberParser [4, 8] dataType data
  | [2] =>
    let (data, length) ← take 8 data
    let (data, value) ← take 8 data
    return (data, ⟨dataType, length, value⟩)
  | _ => .error .failure

/-- `from_utf8(..).unwrap()`. -/
def utf8OrPanic (bs : Str) : Except Fail String :=
  match fromUtf8 bs with
  | some s => .ok s
  | none => .error (.panics "called `Result::unwrap()` on an `Err` value: Utf8Error")

/-- One record: the key is the string of its extent in the strings of the file. -/
def sectionParser (p : Profile) (be : Bool) (dataSection entry : Str) :
    Except Fail (Str × EdtEntry) := do
  let (entry, key) ← expect "Error occurred when try to parse the key of the section"
    (dataParser entry)
  if key.dataType ≠ [2] then .error .failure else
  let start := numVal be key.value
  let stop ← orPanic (p.add 64 start (numVal be key.length))
  let target ← orPanic (slice dataSection start stop)
  let name ← utf8OrPanic target
  let (entry, value) ← expect "Error occurred when try to parse the value of the section"
    (dataParser entry)
  return (entry, ⟨name, value⟩)

/-- `&edtf[begin..]`, where `begin` is the number in the given field. -/
def offsetProcess (be : Bool) (edtf offset : Str) : Except Fail Str :=
  orPanic (sliceFrom edtf (numVal be offset))

/-- The value of a record. The bytes of a 64-bit float are read as big-endian, and the extent of a
string ends as far behind its beginning as this is behind the beginning of the strings. -/
def recordValue (be : Bool) (dataSection : Str) (r : EdtRecord) : Except Fail IRValue :=
  match r.dataType, r.length with
  | [0], [1] => .ok (.integer (.byte (beVal r.value).toUInt8))
  | [0], [2] => .ok (.integer (.word (numVal be r.value).toUInt16))
  | [0], [4] => .ok (.integer (.double (numVal be r.value).toUInt32))
  | [0], [8] => .ok (.integer (.quad (numVal be r.value).toUInt64))
  | [0], _ => .error (.panics "Error occurred when try to check the length of the data")
  | [1], [4] => orPanic (IRValue.ofF32 (numVal be r.value).toUInt32)
  | [1], [8] => orPanic (IRValue.ofF64 (beVal r.value).toUInt64)
  | [1], _ => .error (.panics "Error occurred when try to check the length of the data")
  | [2], _ => do
    let dataPosition ← offsetProcess be dataSection r.value
    let valueBytes ← orPanic (slice dataPosition 0 (numVal be r.value))
    let value ← utf8OrPanic valueBytes
    return .seq value
  | _, _ => .error (.panics "Error occurred when try to check the type of the data")

/-- The loop over the records of a section. -/
def recordLoop (p : Profile) (be : Bool) (dataSection : Str) :
    ℕ → Str → Section → Except Fail Section
  | 0, _, s => .ok s
  | times + 1, entry, s => do
    let (entry, e) ← expect "Error occurred when try to parse the entry"
      (sectionParser p be dataSection entry)
    let value ← recordValue be dataSection e.value
    recordLoop p be dataSection times entry (s.addEntry e.key value)

/-- The section of an entry of the table. -/
def parseSection (p : Profile) (be : Bool) (edtf dataSection : Str) (i : EdtSectionEntry) :
    Except Fail Section := do
  let name ← utf8OrPanic i.name
  let entry ← offsetProcess be edtf i.offset
  recordLoop p be dataSection (numVal be i.entryCount) entry (.new name)

/-! ## The file -/

/-- `read_to_string` fails on a file that is not UTF-8, and on one that the address space of `2 ^ 47`
bytes does not hold. -/
def readToString (file : Str) : Except Fail Str :=
  if file.length < 2 ^ 47 ∧ (fromUtf8 file).isSome then .ok file else .error .error

def isDataEntry (i : EdtSectionEntry) : Bool := i.sectionType = [2]

/-- `EdtParser::parse`. -/
def parse (p : Profile) (file : Str) : Except Fail (List Section) := do
  let edtf ← readToString file
  let (_, header) ← expect "Error occurred when try to parse the header" (headerParser edtf)
  let be := decide (header.endian = [1])
  let sectionHeader ← offsetProcess be edtf header.offset
  let (_, table) ← expect "Error occurred when try to parse the section header"
    (sectionHeaderParser be sectionHeader)
  match table.entry.find? isDataEntry with
  | none => .error (.panics "Error occurred when try to find data section")
  | some description =>
    let dataSection ← offsetProcess be edtf description.offset
    (table.entry.filter fun i => !isDataEntry i).mapM (parseSection p be edtf dataSection)

/-! ## What is read -/

/-- The entry of the table that is read from the beginning of some bytes. -/
def entryAt (bs : Str) : EdtSectionEntry :=
  ⟨field bs 0 17, field bs 17 1, field bs 18 8, field bs 26 8, field bs 34 4⟩

theorem sectionEntryParser_eq {input rest : Str} {e : EdtSectionEntry}
    (h : sectionEntryParser input = .ok (rest, e)) :
    38 ≤ input.length ∧ rest = input.drop 38 ∧ e = entryAt input := by
  obtain ⟨⟨i₁, x₁⟩, h₁, h⟩ := bind_eq_ok.mp h
  obtain ⟨⟨i₂, x₂⟩, h₂, h⟩ := bind_eq_ok.mp h
  obtain ⟨⟨i₃, x₃⟩, h₃, h⟩ := bind_eq_ok.mp h
  obtain ⟨⟨i₄, x₄⟩, h₄, h⟩ := bind_eq_ok.mp h
  obtain ⟨⟨i₅, x₅⟩, h₅, h⟩ := bind_eq_ok.mp h
  cases h
  obtain ⟨-, rfl, rfl⟩ := take_eq_ok.mp h₁
  obtain ⟨-, rfl, rfl⟩ := take_eq_ok.mp h₂
  obtain ⟨-, rfl, rfl⟩ := take_eq_ok.mp h₃
  obtain ⟨-, rfl, rfl⟩ := take_eq_ok.mp h₄
  obtain ⟨hlen, rfl, rfl⟩ := take_eq_ok.mp h₅
  simp only [List.length_drop] at hlen
  refine ⟨by omega, by simp only [List.drop_drop], ?_⟩
  simp only [entryAt, field, List.drop_drop, List.drop_zero]

/-- A written header is read back. -/
theorem headerParser_written (be : Bool) (nums : ℕ) (rest : Str) :
    headerParser (writeHeader be nums ++ rest) =
      .ok (rest, ⟨[0], [0], [if be then 1 else 0], numBytes be 8 24,
        numBytes be 8 (1 + 38 * (nums + 1))⟩) := by
  have hend : [if be then (1 : UInt8) else 0] = [0] ∨ [if be then (1 : UInt8) else 0] = [1] := by
    cases be
    · exact .inl rfl
    · exact .inr rfl
  have hheader : writeHeader be nums ++ rest = lit "edtf" ++ ([0] ++ ([0] ++
      ([if be then 1 else 0] ++ (numBytes be 8 24 ++ (numBytes be 8 (1 + 38 * (nums + 1)) ++
        ([0] ++ rest)))))) := by
    simp [writeHeader]
  rw [hheader, headerParser, tag_append, ok_bind]
  simp only [take_one, ok_bind, ne_eq, not_true_eq_false, if_false, hend,
    take_append (length_numBytes be 8 _), tag_append, pure_eq_ok]

theorem recordLoop_name {p : Profile} {be : Bool} {dataSection : Str} {times : ℕ} {entry : Str}
    {s s' : Section} (h : recordLoop p be dataSection times entry s = .ok s') :
    s'.name = s.name := by
  induction times generalizing entry s with
  | zero =>
    cases h
    rfl
  | succ times ih =>
    obtain ⟨⟨entry', e⟩, -, h⟩ := bind_eq_ok.mp h
    obtain ⟨value, -, h⟩ := bind_eq_ok.mp h
    rw [ih h]
    rfl

theorem parseSection_name {p : Profile} {be : Bool} {edtf dataSection : Str} {i : EdtSectionEntry}
    {s : Section} (h : parseSection p be edtf dataSection i = .ok s) : bytes s.name = i.name := by
  obtain ⟨name, hname, h⟩ := bind_eq_ok.mp h
  obtain ⟨entry, -, h⟩ := bind_eq_ok.mp h
  unfold utf8OrPanic at hname
  split at hname
  case h_1 t ht =>
    cases hname
    rw [recordLoop_name h]
    exact bytes_of_fromUtf8 ht
  case h_2 => cases hname

/-- **What is read behind a written header.** The table has as many entries as its first eight bytes
say, one of them is the entry of the strings, and there is one section for every other entry. -/
theorem parse_written {p : Profile} {be : Bool} {nums : ℕ} {rest : Str} {result : List Section}
    (h : parse p (writeHeader be nums ++ rest) = .ok result) :
    24 + rest.length < 2 ^ 47 ∧ ∃ (entries : List EdtSectionEntry) (description : EdtSectionEntry),
      8 + 38 * entries.length ≤ rest.length ∧ entries.length = numVal be (rest.take 8) ∧
      (∀ i, i < entries.length → entries[i]? = some (entryAt (rest.drop (8 + 38 * i)))) ∧
      entries.find? isDataEntry = some description ∧
      numVal be description.offset ≤ 24 + rest.length ∧
      List.Forall₂ (fun i s => bytes s.name = i.name) (entries.filter fun i => !isDataEntry i)
        result := by
  obtain ⟨edtf, hread, h⟩ := bind_eq_ok.mp h
  obtain ⟨hlt, rfl⟩ : 24 + rest.length < 2 ^ 47 ∧ edtf = writeHeader be nums ++ rest := by
    unfold readToString at hread
    split_ifs at hread with hr
    cases hread
    rw [List.length_append, length_writeHeader] at hr
    exact ⟨hr.1, rfl⟩
  rw [headerParser_written] at h
  obtain ⟨⟨r, header⟩, hheader, h⟩ := bind_eq_ok.mp h
  cases hheader
  have hbe : decide ([if be then (1 : UInt8) else 0] = [1]) = be := by cases be <;> rfl
  have h24 : numVal be (numBytes be 8 24) = 24 := numVal_numBytes be 8 24
  simp only [hbe] at h
  obtain ⟨sectionHeader, hsh, h⟩ := bind_eq_ok.mp h
  obtain rfl : sectionHeader = rest := by
    rw [offsetProcess, orPanic_eq_ok, sliceFrom, h24] at hsh
    split_ifs at hsh
    cases hsh
    exact List.drop_left' (length_writeHeader be nums)
  obtain ⟨⟨r, table⟩, htable, h⟩ := bind_eq_ok.mp h
  rw [expect_eq_ok] at htable
  obtain ⟨⟨r', sectionCount⟩, htake, htable⟩ := bind_eq_ok.mp htable
  obtain ⟨h8, rfl, rfl⟩ := take_eq_ok.mp htake
  obtain ⟨⟨r', entries⟩, hentries, htable⟩ := bind_eq_ok.mp htable
  cases htable
  rw [expect_eq_ok] at hentries
  obtain ⟨hlen, hn, hget⟩ := count_take entryAt (fun _ _ _ => sectionEntryParser_eq) hentries
  rw [List.length_drop] at hlen
  cases hfind : entries.find? isDataEntry with
  | none =>
    simp only [hfind] at h
    cases h
  | some description =>
    simp only [hfind] at h
    obtain ⟨dataSection, hdata, h⟩ := bind_eq_ok.mp h
    refine ⟨hlt, entries, description, by omega, hn, fun i hi => ?_, hfind, ?_, ?_⟩
    · rw [hget i (hn ▸ hi), List.drop_drop]
    · rw [offsetProcess, orPanic_eq_ok, sliceFrom] at hdata
      split_ifs at hdata with hle
      rwa [List.length_append, length_writeHeader] at hle
    · exact (mapM_eq_ok.mp h).imp fun _ _ hs => parseSection_name hs

end Jxtd.Engug
