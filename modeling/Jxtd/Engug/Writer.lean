import Jxtd.Engug.Transform
import Jxtd.Lib.Rust

/-!
# The writer of EDT files

The file is a header, the table of the sections, the records of every section, and the strings of
all sections. The table holds the number of its entries, one entry for each section, and one for
the strings.

* `writeHeader`, `writeSectionHeader`, `writeSection`: the three passes of `EdtWriter::write`.
* `write`: what they emit, piece by piece (`Output`).
-/

namespace Jxtd.Engug

open Lib

/-! ## Numbers -/

/-- The `k` bytes of a number in the byte order of the file. -/
def numBytes (be : Bool) (k n : ℕ) : Str := if be then beBytes k n else leBytes k n

/-- Read a number in the byte order of the file. -/
def numVal (be : Bool) (bs : Str) : ℕ := if be then beVal bs else leVal bs

@[simp] theorem length_numBytes (be : Bool) (k n : ℕ) : (numBytes be k n).length = k := by
  cases be
  · exact length_leBytes k n
  · exact length_beBytes k n

theorem numVal_numBytes (be : Bool) (k n : ℕ) : numVal be (numBytes be k n) = n % 256 ^ k := by
  cases be
  · exact leVal_leBytes k n
  · exact beVal_beBytes k n

/-! ## The header -/

/-- The header of a file with `nums` sections. -/
def writeHeader (be : Bool) (nums : ℕ) : Str :=
  lit "edtf" ++ [0, 0, if be then 1 else 0] ++ numBytes be 8 24 ++
    numBytes be 8 (1 + 38 * (nums + 1)) ++ [0]

theorem length_writeHeader (be : Bool) (nums : ℕ) : (writeHeader be nums).length = 24 := by
  simp only [writeHeader, List.length_append, length_numBytes]
  rfl

/-! ## The table of the sections -/

/-- All strings of a section in one, `data.strings.join("")`. -/
def EdtSection.dataset (s : EdtSection) : Str := s.data.strings.flatMap bytes

/-- The values of a section in the order of its map. -/
def EdtSection.values (s : EdtSection) : List EdtValue := s.entries.entries.flatMap Sigma.snd

/-- The body of the loop over the values, on `entry_count : u32` and `entry_len : u8`. -/
def scanValue (p : Profile) (acc : ℕ × ℕ) (value : EdtValue) : Except String (ℕ × ℕ) := do
  let count ← p.add 32 acc.1 1
  let len ← p.add 8 acc.2 17
  let len ← p.add 8 len 1
  match value with
  | .integer valueLen _ _ =>
    let len ← p.add 8 len 1
    let len ← p.add 8 len valueLen
    return (count, len)
  | .floating valueLen _ _ =>
    let len ← p.add 8 len 1
    let len ← p.add 8 len valueLen
    return (count, len)
  | .seq _ _ =>
    let len ← p.add 8 len 17
    return (count, len)

/-- What the table holds of a section, but for its offset. -/
structure SectionInfo where
  name : Str
  size : ℕ
  count : ℕ
  dataLen : ℕ
  deriving DecidableEq

/-- The name of a section is cut out of its strings; an end that overflows panics like any other
end outside of them. -/
def sectionName (s : EdtSection) : Except String Str :=
  match s.name with
  | .seq len offset => sliceStr s.dataset offset (offset + len)
  | _ => .error "Unhandled section name variant"

def scanSection (p : Profile) (s : EdtSection) : Except String SectionInfo := do
  let acc ← s.values.foldlM (scanValue p) (0, 0)
  let name ← sectionName s
  return ⟨name, acc.2, acc.1, s.dataset.length⟩

/-- A name is padded with spaces to 17 bytes, and is not cut when it is longer. -/
def padName (name : Str) : Str := name ++ List.replicate (17 - name.length) 0x20

/-- The table's entry for a section. -/
def sectionEntry (be : Bool) (info : SectionInfo) (offset : ℕ) : Str :=
  padName info.name ++ [if info.name = lit "meta" then 0 else 1] ++ numBytes be 8 offset ++
    numBytes be 8 info.size ++ numBytes be 4 info.count

/-- The table's entry for the strings. -/
def dataEntry (be : Bool) (offset len : ℕ) : Str :=
  padName (lit "data") ++ [2] ++ numBytes be 8 offset ++ numBytes be 8 len ++ beBytes 4 0

/-- The loop over the sections, on `total_offset` and `data_len`. -/
def writeEntries (p : Profile) (be : Bool) :
    List EdtSection → ℕ → ℕ → Except String (List Str)
  | [], totalOffset, dataLen => .ok [dataEntry be totalOffset dataLen]
  | s :: sections, totalOffset, dataLen => do
    let info ← scanSection p s
    let entries ← writeEntries p be sections (totalOffset + info.size) (dataLen + info.dataLen)
    return sectionEntry be info totalOffset :: entries

/-- The number of entries: one byte, written twice in a big-endian file. -/
def sectionCount (be : Bool) (nums : ℕ) : Str :=
  if be then [(nums + 1).toUInt8, (nums + 1).toUInt8] else [(nums + 1).toUInt8]

def writeSectionHeader (p : Profile) (be : Bool) (sections : List EdtSection) :
    Except String (List Str) :=
  writeEntries p be sections (24 + (1 + 38 * (sections.length + 1))) 0

/-! ## The records -/

/-- The bytes of an integer; a single byte is written in eight, whatever the byte order is. -/
def writeInteger (be : Bool) : IntegerValue → Str
  | .byte v => beBytes 8 v.toNat
  | .word v => numBytes be 2 v.toNat
  | .double v => numBytes be 4 v.toNat
  | .quad v => numBytes be 8 v.toNat

/-- The bytes of a float; a `f32` comes back unchanged from the `f64` it is converted to. -/
def writeFloating (be : Bool) : FloatingValue → Str
  | .single v => numBytes be 4 v.bits.toNat
  | .double v => numBytes be 8 v.bits.toNat

/-- The value of a record; the extent of a string is moved by the length of the strings of all
earlier sections. -/
def writeValue (p : Profile) (be : Bool) (preOffset : ℕ) : EdtValue → Except String Str
  | .integer len value _ => .ok ([0, len.toUInt8] ++ writeInteger be value)
  | .floating len value _ => .ok ([1, len.toUInt8] ++ writeFloating be value)
  | .seq len offset => do
    let offset ← p.add 64 offset preOffset
    return [2] ++ numBytes be 8 len ++ numBytes be 8 offset

/-- The key of a record. -/
def writeKey (p : Profile) (be : Bool) (preOffset : ℕ) : EdtValue → Except String Str
  | .seq len offset => do
    let offset ← p.add 64 offset preOffset
    return [2] ++ numBytes be 8 len ++ numBytes be 8 offset
  | _ => .error "Unhandled key name variant"

/-- One record for each value of an entry. -/
def writeEntry (p : Profile) (be : Bool) (preOffset : ℕ)
    (e : Sigma fun _ : EdtValue => List EdtValue) : Except String (List Str) := do
  let key ← writeKey p be preOffset e.1
  e.2.mapM fun value => return key ++ (← writeValue p be preOffset value)

/-- The records of every section, with the length of the strings of all earlier sections. -/
def writeRecords (p : Profile) (be : Bool) : List EdtSection → ℕ → Except String (List (List Str))
  | [], _ => .ok []
  | s :: sections, preOffset => do
    let records ← s.entries.entries.mapM (writeEntry p be preOffset)
    let rest ← writeRecords p be sections (preOffset + s.dataset.length)
    return records.flatten :: rest

def writeSection (p : Profile) (be : Bool) (sections : List EdtSection) :
    Except String (List (List Str)) :=
  writeRecords p be sections 0

/-! ## The file -/

/-- What the writer emits. -/
structure Output where
  header : Str
  count : Str
  entries : List Str
  records : List (List Str)
  blob : Str
  deriving DecidableEq

/-- The table of the sections. -/
def Output.table (out : Output) : Str := out.count ++ out.entries.flatten

def Output.bytes (out : Output) : Str :=
  out.header ++ out.table ++ out.records.flatten.flatten ++ out.blob

/-- `EdtWriter::write`. A file has less than `2 ^ 63` bytes, beyond that a write fails. -/
def write (p : Profile) (be : Bool) (sections : List EdtSection) : Except String Output := do
  let entries ← writeSectionHeader p be sections
  let records ← writeSection p be sections
  let out : Output :=
    ⟨writeHeader be sections.length, sectionCount be sections.length, entries, records,
      sections.flatMap EdtSection.dataset⟩
  if out.bytes.length < 2 ^ 63 then return out else .error "Failed to write data to file"

end Jxtd.Engug
