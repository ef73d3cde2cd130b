import Jxtd.Engug.EdtFormat

/-!
# The strings that EDT records refer to

A key and a string value are records of one shape, with a length and an offset in the strings of the
file (`EdtRecord.Denotes`). Two pieces of the parser decode them.

* `recordValue_denotes_iff`: when a string value is decoded to what it refers to.
* `At`, `Reads`: where the loops of `parse` come to, and the records that are decoded there.
* **`references_iff`**: exactly when every record that is read is decoded to what it refers to.
* `shortFile`, **`value_cut`**: a file with a string value of length 2, of which one byte is read.
-/

namespace Jxtd.Engug

open Lib

/-! ## String values -/

/-- There is a string of the given length at the given offset. -/
def IsString (data : Str) (start len : ℕ) : Prop :=
  start + len ≤ data.length ∧ (fromUtf8 (field data start len)).isSome

theorem length_field {bs : Str} {start len : ℕ} (h : start + len ≤ bs.length) :
    (field bs start len).length = len := by
  rw [field, List.length_take, List.length_drop]
  omega

/-- Texts of the same string at one offset have one length. -/
theorem len_eq_of_fromUtf8 {data : Str} {start len len' : ℕ} {s : String}
    (h : start + len ≤ data.length) (h' : start + len' ≤ data.length)
    (hs : fromUtf8 (field data start len) = some s)
    (hs' : fromUtf8 (field data start len') = some s) : len = len' := by
  have hbytes := (bytes_of_fromUtf8 hs).symm.trans (bytes_of_fromUtf8 hs')
  rw [← length_field h, hbytes, length_field h']

/-- **A string value is decoded** to the string that it refers to exactly if its offset is its
length, or if neither is a string. -/
theorem recordValue_denotes_iff {be : Bool} {data : Str} {r : EdtRecord} (hr : r.Shaped)
    (hseq : r.dataType = [2]) :
    (∀ v, recordValue be data r = .ok v ↔ ∃ s, r.Denotes be data s ∧ v = .seq s) ↔
      r.start be = r.extent be ∨
        ¬IsString data (r.start be) (r.start be) ∧ ¬IsString data (r.start be) (r.extent be) := by
  cases hr with
  | integer => cases hseq
  | floating => cases hseq
  | @seq length value hlength hvalue =>
    have hread (v : IRValue) : recordValue be data ⟨[2], length, value⟩ = .ok v ↔
        ∃ s, (numVal be value + numVal be value ≤ data.length ∧
          fromUtf8 (field data (numVal be value) (numVal be value)) = some s) ∧ v = .seq s := by
      rw [recordValue_seq]
      simp only [two_mul, and_assoc]
    have hdenotes (s : String) : EdtRecord.Denotes be data ⟨[2], length, value⟩ s ↔
        numVal be value + numVal be length ≤ data.length ∧
          fromUtf8 (field data (numVal be value) (numVal be length)) = some s := Iff.rfl
    simp only [hread, hdenotes, EdtRecord.start, EdtRecord.extent]
    constructor
    · intro h
      by_contra hne
      rw [not_or, not_and_or, not_not, not_not] at hne
      obtain ⟨heq, hstring⟩ := hne
      apply heq
      rcases hstring with ⟨hfits, hs⟩ | ⟨hfits, hs⟩
      · obtain ⟨s, hs⟩ := Option.isSome_iff_exists.mp hs
        obtain ⟨s', ⟨hfits', hs'⟩, hv⟩ := (h (.seq s)).mp ⟨s, ⟨hfits, hs⟩, rfl⟩
        cases hv
        exact len_eq_of_fromUtf8 hfits hfits' hs hs'
      · obtain ⟨s, hs⟩ := Option.isSome_iff_exists.mp hs
        obtain ⟨s', ⟨hfits', hs'⟩, hv⟩ := (h (.seq s)).mpr ⟨s, ⟨hfits, hs⟩, rfl⟩
        cases hv
        exact len_eq_of_fromUtf8 hfits' hfits hs' hs
    · rintro (heq | ⟨hstart, hextent⟩) v
      · rw [heq]
      · refine iff_of_false ?_ ?_
        · rintro ⟨s, ⟨hfits, hs⟩, -⟩
          exact hstart ⟨hfits, Option.isSome_iff_exists.mpr ⟨s, hs⟩⟩
        · rintro ⟨s, ⟨hfits, hs⟩, -⟩
          exact hextent ⟨hfits, Option.isSome_iff_exists.mpr ⟨s, hs⟩⟩

/-! ## What is read of a file -/

/-- Some rounds of the loop over the records lead from `bs` to `bs'`. -/
inductive Rounds (p : Profile) (be : Bool) (data : Str) : ℕ → Str → Str → Prop
  | none (bs : Str) : Rounds p be data 0 bs bs
  | next {n : ℕ} {bs bs' bs'' : Str} {e : EdtEntry} {v : IRValue}
      (hentry : sectionParser p be data bs = .ok (bs', e))
      (hvalue : recordValue be data e.value = .ok v) (hnext : Rounds p be data n bs' bs'') :
      Rounds p be data (n + 1) bs bs''

/-- The loops of `parse` come to a record at `bs`: the sections before are parsed, and so are the
records of the section before it. -/
def At (p : Profile) (f bs : Str) : Prop :=
  Readable f ∧ TableOk f ∧ ∃ earlier i later,
    (tableOf f).filter (fun i => !isDataEntry i) = earlier ++ i :: later ∧
    (∀ j ∈ earlier, ∃ s, parseSection p (bigEndian f) f (dataOf f) j = .ok s) ∧
    (fromUtf8 i.name).isSome ∧ numVal (bigEndian f) i.offset ≤ f.length ∧
    ∃ n, n < numVal (bigEndian f) i.entryCount ∧
      Rounds p (bigEndian f) (dataOf f) n (f.drop (numVal (bigEndian f) i.offset)) bs

/-- What a record is read as. -/
inductive Role
  | key
  | value
  deriving DecidableEq

/-- A record of a string that `parse` comes to decode. -/
inductive Reads (p : Profile) (f : Str) : Role → EdtRecord → Prop
  | key {bs rest : Str} {r : EdtRecord} (hat : At p f bs) (hr : dataParser bs = .ok (rest, r))
      (hseq : r.dataType = [2]) : Reads p f .key r
  | value {bs rest : Str} {e : EdtEntry} (hat : At p f bs)
      (he : sectionParser p (bigEndian f) (dataOf f) bs = .ok (rest, e))
      (hseq : e.value.dataType = [2]) : Reads p f .value e.value

/-- The record is decoded to the string that it refers to, and to nothing if there is none. -/
def DecodesAs (p : Profile) (f : Str) : Role → EdtRecord → Prop
  | .key, r => ∀ s, keyString p (bigEndian f) (dataOf f) r = .ok s ↔
      r.Denotes (bigEndian f) (dataOf f) s
  | .value, r => ∀ v, recordValue (bigEndian f) (dataOf f) r = .ok v ↔
      ∃ s, r.Denotes (bigEndian f) (dataOf f) s ∧ v = .seq s

variable {p : Profile} {f : Str}

theorem At.length_lt {bs : Str} (h : At p f bs) : (dataOf f).length < 2 ^ 64 := by
  have hle := length_dataOf_le f
  have hlt := h.1.1
  omega

theorem Reads.shaped {role : Role} {r : EdtRecord} (h : Reads p f role r) :
    r.Shaped ∧ r.dataType = [2] := by
  cases h with
  | key hat hr hseq => exact ⟨(dataParser_eq_ok.mp hr).1, hseq⟩
  | value hat he hseq =>
    obtain ⟨raw, hraw, -, hvalue, -, -⟩ := (sectionParser_eq_ok hat.length_lt).mp he
    exact ⟨hvalue ▸ hraw.value, hseq⟩

/-- **Every key is decoded to what it refers to.** -/
theorem Reads.decodesAs {r : EdtRecord} (h : Reads p f .key r) : DecodesAs p f .key r := by
  obtain ⟨hr, hseq⟩ := h.shaped
  cases h with
  | key hat => exact fun s => keyString_eq_ok hat.length_lt hr hseq

/-- **Exactly when every record that is read is decoded to what it refers to**: every string value
has its length as its offset, or there is no string at either. -/
theorem references_iff (p : Profile) (f : Str) :
    (∀ role r, Reads p f role r → DecodesAs p f role r) ↔
      ∀ r, Reads p f .value r → r.start (bigEndian f) = r.extent (bigEndian f) ∨
        ¬IsString (dataOf f) (r.start (bigEndian f)) (r.start (bigEndian f)) ∧
        ¬IsString (dataOf f) (r.start (bigEndian f)) (r.extent (bigEndian f)) := by
  constructor
  · intro h r hr
    exact (recordValue_denotes_iff hr.shaped.1 hr.shaped.2).mp (h .value r hr)
  · intro h role r hr
    cases role with
    | key => exact hr.decodesAs
    | value => exact (recordValue_denotes_iff hr.shaped.1 hr.shaped.2).mpr (h r hr)

/-! ## A string value that is cut -/

/-- A section with the key `a`, and with the string value of length 2 at the offset 1 of `abc`. -/
def shortFile : Str :=
  lit "edtf" ++ [0, 0, 0] ++ numBytes false 8 24 ++ numBytes false 8 84 ++ [0] ++
  numBytes false 8 2 ++
  lit "s" ++ List.replicate 16 0 ++ [0] ++
  numBytes false 8 111 ++ numBytes false 8 34 ++ numBytes false 4 1 ++
  List.replicate 17 0 ++ [2] ++
  numBytes false 8 108 ++ numBytes false 8 3 ++ numBytes false 4 0 ++
  lit "abc" ++
  [2] ++ numBytes false 8 1 ++ numBytes false 8 0 ++ [2] ++ numBytes false 8 2 ++ numBytes false 8 1

/-- The string value of its only record. -/
def shortValue : EdtRecord := ⟨[2], numBytes false 8 2, numBytes false 8 1⟩

theorem parse_shortFile : ∃ sections, parse .debug shortFile = .ok sections ∧
    sections.map (·.values "a") = [[.seq "b"]] := by
  have hvalues : (parse .debug shortFile).toOption.map (fun ss => ss.map (·.values "a")) =
      some [[.seq "b"]] := by
    decide +kernel
  cases h : parse .debug shortFile with
  | error e =>
    rw [h] at hvalues
    cases hvalues
  | ok sections =>
    rw [h] at hvalues
    exact ⟨sections, rfl, Option.some.inj hvalues⟩

/-- The file is read to its only record. -/
theorem at_shortFile : At .debug shortFile (shortFile.drop 111) := by
  obtain ⟨sections, hparse, -⟩ := parse_shortFile
  obtain ⟨hreadable, htable, -⟩ := parse_eq_ok.mp hparse
  refine ⟨hreadable, htable, [], entryAt (shortFile.drop 32), [], ?_, ?_, ?_, ?_, 0, ?_, ?_⟩
  · decide +kernel
  · exact fun j hj => absurd hj List.not_mem_nil
  · decide +kernel
  · decide +kernel
  · decide +kernel
  · have hoffset : numVal (bigEndian shortFile) (entryAt (shortFile.drop 32)).offset = 111 := by
      decide +kernel
    rw [hoffset]
    exact .none _

theorem reads_shortValue : Reads .debug shortFile .value shortValue := by
  have hentry : sectionParser .debug (bigEndian shortFile) (dataOf shortFile)
      (shortFile.drop 111) = .ok ([], ⟨"a", shortValue⟩) := by
    decide +kernel
  exact .value at_shortFile hentry rfl

/-- **A string value is cut**: it refers to `bc`, and `b` is read. -/
theorem value_cut :
    (∃ sections, parse .debug shortFile = .ok sections ∧
      sections.map (·.values "a") = [[.seq "b"]]) ∧
    shortValue.Denotes (bigEndian shortFile) (dataOf shortFile) "bc" ∧
    ¬ ∀ role r, Reads .debug shortFile role r → DecodesAs .debug shortFile role r := by
  have hdenotes : shortValue.Denotes (bigEndian shortFile) (dataOf shortFile) "bc" := by
    constructor
    · decide +kernel
    · decide +kernel
  have hread : recordValue (bigEndian shortFile) (dataOf shortFile) shortValue = .ok (.seq "b") := by
    decide +kernel
  refine ⟨parse_shortFile, hdenotes, fun h => ?_⟩
  have hbc := (h .value shortValue reads_shortValue (.seq "bc")).mpr ⟨"bc", hdenotes, rfl⟩
  rw [hread] at hbc
  exact absurd hbc (by decide)

end Jxtd.Engug
