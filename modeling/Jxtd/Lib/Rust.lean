import Jxtd.Lib.Bytes
import Jxtd.Lib.Except

/-!
# Rust's arithmetic, slices and strings

A computation that panics is the error with the message of the panic.

* `Profile`, `Profile.add`: an addition that overflows panics in a debug build and wraps in a
  release build.
* `slice`, `sliceStr`: the ranges of byte slices and of strings.
* `bytes`, `fromUtf8`: a string and its bytes.
-/

namespace Lib

/-! ## Arithmetic -/

inductive Profile
  | debug
  | release
  deriving DecidableEq

/-- The addition of unsigned integers of `w` bits. -/
def Profile.add (p : Profile) (w a b : ℕ) : Except String ℕ :=
  if a + b < 2 ^ w then .ok (a + b)
  else match p with
    | .debug => .error "attempt to add with overflow"
    | .release => .ok ((a + b) % 2 ^ w)

theorem Profile.add_of_lt (p : Profile) {w a b : ℕ} (h : a + b < 2 ^ w) :
    p.add w a b = .ok (a + b) :=
  if_pos h

/-- What an addition that does not panic returns. -/
theorem Profile.of_add_eq_ok {p : Profile} {w a b c : ℕ} (h : p.add w a b = .ok c) :
    c = (a + b) % 2 ^ w ∧ (p = .debug → a + b < 2 ^ w) := by
  unfold Profile.add at h
  split_ifs at h with hlt
  · cases h
    exact ⟨(Nat.mod_eq_of_lt hlt).symm, fun _ => hlt⟩
  · cases p with
    | debug => cases h
    | release =>
      cases h
      exact ⟨rfl, fun h => nomatch h⟩

theorem Profile.add_isOk_iff {p : Profile} {w a b : ℕ} :
    (∃ c, p.add w a b = .ok c) ↔ (p = .debug → a + b < 2 ^ w) := by
  constructor
  · rintro ⟨c, hc⟩
    exact (Profile.of_add_eq_ok hc).2
  · intro h
    by_cases hlt : a + b < 2 ^ w
    · exact ⟨_, p.add_of_lt hlt⟩
    · cases p with
      | debug => exact absurd (h rfl) hlt
      | release => exact ⟨_, by rw [Profile.add, if_neg hlt]⟩

/-! ## Slices and strings -/

/-- `&bs[start..stop]`. -/
def slice (bs : Str) (start stop : ℕ) : Except String Str :=
  if start ≤ stop ∧ stop ≤ bs.length then .ok ((bs.take stop).drop start)
  else .error "slice index out of range"

/-- `&bs[start..]`. -/
def sliceFrom (bs : Str) (start : ℕ) : Except String Str :=
  if start ≤ bs.length then .ok (bs.drop start) else .error "slice index out of range"

/-- A position between two characters: the byte after it does not continue a character. -/
def isCharBoundary (bs : Str) (i : ℕ) : Bool :=
  i == 0 || match bs[i]? with
    | none => i == bs.length
    | some b => b < 0x80 || 0xc0 ≤ b

/-- `&s[start..stop]` of the string with the bytes `bs`. -/
def sliceStr (bs : Str) (start stop : ℕ) : Except String Str :=
  if isCharBoundary bs start && isCharBoundary bs stop then slice bs start stop
  else .error "byte index is not a char boundary"

/-- The bytes of a string. -/
def bytes (s : String) : Str := s.toByteArray.data.toList

theorem length_bytes (s : String) : (bytes s).length = s.utf8ByteSize :=
  String.size_toByteArray

/-- `std::str::from_utf8`. -/
def fromUtf8 (bs : Str) : Option String := String.fromUTF8? bs.toByteArray

theorem bytes_of_fromUtf8 {bs : Str} {s : String} (h : fromUtf8 bs = some s) : bytes s = bs := by
  unfold fromUtf8 String.fromUTF8? at h
  split_ifs at h with hv
  cases h
  exact List.toList_data_toByteArray

theorem length_of_slice {bs out : Str} {start stop : ℕ} (h : slice bs start stop = .ok out) :
    out.length = stop - start ∧ start ≤ stop ∧ stop ≤ bs.length := by
  unfold slice at h
  split_ifs at h with hb
  cases h
  exact ⟨by rw [List.length_drop, List.length_take, Nat.min_eq_left hb.2], hb⟩

theorem slice_of_sliceStr {bs out : Str} {start stop : ℕ} (h : sliceStr bs start stop = .ok out) :
    slice bs start stop = .ok out := by
  unfold sliceStr at h
  split_ifs at h
  exact h

end Lib
