import Jxtd.Lib.Bytes
import Mathlib.Data.List.TakeWhile

/-!
# Strings of the standard library

Positions in a string, where nothing stands for `npos`, and the conversions of integers.

* `findFirstOf`, `findPart`: what a search returns; `posAdd`: a sum with it.
* `decDigit`, `decVal`: decimal digits, and the number that they write.
* `stoi`, `decimalInt`: the conversions; `IsInt`: a string that can be converted.
* **`stoi_digits`**: digits are read up to the first byte that is none, while their number is in
  range.
-/

namespace Lib

/-! ## Positions -/

/-- `find_first_of` with one byte. -/
def findFirstOf (s : Str) (b : UInt8) : Option ℕ := s.findIdx? fun c => c = b

/-- `find`: the first position at which the string goes on with `part`. -/
def findPart (s part : Str) : Option ℕ := (List.range (s.length + 1)).find? fun i => part <+: s.drop i

/-- `pos + k` for a positive `k`: `npos` is the greatest position, so that the sum wraps around. -/
def posAdd : Option ℕ → ℕ → ℕ
  | none, k => k - 1
  | some pos, k => pos + k

theorem findFirstOf_of_notMem {s : Str} {b : UInt8} (h : b ∉ s) : findFirstOf s b = none :=
  List.findIdx?_eq_none_iff.mpr fun _ hc => decide_eq_false fun heq => h (heq ▸ hc)

theorem findFirstOf_append {s : Str} {b : UInt8} (h : b ∉ s) (rest : Str) :
    findFirstOf (s ++ b :: rest) b = some s.length := by
  have hnone : s.findIdx? (fun c => c = b) = none := findFirstOf_of_notMem h
  rw [findFirstOf, List.findIdx?_append, hnone]
  simp [List.findIdx?_cons]

theorem notMem_of_findFirstOf {s : Str} {b : UInt8} (h : findFirstOf s b = none) : b ∉ s := by
  intro hb
  simpa using List.findIdx?_eq_none_iff.mp h b hb

/-- What is found is the first occurrence. -/
theorem findFirstOf_eq_some {s : Str} {b : UInt8} {pos : ℕ} (h : findFirstOf s b = some pos) :
    b ∉ s.take pos ∧ s.take pos ++ b :: s.drop (pos + 1) = s := by
  obtain ⟨hlt, hget, hbefore⟩ := List.findIdx?_eq_some_iff_getElem.mp h
  constructor
  · intro hb
    obtain ⟨i, hi, heq⟩ := List.mem_take_iff_getElem.mp hb
    exact hbefore i (by omega) (decide_eq_true heq)
  · rw [← of_decide_eq_true hget, ← List.drop_eq_getElem_cons hlt, List.take_append_drop]

theorem drop_past (s : Str) (b : UInt8) (rest : Str) :
    (s ++ b :: rest).drop (s.length + 1) = rest := by
  rw [List.drop_append, List.drop_of_length_le (Nat.le_succ _), Nat.add_sub_cancel_left]
  rfl

/-- The first occurrence of a byte splits a string in one way. -/
theorem split_unique {s s' rest rest' : Str} {b : UInt8} (hs : b ∉ s) (hs' : b ∉ s')
    (h : s ++ b :: rest = s' ++ b :: rest') : s = s' ∧ rest = rest' := by
  have hpos : some s.length = some s'.length := by
    rw [← findFirstOf_append hs rest, h, findFirstOf_append hs' rest']
  obtain ⟨heq, hcons⟩ := List.append_inj h (Option.some.inj hpos)
  exact ⟨heq, (List.cons.inj hcons).2⟩

/-- The empty string is found at once. -/
theorem findPart_nil (s : Str) : findPart s [] = some 0 := by
  rw [findPart, List.range_succ_eq_map, List.find?_cons_of_pos (by simp)]

/-! ## Digits -/

/-- White space in the locale `C`. -/
def isSpace (b : UInt8) : Bool := b == 0x20 || (0x09 ≤ b && b ≤ 0x0d)

def decDigit (b : UInt8) : Bool := 0x30 ≤ b && b ≤ 0x39

/-- The number that digits write. -/
def decVal (ds : Str) : ℕ := ds.foldl (fun n b => 10 * n + (b.toNat - 0x30)) 0

theorem isSpace_of_decDigit {b : UInt8} (h : decDigit b) : isSpace b = false := by
  simp only [decDigit, isSpace, Bool.and_eq_true, decide_eq_true_eq, UInt8.le_iff_toNat_le,
    Bool.or_eq_false_iff, beq_eq_false_iff_ne, ne_eq, ← UInt8.toNat_inj, Bool.and_eq_false_iff,
    decide_eq_false_iff_not] at h ⊢
  have h30 : (0x30 : UInt8).toNat = 48 := rfl
  have h20 : (0x20 : UInt8).toNat = 32 := rfl
  have h0d : (0x0d : UInt8).toNat = 13 := rfl
  omega

theorem takeWhile_digits {ds rest : Str} (hds : ∀ b ∈ ds, decDigit b)
    (hrest : ∀ b ∈ rest.head?, decDigit b = false) : (ds ++ rest).takeWhile decDigit = ds := by
  rw [List.takeWhile_append_of_pos hds]
  cases rest with
  | nil => exact List.append_nil ds
  | cons b rest => rw [List.takeWhile_cons_of_neg (by simp [hrest b rfl]), List.append_nil]

/-! ## Integers -/

inductive StoiError
  | invalidArgument
  | outOfRange
  deriving DecidableEq

/-- The sign of a numeral, `true` for a minus, and what follows it. -/
def splitSign : Str → Bool × Str
  | [] => (false, [])
  | b :: s => if b = 0x2d then (true, s) else if b = 0x2b then (false, s) else (false, b :: s)

/-- `std::stoi` in base ten: white space, a sign and digits; what follows them is ignored. -/
def stoi (s : Str) : Except StoiError ℤ :=
  let (negative, s) := splitSign (s.dropWhile isSpace)
  let ds := s.takeWhile decDigit
  if ds = [] then .error .invalidArgument
  else
    let n : ℤ := if negative then -decVal ds else decVal ds
    if -2 ^ 31 ≤ n ∧ n < 2 ^ 31 then .ok n else .error .outOfRange

/-- `stoi` does not throw. -/
def IsInt (s : Str) : Prop := (stoi s).toOption.isSome

instance (s : Str) : Decidable (IsInt s) := inferInstanceAs (Decidable (_ = true))

/-- `std::to_string` of an integer. -/
def decimalInt (n : ℤ) : Str := if n < 0 then lit "-" ++ decimal n.natAbs else decimal n.natAbs

theorem isInt_iff {s : Str} : IsInt s ↔ ∃ n, stoi s = .ok n := by
  rw [IsInt]
  cases stoi s with
  | error error => simp [Except.toOption]
  | ok n => simp [Except.toOption]

theorem splitSign_of_decDigit {b : UInt8} (h : decDigit b) (s : Str) :
    splitSign (b :: s) = (false, b :: s) := by
  have hminus : b ≠ 0x2d := by
    rintro rfl
    exact absurd h (by decide)
  have hplus : b ≠ 0x2b := by
    rintro rfl
    exact absurd h (by decide)
  rw [splitSign, if_neg hminus, if_neg hplus]

/-- **Digits are read** up to the first byte that is none. -/
theorem stoi_digits {ds rest : Str} (hne : ds ≠ []) (hds : ∀ b ∈ ds, decDigit b)
    (hrest : ∀ b ∈ rest.head?, decDigit b = false) :
    stoi (ds ++ rest) =
      if decVal ds < 2 ^ 31 then .ok (decVal ds : ℤ) else .error .outOfRange := by
  obtain ⟨d, ds', rfl⟩ := List.exists_cons_of_ne_nil hne
  have hd : decDigit d := hds d List.mem_cons_self
  have hspace : (d :: ds' ++ rest).dropWhile isSpace = d :: ds' ++ rest :=
    List.dropWhile_cons_of_neg (by simp [isSpace_of_decDigit hd])
  have hsign : splitSign (d :: ds' ++ rest) = (false, d :: ds' ++ rest) :=
    splitSign_of_decDigit hd _
  unfold stoi
  simp only [hspace, hsign, takeWhile_digits hds hrest, if_neg hne, Bool.false_eq_true, if_false]
  by_cases hlt : decVal (d :: ds') < 2 ^ 31
  · rw [if_pos hlt, if_pos ⟨by omega, by exact_mod_cast hlt⟩]
  · rw [if_neg hlt, if_neg fun h => hlt (by exact_mod_cast h.2)]

end Lib
