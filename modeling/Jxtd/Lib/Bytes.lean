import Mathlib.Data.List.Basic
import Mathlib.Tactic.Common
import Mathlib.Tactic.Ring

/-!
# Byte strings and fixed-width integers

* `Str`: byte strings; `lit`, `decimal` and `decimal_injective`: literals and decimal numerals.
* `leBytes k n`, `beBytes k n`: the `k` low bytes of `n` in either order; `leVal`, `beVal` read
  them back (**`leVal_leBytes`**, **`beVal_beBytes`**).
-/

namespace Lib

/-- Byte strings. -/
abbrev Str := List UInt8

/-- One instance for all tests of membership. -/
instance : LawfulBEq Str := inferInstance

/-- The bytes of an ASCII literal. -/
def lit (s : String) : Str := s.toList.map fun c => c.toNat.toUInt8

/-! ## Decimal numerals -/

/-- The decimal numeral of a number. -/
def decimal (n : ℕ) : Str := (Nat.toDigits 10 n).map fun c => c.toNat.toUInt8

theorem digit_bounds {n : ℕ} {c : Char} (h : c ∈ Nat.toDigits 10 n) :
    48 ≤ c.toNat ∧ c.toNat ≤ 57 := by
  have hd := Nat.isDigit_of_mem_toDigits (by decide) (by decide) h
  simp only [Char.isDigit, Bool.and_eq_true, decide_eq_true_eq, ge_iff_le,
    UInt32.le_iff_toNat_le] at hd
  exact hd

theorem toNat_toUInt8_of_lt {n : ℕ} (h : n < 256) : n.toUInt8.toNat = n := by
  rw [Nat.toUInt8, UInt8.toNat_ofNat', Nat.mod_eq_of_lt h]

theorem digit_of_mem_decimal {n : ℕ} {b : UInt8} (h : b ∈ decimal n) :
    48 ≤ b.toNat ∧ b.toNat ≤ 57 := by
  obtain ⟨c, hc, rfl⟩ := List.mem_map.mp h
  have hb := digit_bounds hc
  rw [toNat_toUInt8_of_lt (by omega)]
  exact hb

theorem decimal_ne_nil (n : ℕ) : decimal n ≠ [] := by
  rw [decimal, Ne, List.map_eq_nil_iff]
  exact Nat.toDigits_ne_nil

/-- **Different numbers have different numerals.** -/
theorem decimal_injective : Function.Injective decimal := by
  have hinv : ∀ n, (decimal n).map (fun b => Char.ofNat b.toNat) = Nat.toDigits 10 n := by
    intro n
    rw [decimal, List.map_map]
    refine (List.map_congr_left fun c hc => ?_).trans (List.map_id _)
    have hb := digit_bounds hc
    rw [Function.comp_apply, toNat_toUInt8_of_lt (by omega), Char.ofNat_toNat, id]
  intro m n h
  rw [← Nat.ofDigitChars_ten_toDigits (n := m), ← hinv, h, hinv, Nat.ofDigitChars_ten_toDigits]

/-! ## Fixed-width integers -/

/-- The `k` low bytes of `n`, least significant first. -/
def leBytes : ℕ → ℕ → Str
  | 0, _ => []
  | k + 1, n => (n % 256).toUInt8 :: leBytes k (n / 256)

/-- The `k` low bytes of `n`, most significant first. -/
def beBytes (k n : ℕ) : Str := (leBytes k n).reverse

/-- The number with the given bytes, least significant first. -/
def leVal : Str → ℕ
  | [] => 0
  | b :: bs => b.toNat + 256 * leVal bs

/-- The number with the given bytes, most significant first. -/
def beVal (bs : Str) : ℕ := leVal bs.reverse

@[simp] theorem length_leBytes (k n : ℕ) : (leBytes k n).length = k := by
  induction k generalizing n with
  | zero => rfl
  | succ k ih => rw [leBytes, List.length_cons, ih]

@[simp] theorem length_beBytes (k n : ℕ) : (beBytes k n).length = k := by
  rw [beBytes, List.length_reverse, length_leBytes]

theorem leVal_lt (bs : Str) : leVal bs < 256 ^ bs.length := by
  induction bs with
  | nil => exact Nat.one_pos
  | cons b bs ih =>
    have hb := b.toNat_lt
    rw [leVal, List.length_cons, pow_succ']
    omega

/-- Different bytes of one length are different numbers. -/
theorem leVal_injective {a b : Str} (hlen : a.length = b.length) (h : leVal a = leVal b) :
    a = b := by
  induction a generalizing b with
  | nil => exact (List.length_eq_zero_iff.mp hlen.symm).symm
  | cons x a ih =>
    cases b with
    | nil => cases hlen
    | cons y b =>
      have hx := x.toNat_lt
      have hy := y.toNat_lt
      rw [leVal, leVal] at h
      have hxy : x = y := UInt8.toNat_inj.mp (by omega)
      rw [hxy, ih (Nat.succ.inj hlen) (by omega)]

/-- **Reading back what was written, least significant byte first.** -/
theorem leVal_leBytes (k n : ℕ) : leVal (leBytes k n) = n % 256 ^ k := by
  induction k generalizing n with
  | zero => simp [leBytes, leVal, Nat.mod_one]
  | succ k ih =>
    rw [leBytes, leVal, ih, toNat_toUInt8_of_lt (Nat.mod_lt _ (by decide)), pow_succ',
      Nat.mod_mul]

/-- **Reading back what was written, most significant byte first.** -/
theorem beVal_beBytes (k n : ℕ) : beVal (beBytes k n) = n % 256 ^ k := by
  rw [beVal, beBytes, List.reverse_reverse, leVal_leBytes]

theorem leVal_append (a b : Str) : leVal (a ++ b) = leVal a + 256 ^ a.length * leVal b := by
  induction a with
  | nil => simp [leVal]
  | cons x a ih =>
    rw [List.cons_append, leVal, leVal, ih, List.length_cons, pow_succ']
    ring

theorem leBytes_add (j k n : ℕ) :
    leBytes (j + k) n = leBytes j n ++ leBytes k (n / 256 ^ j) := by
  induction j generalizing n with
  | zero => simp [leBytes]
  | succ j ih =>
    rw [Nat.succ_add, leBytes, ih, leBytes, List.cons_append, Nat.div_div_eq_div_mul, pow_succ']

/-- **The high and the low bytes** of a number written most significant byte first. -/
theorem beBytes_add (j k n : ℕ) :
    beBytes (j + k) n = beBytes j (n / 256 ^ k) ++ beBytes k n := by
  rw [beBytes, Nat.add_comm, leBytes_add, List.reverse_append]
  rfl

theorem beVal_append (a b : Str) : beVal (a ++ b) = 256 ^ b.length * beVal a + beVal b := by
  rw [beVal, List.reverse_append, leVal_append, List.length_reverse, beVal, beVal, Nat.add_comm]

theorem beVal_cons (x : UInt8) (b : Str) :
    beVal (x :: b) = 256 ^ b.length * x.toNat + beVal b := by
  rw [← List.singleton_append, beVal_append]
  rfl

/-! ## Fields -/

/-- The `len` bytes from position `start` on. -/
def field (bs : Str) (start len : ℕ) : Str := (bs.drop start).take len

theorem field_append {a b : Str} {start len : ℕ} (ha : a.length = start) (hb : b.length = len)
    (c : Str) : field (a ++ (b ++ c)) start len = b := by
  rw [field, List.drop_left' ha, List.take_left' hb]

theorem field_drop (bs : Str) (m start len : ℕ) :
    field (bs.drop m) start len = field bs (m + start) len := by
  rw [field, List.drop_drop, field]

theorem field_append_left {a : Str} {start len : ℕ} (h : start + len ≤ a.length) (b : Str) :
    field (a ++ b) start len = field a start len := by
  rw [field, List.drop_append_of_le_length (by omega),
    List.take_append_of_le_length (by rw [List.length_drop]; omega), field]

/-- Blocks of one length take that length each. -/
theorem length_flatten_of_forall {es : List Str} {k : ℕ} (h : ∀ e ∈ es, e.length = k) :
    es.flatten.length = k * es.length := by
  induction es with
  | nil => rfl
  | cons e es ih =>
    rw [List.flatten_cons, List.length_append, h e List.mem_cons_self,
      ih fun e' he' => h e' (List.mem_cons_of_mem _ he'), List.length_cons]
    ring

/-- **Block `i`** of blocks of one length begins after `i` times that length. -/
theorem drop_flatten_of_forall {es : List Str} {k i : ℕ} (h : ∀ e ∈ es, e.length = k) {e : Str}
    (he : es[i]? = some e) (more : Str) :
    (es.flatten ++ more).drop (k * i) = e ++ ((es.drop (i + 1)).flatten ++ more) := by
  induction es generalizing i with
  | nil => simp at he
  | cons e' es ih =>
    cases i with
    | zero =>
      obtain rfl : e' = e := by simpa using he
      simp
    | succ i =>
      rw [List.getElem?_cons_succ] at he
      rw [List.flatten_cons, List.append_assoc, Nat.mul_succ, Nat.add_comm, ← List.drop_drop,
        List.drop_left' (h e' List.mem_cons_self),
        ih (fun e'' he'' => h e'' (List.mem_cons_of_mem _ he'')) he, List.drop_succ_cons]

end Lib
