import Jxtd.Lib.Joined
import Mathlib.Computability.RegularExpressions

/-!
# Regular expressions with classes and bounded repetition

* `ofClass`, `text`, `opt`, `upTo`, `times`: `[..]`, a literal, `r?`, `r{0,n}` and `r{lo,hi}`.
* `mem_ofClass`, `mem_text`, `mem_opt`: their languages.
* **`mem_times_ofClass`**: a repeated class matches by the length and the symbols.
* `bracket`: the class of the bytes with a property.
* **`mem_separated`**: a fixed number of pieces with a separator between them.
-/

namespace Lib.Regexp

open RegularExpression
open scoped Computability

variable {α : Type}

/-- One symbol of a class. -/
def ofClass (cs : List α) : RegularExpression α := cs.foldr (fun a r => char a + r) 0

/-- A literal text. -/
def text (s : List α) : RegularExpression α := s.foldr (fun a r => char a * r) 1

/-- `r?` -/
def opt (r : RegularExpression α) : RegularExpression α := 1 + r

/-- `r{0,n}` -/
def upTo (r : RegularExpression α) : ℕ → RegularExpression α
  | 0 => 1
  | n + 1 => 1 + r * upTo r n

/-- `r{lo,hi}` -/
def times (r : RegularExpression α) (lo hi : ℕ) : RegularExpression α := r ^ lo * upTo r (hi - lo)

variable {cs x s : List α} {r r' : RegularExpression α}

theorem mem_mul : x ∈ (r * r').matches' ↔ ∃ a ∈ r.matches', ∃ b ∈ r'.matches', a ++ b = x := by
  rw [matches'_mul, Language.mem_mul]

theorem mem_add : x ∈ (r + r').matches' ↔ x ∈ r.matches' ∨ x ∈ r'.matches' := by
  rw [matches'_add, Language.mem_add]

theorem mem_ofClass : x ∈ (ofClass cs).matches' ↔ ∃ a ∈ cs, x = [a] := by
  induction cs with
  | nil =>
    constructor
    · intro h
      exact absurd h (Language.notMem_zero x)
    · rintro ⟨a, ha, -⟩
      exact absurd ha List.not_mem_nil
  | cons c cs ih =>
    have hc : x ∈ (char c).matches' ↔ x = [c] := Iff.rfl
    rw [ofClass, List.foldr_cons, mem_add, ← ofClass, ih, hc]
    simp

theorem mem_text : x ∈ (text s).matches' ↔ x = s := by
  induction s generalizing x with
  | nil => exact Language.mem_one x
  | cons c s ih =>
    rw [text, List.foldr_cons, mem_mul, ← text, matches'_char]
    constructor
    · rintro ⟨a, rfl, b, hb, rfl⟩
      rw [ih.mp hb]
      rfl
    · rintro rfl
      exact ⟨[c], rfl, s, ih.mpr rfl, rfl⟩

theorem mem_opt : x ∈ (opt r).matches' ↔ x = [] ∨ x ∈ r.matches' := by
  rw [opt, mem_add, matches'_epsilon, Language.mem_one]

theorem mem_pow_succ {n : ℕ} :
    x ∈ (r ^ (n + 1)).matches' ↔ ∃ a ∈ r.matches', ∃ b ∈ (r ^ n).matches', a ++ b = x := by
  rw [matches'_pow, pow_succ', Language.mem_mul, matches'_pow]

/-- A symbol of a class in front. -/
theorem mem_ofClass_mul :
    x ∈ (ofClass cs * r).matches' ↔ ∃ c ∈ cs, ∃ y ∈ r.matches', c :: y = x := by
  rw [mem_mul]
  constructor
  · rintro ⟨a, ha, y, hy, rfl⟩
    obtain ⟨c, hc, rfl⟩ := mem_ofClass.mp ha
    exact ⟨c, hc, y, hy, rfl⟩
  · rintro ⟨c, hc, y, hy, rfl⟩
    exact ⟨[c], mem_ofClass.mpr ⟨c, hc, rfl⟩, y, hy, rfl⟩

theorem mem_ofClass_pow {n : ℕ} :
    x ∈ (ofClass cs ^ n).matches' ↔ x.length = n ∧ ∀ a ∈ x, a ∈ cs := by
  induction n generalizing x with
  | zero =>
    rw [matches'_pow, pow_zero, Language.mem_one]
    constructor
    · rintro rfl
      simp
    · rintro ⟨hlen, -⟩
      exact List.length_eq_zero_iff.mp hlen
  | succ n ih =>
    rw [mem_pow_succ, ← mem_mul, mem_ofClass_mul]
    constructor
    · rintro ⟨c, hc, y, hy, rfl⟩
      obtain ⟨hlen, hall⟩ := ih.mp hy
      exact ⟨congrArg (· + 1) hlen, List.forall_mem_cons.mpr ⟨hc, hall⟩⟩
    · rintro ⟨hlen, hall⟩
      obtain ⟨c, y, rfl⟩ := List.exists_cons_of_length_eq_add_one hlen
      rw [List.forall_mem_cons] at hall
      exact ⟨c, hall.1, y, ih.mpr ⟨Nat.succ.inj hlen, hall.2⟩, rfl⟩

theorem mem_upTo_ofClass {n : ℕ} :
    x ∈ (upTo (ofClass cs) n).matches' ↔ x.length ≤ n ∧ ∀ a ∈ x, a ∈ cs := by
  induction n generalizing x with
  | zero =>
    rw [upTo, matches'_epsilon, Language.mem_one]
    constructor
    · rintro rfl
      simp
    · rintro ⟨hlen, -⟩
      exact List.length_eq_zero_iff.mp (by omega)
  | succ n ih =>
    rw [upTo, ← opt, mem_opt, mem_ofClass_mul]
    constructor
    · rintro (rfl | ⟨c, hc, y, hy, rfl⟩)
      · simp
      · obtain ⟨hlen, hall⟩ := ih.mp hy
        exact ⟨Nat.succ_le_succ hlen, List.forall_mem_cons.mpr ⟨hc, hall⟩⟩
    · rintro ⟨hlen, hall⟩
      cases x with
      | nil => exact Or.inl rfl
      | cons c y =>
        rw [List.forall_mem_cons] at hall
        exact Or.inr ⟨c, hall.1, y, ih.mpr ⟨Nat.le_of_succ_le_succ hlen, hall.2⟩, rfl⟩

/-- **A repeated class** matches by the length and the symbols. -/
theorem mem_times_ofClass {lo hi : ℕ} (h : lo ≤ hi) :
    x ∈ (times (ofClass cs) lo hi).matches' ↔
      (lo ≤ x.length ∧ x.length ≤ hi) ∧ ∀ a ∈ x, a ∈ cs := by
  rw [times, mem_mul]
  constructor
  · rintro ⟨a, ha, b, hb, rfl⟩
    obtain ⟨hlena, halla⟩ := mem_ofClass_pow.mp ha
    obtain ⟨hlenb, hallb⟩ := mem_upTo_ofClass.mp hb
    rw [List.length_append, List.forall_mem_append]
    exact ⟨by omega, halla, hallb⟩
  · rintro ⟨hlen, hall⟩
    refine ⟨x.take lo, mem_ofClass_pow.mpr ⟨?_, ?_⟩, x.drop lo,
      mem_upTo_ofClass.mpr ⟨?_, ?_⟩, List.take_append_drop lo x⟩
    · rw [List.length_take]
      omega
    · exact fun a ha => hall a (List.mem_of_mem_take ha)
    · rw [List.length_drop]
      omega
    · exact fun a ha => hall a (List.mem_of_mem_drop ha)

/-! ## Bytes -/

/-- The class of the bytes with a property. -/
def bracket (p : UInt8 → Bool) : List UInt8 := ((List.range 256).map Nat.toUInt8).filter p

theorem mem_bracket {p : UInt8 → Bool} {b : UInt8} : b ∈ bracket p ↔ p b := by
  rw [bracket, List.mem_filter, and_iff_right_iff_imp]
  intro _
  rw [List.mem_map]
  exact ⟨b.toNat, List.mem_range.mpr b.toNat_lt, UInt8.ofNat_toNat⟩

/-- **A fixed number of pieces** with a separator between them. -/
theorem mem_separated {sep : UInt8} {r : RegularExpression UInt8} {n : ℕ} {x : Str} :
    x ∈ ((r * text [sep]) ^ n * r).matches' ↔
      ∃ gs : List Str, gs.length = n + 1 ∧ (∀ g ∈ gs, g ∈ r.matches') ∧ x = joinWith sep gs := by
  induction n generalizing x with
  | zero =>
    rw [mem_mul, matches'_pow, pow_zero]
    constructor
    · rintro ⟨a, ha, b, hb, rfl⟩
      obtain rfl := (Language.mem_one a).mp ha
      exact ⟨[b], rfl, by simpa using hb, rfl⟩
    · rintro ⟨gs, hlen, hgs, rfl⟩
      obtain ⟨g, rfl⟩ := List.length_eq_one_iff.mp hlen
      exact ⟨[], (Language.mem_one _).mpr rfl, g, by simpa using hgs, rfl⟩
  | succ n ih =>
    constructor
    · intro h
      obtain ⟨a, ha, b, hb, rfl⟩ := mem_mul.mp h
      obtain ⟨c, hc, d, hd, rfl⟩ := mem_pow_succ.mp ha
      obtain ⟨g, hg, e, he, rfl⟩ := mem_mul.mp hc
      obtain rfl := mem_text.mp he
      obtain ⟨gs, hlen, hgs, heq⟩ := ih.mp (mem_mul.mpr ⟨d, hd, b, hb, rfl⟩)
      refine ⟨g :: gs, by simp [hlen], List.forall_mem_cons.mpr ⟨hg, hgs⟩, ?_⟩
      rw [joinWith_cons (by rintro rfl; simp at hlen), ← heq]
      simp
    · rintro ⟨gs, hlen, hgs, rfl⟩
      cases gs with
      | nil => simp at hlen
      | cons g gs =>
        rw [List.forall_mem_cons] at hgs
        have hlen' : gs.length = n + 1 := by simpa using hlen
        obtain ⟨d, hd, b, hb, heq⟩ := mem_mul.mp (ih.mpr ⟨gs, hlen', hgs.2, rfl⟩)
        refine mem_mul.mpr ⟨g ++ [sep] ++ d, mem_pow_succ.mpr ⟨g ++ [sep], ?_, d, hd, rfl⟩, b, hb, ?_⟩
        · exact mem_mul.mpr ⟨g, hgs.1, [sep], mem_text.mpr rfl, rfl⟩
        · rw [joinWith_cons (by rintro rfl; simp at hlen'), ← heq]
          simp

end Lib.Regexp
