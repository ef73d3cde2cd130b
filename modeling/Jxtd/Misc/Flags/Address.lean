import Jxtd.Lib.CInt
import Jxtd.Lib.Regexp

/-!
# The addresses of the flags

`check_IPV4` and `check_IPV6` of `misc/flags/flag.cc`, and the validators that call them.

* `checkIPV4`, `checkIPV6`, `addrCheck`, `requiredAddrCheck`: the functions.
* `IsIPv4`, `IsIPv6`: what an address is.
* `checkIPV4_iff`, `checkIPV6_iff`: what the regular expressions and the count of colons accept.
* **`addresses_exact_iff`**: the checks err exactly where an octet is too great, seven groups have
  their `::` at an end, or the colons are too many for an `int`.
-/

namespace Jxtd.Misc.Flags

open Lib Lib.Regexp RegularExpression

def hexDigit (b : UInt8) : Bool := decDigit b || (0x41 ≤ b && b ≤ 0x46) || (0x61 ≤ b && b ≤ 0x66)

/-- `[0-9]` -/
def dec : RegularExpression UInt8 := ofClass (bracket decDigit)

/-- `[0-9A-F]` and `[0-9a-f]`, where the case is ignored. -/
def hex : RegularExpression UInt8 := ofClass (bracket hexDigit)

/-- `[0-9a-f]([0-9a-f]{0,3}:[0-9a-f])*[0-9a-f]{0,3}` -/
def groups : RegularExpression UInt8 :=
  hex * star (upTo hex 3 * text (lit ":") * hex) * upTo hex 3

/-- The regular expression without an omission. -/
def full : RegularExpression UInt8 :=
  text (lit "[") * ((times hex 1 4 * text (lit ":")) ^ 7 * times hex 1 4) * text (lit "]")

/-- The regular expression with an omission. -/
def omitted : RegularExpression UInt8 :=
  text (lit "[") * (groups * text (lit ":") + text (lit ":")) * text (lit ":") * opt groups *
    text (lit "]")

/-- `check_IPV6`; the number of colons is kept in an `int`. -/
def checkIPV6 (str : Str) : Bool :=
  if full.rmatch str then true
  else if omitted.rmatch str then
    let counter := toInt (str.count 0x3a)
    decide (counter ≤ 7)
  else false

/-- The regular expression of `check_IPV4`. -/
def quad : RegularExpression UInt8 :=
  text (lit "localhost") + (times dec 1 3 * text (lit ".")) ^ 3 * times dec 1 3

/-- `check_IPV4` -/
def checkIPV4 (str : Str) : Bool := quad.rmatch str

/-- `addr_check`; the error is the text of the `logic_error`. -/
def addrCheck (value : Str) : Except Str Bool :=
  if value ≠ [] ∧ ¬ (checkIPV6 value ∨ checkIPV4 value) then .error (lit "illegal address")
  else .ok true

/-- `required_addr_check` -/
def requiredAddrCheck (value : Str) : Except Str Bool :=
  if value = [] then .error (lit "missing required field")
  else if ¬ (checkIPV4 value ∨ checkIPV6 value) then .error (lit "illegal address")
  else .ok true

/-! ## Addresses -/

/-- A decimal number of one to three digits. -/
structure Number (n : Str) : Prop where
  pos : 1 ≤ n.length
  le : n.length ≤ 3
  digits : ∀ b ∈ n, decDigit b

/-- A group of one to four hexadecimal digits. -/
structure Group (g : Str) : Prop where
  pos : 1 ≤ g.length
  le : g.length ≤ 4
  digits : ∀ b ∈ g, hexDigit b

/-- Four numbers with dots between them. -/
structure Dotted (ns : List Str) (s : Str) : Prop where
  length : ns.length = 4
  numbers : ∀ n ∈ ns, Number n
  eq : s = joinWith 0x2e ns

/-- Eight groups in brackets. -/
structure Full (gs : List Str) (s : Str) : Prop where
  length : gs.length = 8
  groups : ∀ g ∈ gs, Group g
  eq : s = lit "[" ++ joinWith 0x3a gs ++ lit "]"

/-- Groups with `::` between them, in brackets. -/
structure Omitted (l r : List Str) (s : Str) : Prop where
  left : ∀ g ∈ l, Group g
  right : ∀ g ∈ r, Group g
  eq : s = lit "[" ++ joinWith 0x3a l ++ lit "::" ++ joinWith 0x3a r ++ lit "]"

/-- `localhost`, or four numbers that are at most 255. -/
def IsIPv4 (s : Str) : Prop :=
  s = lit "localhost" ∨ ∃ ns, Dotted ns s ∧ ∀ n ∈ ns, decVal n ≤ 255

/-- Eight groups, or at most seven with one `::`. -/
def IsIPv6 (s : Str) : Prop :=
  (∃ gs, Full gs s) ∨ ∃ l r, Omitted l r s ∧ l.length + r.length ≤ 7

/-- The checks accept exactly the addresses. -/
def Exact (s : Str) : Prop :=
  (checkIPV4 s = true ↔ IsIPv4 s) ∧ (checkIPV6 s = true ↔ IsIPv6 s)

/-- Four numbers, one of which is greater than 255. -/
def GreatNumber (s : Str) : Prop := ∃ ns, Dotted ns s ∧ ∃ n ∈ ns, 255 < decVal n

/-- Seven groups with the `::` before or behind them. -/
def SevenGroups (s : Str) : Prop :=
  ∃ gs, gs.length = 7 ∧ (Omitted [] gs s ∨ Omitted gs [] s)

/-- More than seven groups, and colons whose number as an `int` is at most seven. -/
def ManyColons (s : Str) : Prop :=
  ∃ l r, Omitted l r s ∧ 7 < l.length + r.length ∧ toInt (s.count 0x3a) ≤ 7

variable {s x : Str} {l r gs ns : List Str}

/-! ## What the regular expressions match -/

theorem mem_number : x ∈ (times dec 1 3).matches' ↔ Number x := by
  rw [dec, mem_times_ofClass (by omega)]
  constructor
  · rintro ⟨hlen, hall⟩
    exact ⟨hlen.1, hlen.2, fun b hb => mem_bracket.mp (hall b hb)⟩
  · rintro ⟨hpos, hle, hall⟩
    exact ⟨⟨hpos, hle⟩, fun b hb => mem_bracket.mpr (hall b hb)⟩

theorem mem_group : x ∈ (times hex 1 4).matches' ↔ Group x := by
  rw [hex, mem_times_ofClass (by omega)]
  constructor
  · rintro ⟨hlen, hall⟩
    exact ⟨hlen.1, hlen.2, fun b hb => mem_bracket.mp (hall b hb)⟩
  · rintro ⟨hpos, hle, hall⟩
    exact ⟨⟨hpos, hle⟩, fun b hb => mem_bracket.mpr (hall b hb)⟩

theorem mem_hex : x ∈ hex.matches' ↔ ∃ b, hexDigit b ∧ x = [b] := by
  rw [hex, mem_ofClass]
  simp only [mem_bracket]

/-- The digits of a group behind its first one. -/
theorem mem_upTo_hex {b : UInt8} (hb : hexDigit b) : x ∈ (upTo hex 3).matches' ↔ Group (b :: x) := by
  rw [hex, mem_upTo_ofClass]
  constructor
  · rintro ⟨hlen, hall⟩
    refine ⟨by simp, Nat.succ_le_succ hlen, ?_⟩
    exact List.forall_mem_cons.mpr ⟨hb, fun c hc => mem_bracket.mp (hall c hc)⟩
  · rintro ⟨-, hle, hall⟩
    rw [List.forall_mem_cons] at hall
    exact ⟨Nat.le_of_succ_le_succ hle, fun c hc => mem_bracket.mpr (hall.2 c hc)⟩

/-- A digit, repetitions of the star and a rest are groups with colons between them. -/
theorem exists_joinWith {b : UInt8} {S : List Str} (hb : hexDigit b)
    (hS : ∀ w ∈ S, w ∈ (upTo hex 3 * text (lit ":") * hex).matches')
    (hx : x ∈ (upTo hex 3).matches') :
    ∃ gs ≠ [], (∀ g ∈ gs, Group g) ∧ b :: (S.flatten ++ x) = joinWith 0x3a gs := by
  induction S generalizing b with
  | nil => exact ⟨[b :: x], by simp, by simpa using (mem_upTo_hex hb).mp hx, rfl⟩
  | cons w S ih =>
    rw [List.forall_mem_cons] at hS
    obtain ⟨a, ha, c, hc, rfl⟩ := mem_mul.mp hS.1
    obtain ⟨u, hu, d, hd, rfl⟩ := mem_mul.mp ha
    obtain rfl := mem_text.mp hd
    obtain ⟨b', hb', rfl⟩ := mem_hex.mp hc
    obtain ⟨gs, hne, hgs, heq⟩ := ih hb' hS.2
    refine ⟨(b :: u) :: gs, by simp, List.forall_mem_cons.mpr ⟨(mem_upTo_hex hb).mp hu, hgs⟩, ?_⟩
    rw [joinWith_cons hne, ← heq]
    simp [lit]

theorem Group.exists_cons {g : Str} (hg : Group g) : ∃ b u, hexDigit b ∧ g = b :: u := by
  cases g with
  | nil => exact absurd hg.pos (by simp)
  | cons b u => exact ⟨b, u, hg.digits b List.mem_cons_self, rfl⟩

/-- Groups with colons between them are a digit, repetitions of the star and a rest. -/
theorem exists_flatten (hne : gs ≠ []) (hgs : ∀ g ∈ gs, Group g) :
    ∃ (b : UInt8) (S : List Str) (x : Str), hexDigit b ∧
      (∀ w ∈ S, w ∈ (upTo hex 3 * text (lit ":") * hex).matches') ∧
      x ∈ (upTo hex 3).matches' ∧ b :: (S.flatten ++ x) = joinWith 0x3a gs := by
  induction gs with
  | nil => exact absurd rfl hne
  | cons g gs ih =>
    rw [List.forall_mem_cons] at hgs
    obtain ⟨b, u, hb, rfl⟩ := hgs.1.exists_cons
    have hu := (mem_upTo_hex hb).mpr hgs.1
    cases gs with
    | nil => exact ⟨b, [], u, hb, by simp, hu, rfl⟩
    | cons g' gs =>
      obtain ⟨b', S, x, hb', hS, hx, heq⟩ := ih (by simp) hgs.2
      have hw : u ++ lit ":" ++ [b'] ∈ (upTo hex 3 * text (lit ":") * hex).matches' :=
        mem_mul.mpr ⟨_, mem_mul.mpr ⟨u, hu, _, mem_text.mpr rfl, rfl⟩, [b'],
          mem_hex.mpr ⟨b', hb', rfl⟩, rfl⟩
      refine ⟨b, (u ++ lit ":" ++ [b']) :: S, x, hb, List.forall_mem_cons.mpr ⟨hw, hS⟩, hx, ?_⟩
      rw [joinWith_cons_cons, ← heq]
      simp [lit]

/-- **The star is over groups**: what it matches are groups with colons between them. -/
theorem mem_groups :
    x ∈ groups.matches' ↔ ∃ gs ≠ [], (∀ g ∈ gs, Group g) ∧ x = joinWith 0x3a gs := by
  rw [groups, mem_mul]
  constructor
  · rintro ⟨a, ha, c, hc, rfl⟩
    obtain ⟨d, hd, e, he, rfl⟩ := mem_mul.mp ha
    obtain ⟨b, hb, rfl⟩ := mem_hex.mp hd
    obtain ⟨S, rfl, hS⟩ := Language.mem_kstar.mp he
    obtain ⟨gs, hne, hgs, heq⟩ := exists_joinWith hb hS hc
    exact ⟨gs, hne, hgs, by simpa using heq⟩
  · rintro ⟨gs, hne, hgs, rfl⟩
    obtain ⟨b, S, c, hb, hS, hc, heq⟩ := exists_flatten hne hgs
    refine ⟨[b] ++ S.flatten,
      mem_mul.mpr ⟨[b], mem_hex.mpr ⟨b, hb, rfl⟩, S.flatten, ?_, rfl⟩, c, hc, ?_⟩
    · exact Language.mem_kstar.mpr ⟨S, rfl, hS⟩
    · simpa using heq

theorem mem_full : s ∈ full.matches' ↔ ∃ gs, Full gs s := by
  rw [full, mem_mul]
  constructor
  · rintro ⟨a, ha, e, he, rfl⟩
    obtain ⟨o, ho, x, hx, rfl⟩ := mem_mul.mp ha
    obtain rfl := mem_text.mp he
    obtain rfl := mem_text.mp ho
    obtain ⟨gs, hlen, hgs, rfl⟩ := mem_separated.mp hx
    exact ⟨gs, hlen, fun g hg => mem_group.mp (hgs g hg), rfl⟩
  · rintro ⟨gs, hlen, hgs, rfl⟩
    have hx : joinWith 0x3a gs ∈ ((times hex 1 4 * text (lit ":")) ^ 7 * times hex 1 4).matches' :=
      mem_separated.mpr ⟨gs, hlen, fun g hg => mem_group.mpr (hgs g hg), rfl⟩
    exact ⟨_, mem_mul.mpr ⟨_, mem_text.mpr rfl, _, hx, rfl⟩, _, mem_text.mpr rfl, rfl⟩

/-- What stands before the second colon of the omission. -/
theorem mem_left :
    x ∈ (groups * text (lit ":") + text (lit ":")).matches' ↔
      ∃ l, (∀ g ∈ l, Group g) ∧ x = joinWith 0x3a l ++ lit ":" := by
  rw [mem_add, mem_mul, mem_text]
  constructor
  · rintro (⟨a, ha, c, hc, rfl⟩ | rfl)
    · obtain ⟨l, -, hl, rfl⟩ := mem_groups.mp ha
      obtain rfl := mem_text.mp hc
      exact ⟨l, hl, rfl⟩
    · exact ⟨[], by simp, rfl⟩
  · rintro ⟨l, hl, rfl⟩
    by_cases hne : l = []
    · subst hne
      exact Or.inr rfl
    · exact Or.inl ⟨_, mem_groups.mpr ⟨l, hne, hl, rfl⟩, _, mem_text.mpr rfl, rfl⟩

theorem mem_right :
    x ∈ (opt groups).matches' ↔ ∃ r, (∀ g ∈ r, Group g) ∧ x = joinWith 0x3a r := by
  rw [mem_opt, mem_groups]
  constructor
  · rintro (rfl | ⟨r, -, hr, rfl⟩)
    · exact ⟨[], by simp, rfl⟩
    · exact ⟨r, hr, rfl⟩
  · rintro ⟨r, hr, rfl⟩
    by_cases hne : r = []
    · subst hne
      exact Or.inl rfl
    · exact Or.inr ⟨r, hne, hr, rfl⟩

theorem mem_omitted : s ∈ omitted.matches' ↔ ∃ l r, Omitted l r s := by
  rw [omitted, mem_mul]
  constructor
  · rintro ⟨a, ha, e, he, rfl⟩
    obtain ⟨c, hc, y, hy, rfl⟩ := mem_mul.mp ha
    obtain ⟨d, hd, k, hk, rfl⟩ := mem_mul.mp hc
    obtain ⟨o, ho, x, hx, rfl⟩ := mem_mul.mp hd
    obtain rfl := mem_text.mp ho
    obtain rfl := mem_text.mp hk
    obtain rfl := mem_text.mp he
    obtain ⟨l, hl, rfl⟩ := mem_left.mp hx
    obtain ⟨r, hr, rfl⟩ := mem_right.mp hy
    exact ⟨l, r, hl, hr, by simp [lit]⟩
  · rintro ⟨l, r, hl, hr, rfl⟩
    have hleft := mem_left.mpr ⟨l, hl, rfl⟩
    have hright := mem_right.mpr ⟨r, hr, rfl⟩
    refine ⟨_, mem_mul.mpr ⟨_, mem_mul.mpr ⟨_, mem_mul.mpr ⟨_, mem_text.mpr rfl, _, hleft, rfl⟩,
      _, mem_text.mpr rfl, rfl⟩, _, hright, rfl⟩, _, mem_text.mpr rfl, ?_⟩
    simp [lit]

/-- **What `check_IPV4` accepts.** -/
theorem checkIPV4_iff : checkIPV4 s = true ↔ s = lit "localhost" ∨ ∃ ns, Dotted ns s := by
  rw [checkIPV4, rmatch_iff_matches', quad, mem_add, mem_text]
  refine or_congr_right ?_
  constructor
  · intro h
    obtain ⟨ns, hlen, hns, rfl⟩ := mem_separated.mp h
    exact ⟨ns, hlen, fun n hn => mem_number.mp (hns n hn), rfl⟩
  · rintro ⟨ns, hlen, hns, rfl⟩
    exact mem_separated.mpr ⟨ns, hlen, fun n hn => mem_number.mpr (hns n hn), rfl⟩

/-- **What `check_IPV6` accepts.** -/
theorem checkIPV6_iff :
    checkIPV6 s = true ↔
      (∃ gs, Full gs s) ∨ (∃ l r, Omitted l r s) ∧ toInt (s.count 0x3a) ≤ 7 := by
  rw [← mem_full, ← mem_omitted, ← rmatch_iff_matches', ← rmatch_iff_matches', checkIPV6]
  split_ifs with hfull homitted
  · simp [hfull]
  · simp [hfull, homitted]
  · simp [hfull, homitted]

/-! ## Numbers of an address -/

theorem Number.notMem {n : Str} (hn : Number n) : (0x2e : UInt8) ∉ n := by
  intro h
  exact absurd (hn.digits _ h) (by decide)

theorem Dotted.unique {ns' : List Str} (h : Dotted ns s) (h' : Dotted ns' s) : ns = ns' := by
  have hne : ns ≠ [] := by
    rintro rfl
    exact absurd h.length (by simp)
  have hne' : ns' ≠ [] := by
    rintro rfl
    exact absurd h'.length (by simp)
  exact joinWith_injective hne hne' (fun n hn => (h.numbers n hn).notMem)
    (fun n hn => (h'.numbers n hn).notMem) (h.eq.symm.trans h'.eq)

theorem Dotted.ne_localhost (h : Dotted ns s) : s ≠ lit "localhost" := by
  intro heq
  have hcount := count_joinWith fun n hn => (h.numbers n hn).notMem
  rw [← h.eq, heq, h.length] at hcount
  exact absurd hcount (by decide)

theorem exact4_iff : (checkIPV4 s = true ↔ IsIPv4 s) ↔ ¬ GreatNumber s := by
  rw [checkIPV4_iff, IsIPv4]
  by_cases hd : ∃ ns, Dotted ns s
  · obtain ⟨ns, hns⟩ := hd
    have hdotted : (∃ ns, Dotted ns s) := ⟨ns, hns⟩
    constructor
    · rintro h ⟨ns', hns', n, hn, hlt⟩
      obtain ⟨ns'', hns'', hle⟩ := (h.mp (Or.inr hdotted)).resolve_left hns.ne_localhost
      rw [hns'.unique hns''] at hn
      exact absurd (hle n hn) (by omega)
    · intro h
      refine iff_of_true (Or.inr hdotted) (Or.inr ⟨ns, hns, fun n hn => ?_⟩)
      by_contra hlt
      exact h ⟨ns, hns, n, hn, by omega⟩
  · refine iff_of_true (or_congr_right (iff_of_false hd ?_)) ?_
    · rintro ⟨ns, hns, -⟩
      exact hd ⟨ns, hns⟩
    · rintro ⟨ns, hns, -⟩
      exact hd ⟨ns, hns⟩

/-! ## Colons of an address -/

theorem Group.notMem {g : Str} (hg : Group g) : (0x3a : UInt8) ∉ g := by
  intro h
  exact absurd (hg.digits _ h) (by decide)

theorem Group.ne_nil {g : Str} (hg : Group g) : g ≠ [] := by
  rintro rfl
  exact absurd hg.pos (by simp)

theorem Full.count (h : Full gs s) : s.count 0x3a = 7 := by
  have hcount := count_joinWith fun g hg => (h.groups g hg).notMem
  rw [h.eq, List.count_append, List.count_append, hcount, h.length]
  decide

theorem Omitted.count (h : Omitted l r s) :
    s.count 0x3a = (l.length - 1) + (r.length - 1) + 2 := by
  have hl := count_joinWith fun g hg => (h.left g hg).notMem
  have hr := count_joinWith fun g hg => (h.right g hg).notMem
  have hopen : (lit "[").count 0x3a = 0 := by decide
  have htwo : (lit "::").count 0x3a = 2 := by decide
  have hclose : (lit "]").count 0x3a = 0 := by decide
  rw [h.eq]
  simp only [List.count_append, hl, hr, hopen, htwo, hclose]
  omega

theorem Group.head_ne {g : Str} (hg : Group g) : g.head? ≠ some 0x3a := by
  intro h
  exact hg.notMem (List.mem_of_mem_head? h)

/-- There are no groups before the omission exactly if a colon follows the bracket. -/
theorem Omitted.left_eq_nil_iff (h : Omitted l r s) : l = [] ↔ (s.drop 1).head? = some 0x3a := by
  have hs : s.drop 1 = joinWith 0x3a l ++ (lit "::" ++ joinWith 0x3a r ++ lit "]") := by
    rw [h.eq]
    simp [lit]
  rw [hs]
  cases l with
  | nil => simp [lit]
  | cons g l =>
    have hg := h.left g List.mem_cons_self
    have hhead : (joinWith 0x3a (g :: l)).head? = g.head? := head_joinWith hg.ne_nil
    have hne : joinWith 0x3a (g :: l) ≠ [] := by
      intro hnil
      rw [hnil] at hhead
      exact hg.ne_nil (List.head?_eq_none_iff.mp hhead.symm)
    rw [List.head?_append_of_ne_nil _ hne, hhead]
    exact iff_of_false (List.cons_ne_nil _ _) hg.head_ne

/-- There are none behind it exactly if a colon precedes the bracket. -/
theorem Omitted.right_eq_nil_iff (h : Omitted l r s) :
    r = [] ↔ s.dropLast.getLast? = some 0x3a := by
  have hs : s.dropLast = lit "[" ++ joinWith 0x3a l ++ lit "::" ++ joinWith 0x3a r := by
    rw [h.eq]
    exact List.dropLast_concat
  rw [hs, List.getLast?_append]
  constructor
  · rintro rfl
    rw [List.getLast?_append]
    rfl
  · intro hlast
    by_contra hne
    obtain ⟨g, hg, heq⟩ := exists_getLast_joinWith (b := 0x3a) hne fun g hg => (h.right g hg).ne_nil
    rw [heq] at hlast
    cases hc : g.getLast? with
    | none => exact (h.right g hg).ne_nil (List.getLast?_eq_none_iff.mp hc)
    | some c =>
      rw [hc] at hlast
      obtain rfl := Option.some.inj hlast
      exact (h.right g hg).notMem (List.mem_of_mem_getLast? hc)

/-- The number of groups is a matter of the string. -/
theorem Omitted.length_eq {l' r' : List Str} (h : Omitted l r s) (h' : Omitted l' r' s) :
    l.length + r.length = l'.length + r'.length := by
  have hl := h.left_eq_nil_iff.trans h'.left_eq_nil_iff.symm
  have hr := h.right_eq_nil_iff.trans h'.right_eq_nil_iff.symm
  have hcount := h.count.symm.trans h'.count
  rw [← List.length_eq_zero_iff, ← List.length_eq_zero_iff] at hl hr
  omega

theorem SevenGroups.count (h : SevenGroups s) : s.count 0x3a = 8 := by
  obtain ⟨gs, hlen, h | h⟩ := h
  · rw [h.count, hlen]
    rfl
  · rw [h.count, hlen]
    rfl

theorem SevenGroups.exists (h : SevenGroups s) :
    ∃ l r, Omitted l r s ∧ l.length + r.length = 7 := by
  obtain ⟨gs, hlen, h | h⟩ := h
  · exact ⟨[], gs, h, by simpa using hlen⟩
  · exact ⟨gs, [], h, by simpa using hlen⟩

/-- Eight colons in an address are those of seven groups. -/
theorem Omitted.sevenGroups (h : Omitted l r s) (hlen : l.length + r.length ≤ 7)
    (hcount : 7 < s.count 0x3a) : SevenGroups s := by
  rw [h.count] at hcount
  by_cases hl : l = []
  · subst hl
    exact ⟨r, by simp at hlen hcount; omega, Or.inl h⟩
  · have hpos := List.length_pos_iff.mpr hl
    obtain rfl : r = [] := List.length_eq_zero_iff.mp (by omega)
    exact ⟨l, by simp at hlen hcount; omega, Or.inr h⟩

/-- More than seven groups have at least eight colons. -/
theorem Omitted.lt_count (h : Omitted l r s) (hlen : 7 < l.length + r.length) :
    7 < s.count 0x3a := by
  rw [h.count]
  omega

theorem exact6_iff : (checkIPV6 s = true ↔ IsIPv6 s) ↔ ¬ SevenGroups s ∧ ¬ ManyColons s := by
  rw [checkIPV6_iff, IsIPv6]
  by_cases hfull : ∃ gs, Full gs s
  · refine iff_of_true (iff_of_true (Or.inl hfull) (Or.inl hfull)) ?_
    obtain ⟨gs, hgs⟩ := hfull
    have hcount := hgs.count
    constructor
    · intro hseven
      exact absurd hseven.count (by omega)
    · rintro ⟨l, r, h, hlen, -⟩
      exact absurd (h.lt_count hlen) (by omega)
  by_cases homitted : ∃ l r, Omitted l r s
  · have hall := homitted
    obtain ⟨l, r, h⟩ := homitted
    by_cases hlen : l.length + r.length ≤ 7
    · -- an address: it is accepted unless it has eight colons
      have hkept : toInt (s.count 0x3a) = s.count 0x3a :=
        toInt_of_lt (by rw [h.count]; omega)
      have hmany : ¬ ManyColons s := by
        rintro ⟨l', r', h', hlen', -⟩
        have hsame := h.length_eq h'
        omega
      rw [hkept]
      constructor
      · intro heq
        refine ⟨fun hseven => ?_, hmany⟩
        have hcount := hseven.count
        rcases heq.mpr (Or.inr ⟨l, r, h, hlen⟩) with hgs | ⟨-, hle⟩
        · exact hfull hgs
        · omega
      · rintro ⟨hseven, -⟩
        refine iff_of_true (Or.inr ⟨hall, ?_⟩) (Or.inr ⟨l, r, h, hlen⟩)
        by_contra hlt
        exact hseven (h.sevenGroups hlen (by omega))
    · -- none: it is refused unless the count overflows
      have haddress : ¬ ∃ l r, Omitted l r s ∧ l.length + r.length ≤ 7 := by
        rintro ⟨l', r', h', hlen'⟩
        have hsame := h.length_eq h'
        omega
      have hseven : ¬ SevenGroups s := by
        intro hseven
        obtain ⟨l', r', h', hlen'⟩ := hseven.exists
        exact haddress ⟨l', r', h', hlen'.le⟩
      constructor
      · intro heq
        refine ⟨hseven, ?_⟩
        rintro ⟨-, -, -, -, hle⟩
        rcases heq.mp (Or.inr ⟨hall, hle⟩) with hgs | haddr
        · exact hfull hgs
        · exact haddress haddr
      · rintro ⟨-, hmany⟩
        refine iff_of_false ?_ (not_or.mpr ⟨hfull, haddress⟩)
        rintro (hgs | ⟨-, hle⟩)
        · exact hfull hgs
        · exact hmany ⟨l, r, h, by omega, hle⟩
  · refine iff_of_true (iff_of_false ?_ ?_) ⟨?_, ?_⟩
    · rintro (hgs | ⟨hall, -⟩)
      · exact hfull hgs
      · exact homitted hall
    · rintro (hgs | ⟨l, r, h, -⟩)
      · exact hfull hgs
      · exact homitted ⟨l, r, h⟩
    · intro hseven
      obtain ⟨l, r, h, -⟩ := hseven.exists
      exact homitted ⟨l, r, h⟩
    · rintro ⟨l, r, h, -⟩
      exact homitted ⟨l, r, h⟩

/-- **Exactly where the checks err**: a number above 255, seven groups with their `::` at an end,
and colons that overflow an `int`. -/
theorem addresses_exact_iff (s : Str) :
    Exact s ↔ ¬ GreatNumber s ∧ ¬ SevenGroups s ∧ ¬ ManyColons s := by
  rw [Exact, exact4_iff, exact6_iff]

/-- **The address `999.1.1.1`** is accepted. -/
theorem not_exact_999 : ¬ Exact (lit "999.1.1.1") := by
  rintro ⟨h4, -⟩
  refine exact4_iff.mp h4 ⟨[lit "999", lit "1", lit "1", lit "1"], ⟨rfl, ?_, rfl⟩, lit "999", ?_, ?_⟩
  · simp only [List.forall_mem_cons, List.not_mem_nil, false_implies, implies_true, and_true]
    refine ⟨⟨by decide, by decide, ?_⟩, ⟨by decide, by decide, ?_⟩, ⟨by decide, by decide, ?_⟩,
      ⟨by decide, by decide, ?_⟩⟩ <;>
      exact List.all_eq_true.mp (by decide)
  · exact List.mem_cons_self
  · decide

/-! ## The validators -/

theorem addrCheck_eq_ok {value : Str} :
    addrCheck value = .ok true ↔ value = [] ∨ checkIPV6 value ∨ checkIPV4 value := by
  rw [addrCheck]
  split_ifs with h
  · simp only [false_iff]
    rintro (hnil | hcheck)
    · exact h.1 hnil
    · exact h.2 hcheck
  · simp only [true_iff]
    by_contra hne
    rw [not_or] at hne
    exact h hne

theorem requiredAddrCheck_eq_ok {value : Str} :
    requiredAddrCheck value = .ok true ↔ value ≠ [] ∧ addrCheck value = .ok true := by
  rw [addrCheck_eq_ok, requiredAddrCheck]
  split_ifs with hnil hcheck
  · simp [hnil]
  · rw [or_comm] at hcheck
    simp [hnil, hcheck]
  · rw [or_comm] at hcheck
    simp [hnil, hcheck]

end Jxtd.Misc.Flags
