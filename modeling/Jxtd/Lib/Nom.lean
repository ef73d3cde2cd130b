import Jxtd.Lib.Rust

/-!
# Parsers of byte slices

A parser consumes the beginning of its input and returns the rest with a value.

* `Fail`: a recoverable error, a failure, or a panic inside the parser.
* `take`, `tag`, `count`: the parsers that take a number of bytes, that expect given bytes, and that
  repeat a parser.
* `expect`: an error or a failure becomes a panic.
* `Panics`, **`panics_bind`**, `NoFailure`, `Settles`: the ways a computation ends without a value.
* **`count_take`**, `count_eq_ok`: what a repeated parser of blocks of one length reads.
* `space0`, `isNot`, `takeUntil`: parsers of characters; `isNot_eq_ok`, `takeUntil_eq_ok`.
* `many0`: a parser repeated until it returns an error; `many0_of_error`, **`many0_of_ok`**.
-/

namespace Lib

/-- Why a parser does not return a value. -/
inductive Fail
  | error
  | failure
  | panics (msg : String)
  deriving DecidableEq

/-- A computation that can panic. -/
def orPanic {α : Type} (x : Except String α) : Except Fail α :=
  match x with
  | .ok a => .ok a
  | .error msg => .error (.panics msg)

/-- `expect`: an error or a failure panics with the message. -/
def expect {α : Type} (msg : String) (x : Except Fail α) : Except Fail α :=
  match x with
  | .ok a => .ok a
  | .error (.panics m) => .error (.panics m)
  | .error _ => .error (.panics msg)

/-- `nom::bytes::complete::take`. -/
def take (n : ℕ) (input : Str) : Except Fail (Str × Str) :=
  if n ≤ input.length then .ok (input.drop n, input.take n) else .error .error

/-- `nom::bytes::complete::tag`. -/
def tag (t : Str) (input : Str) : Except Fail (Str × Str) :=
  if input.take t.length = t then .ok (input.drop t.length, t) else .error .error

/-- `nom::multi::count`. -/
def count {α : Type} (f : Str → Except Fail (Str × α)) : ℕ → Str → Except Fail (Str × List α)
  | 0, input => .ok (input, [])
  | n + 1, input => do
    let (input, a) ← f input
    let (input, as) ← count f n input
    return (input, a :: as)

/-- A computation that panics. -/
def Panics {α : Type} (x : Except Fail α) : Prop := ∃ msg, x = .error (.panics msg)

/-- A computation that does not return a failure. -/
def NoFailure {α : Type} (x : Except Fail α) : Prop := x ≠ .error .failure

section Outcome

variable {α β : Type}

@[simp] theorem not_panics_ok (a : α) : ¬Panics (.ok a) := fun ⟨_, h⟩ => nomatch h

@[simp] theorem not_panics_error : ¬Panics (.error .error : Except Fail α) :=
  fun ⟨_, h⟩ => nomatch h

@[simp] theorem panics_panics (msg : String) : Panics (.error (.panics msg) : Except Fail α) :=
  ⟨msg, rfl⟩

/-- **A sequence panics** in its first step or after it. -/
theorem panics_bind {x : Except Fail α} {f : α → Except Fail β} :
    Panics (x >>= f) ↔ Panics x ∨ ∃ a, x = .ok a ∧ Panics (f a) := by
  cases x with
  | error e =>
    refine ⟨fun ⟨msg, h⟩ => ?_, ?_⟩
    · cases h
      exact .inl ⟨msg, rfl⟩
    · rintro (⟨msg, h⟩ | ⟨a, h, -⟩)
      · cases h
        exact ⟨msg, rfl⟩
      · cases h
  | ok a =>
    refine ⟨fun h => .inr ⟨a, rfl, h⟩, ?_⟩
    rintro (⟨msg, h⟩ | ⟨a', h, hf⟩)
    · cases h
    · cases h
      exact hf

@[simp] theorem panics_map {x : Except Fail α} {f : α → β} : Panics (x.map f) ↔ Panics x := by
  cases x with
  | error e =>
    exact ⟨fun ⟨msg, h⟩ => ⟨msg, by cases h; rfl⟩, fun ⟨msg, h⟩ => ⟨msg, by cases h; rfl⟩⟩
  | ok a => exact iff_of_false (not_panics_ok (f a)) (not_panics_ok a)

@[simp] theorem noFailure_ok (a : α) : NoFailure (.ok a) := fun h => nomatch h

@[simp] theorem noFailure_error : NoFailure (.error .error : Except Fail α) := fun h => nomatch h

@[simp] theorem noFailure_panics (msg : String) :
    NoFailure (.error (.panics msg) : Except Fail α) :=
  fun h => nomatch h

theorem NoFailure.bind {x : Except Fail α} {f : α → Except Fail β} (hx : NoFailure x)
    (hf : ∀ a, NoFailure (f a)) : NoFailure (x >>= f) := by
  cases x with
  | error e =>
    intro h
    cases h
    exact hx rfl
  | ok a => exact hf a

/-- A computation that returns a value or panics. -/
def Settles {α : Type} (x : Except Fail α) : Prop := ∀ e, x = .error e → Panics x

theorem settles_ok (a : α) : Settles (.ok a) := fun _ h => nomatch h

theorem settles_panics (msg : String) : Settles (.error (.panics msg) : Except Fail α) :=
  fun _ _ => panics_panics msg

theorem Settles.bind {x : Except Fail α} {f : α → Except Fail β} (hx : Settles x)
    (hf : ∀ a, x = .ok a → Settles (f a)) : Settles (x >>= f) := by
  cases x with
  | error e =>
    obtain ⟨msg, h⟩ := hx e rfl
    cases h
    exact settles_panics msg
  | ok a => exact hf a rfl

/-- **A computation that settles** panics exactly if it returns no value. -/
theorem Settles.not_panics_iff {x : Except Fail α} (hx : Settles x) :
    ¬Panics x ↔ ∃ a, x = .ok a := by
  cases x with
  | error e => exact iff_of_false (fun h => h (hx e rfl)) fun ⟨_, h⟩ => nomatch h
  | ok a => exact iff_of_true (not_panics_ok a) ⟨a, rfl⟩

theorem settles_orPanic (x : Except String α) : Settles (orPanic x) := by
  cases x with
  | error msg => exact settles_panics msg
  | ok a => exact settles_ok a

theorem settles_expect (msg : String) (x : Except Fail α) : Settles (expect msg x) := by
  cases x with
  | error e => cases e <;> exact settles_panics _
  | ok a => exact settles_ok a

theorem Settles.mapM {f : α → Except Fail β} (hf : ∀ a, Settles (f a)) (as : List α) :
    Settles (as.mapM f) := by
  induction as with
  | nil => exact settles_ok []
  | cons a as ih =>
    rw [List.mapM_cons]
    exact (hf a).bind fun _ _ => ih.bind fun _ _ => settles_ok _

theorem NoFailure.map {x : Except Fail α} (hx : NoFailure x) (f : α → β) : NoFailure (x.map f) := by
  cases x with
  | error e =>
    intro h
    cases h
    exact hx rfl
  | ok a => exact noFailure_ok (f a)

end Outcome

theorem orPanic_eq_ok {α : Type} {x : Except String α} {a : α} :
    orPanic x = .ok a ↔ x = .ok a := by
  cases x with
  | error msg => exact iff_of_false (fun h => nomatch h) fun h => nomatch h
  | ok b => rw [orPanic, Except.ok.injEq, Except.ok.injEq]

theorem expect_eq_ok {α : Type} {msg : String} {x : Except Fail α} {a : α} :
    expect msg x = .ok a ↔ x = .ok a := by
  cases x with
  | error e => cases e <;> exact iff_of_false (fun h => nomatch h) fun h => nomatch h
  | ok b => rw [expect, Except.ok.injEq]

theorem take_eq_ok {n : ℕ} {input rest out : Str} :
    take n input = .ok (rest, out) ↔
      n ≤ input.length ∧ rest = input.drop n ∧ out = input.take n := by
  unfold take
  split_ifs with h
  · rw [Except.ok.injEq, Prod.mk.injEq]
    exact ⟨fun ⟨h₁, h₂⟩ => ⟨h, h₁.symm, h₂.symm⟩, fun ⟨_, h₁, h₂⟩ => ⟨h₁.symm, h₂.symm⟩⟩
  · exact iff_of_false (fun h => nomatch h) fun h' => h h'.1

theorem take_append {n : ℕ} {a : Str} (h : a.length = n) (rest : Str) :
    take n (a ++ rest) = .ok (rest, a) :=
  take_eq_ok.mpr ⟨by rw [List.length_append]; omega, (List.drop_left' h).symm,
    (List.take_left' h).symm⟩

theorem take_iff_append {n : ℕ} {input rest out : Str} :
    take n input = .ok (rest, out) ↔ out.length = n ∧ input = out ++ rest := by
  rw [take_eq_ok]
  constructor
  · rintro ⟨hle, rfl, rfl⟩
    exact ⟨List.length_take_of_le hle, (List.take_append_drop n input).symm⟩
  · rintro ⟨rfl, rfl⟩
    exact take_eq_ok.mp (take_append rfl rest)

/-- The field at some position is taken there. -/
theorem take_field {n k : ℕ} {input : Str} (h : k + n ≤ input.length) :
    take n (input.drop k) = .ok (input.drop (k + n), field input k n) := by
  refine take_eq_ok.mpr ⟨?_, ?_, rfl⟩
  · rw [List.length_drop]
    omega
  · rw [List.drop_drop]

theorem take_one_iff {input rest out : Str} :
    take 1 input = .ok (rest, out) ↔ ∃ b, out = [b] ∧ input = b :: rest := by
  rw [take_iff_append, List.length_eq_one_iff]
  constructor
  · rintro ⟨⟨b, rfl⟩, rfl⟩
    exact ⟨b, rfl, rfl⟩
  · rintro ⟨b, rfl, rfl⟩
    exact ⟨⟨b, rfl⟩, rfl⟩

theorem take_one (b : UInt8) (rest : Str) : take 1 ([b] ++ rest) = .ok (rest, [b]) :=
  take_append (a := [b]) rfl rest

theorem tag_append (t rest : Str) : tag t (t ++ rest) = .ok (rest, t) := by
  rw [tag, List.take_left, if_pos rfl, List.drop_left]

theorem tag_eq_ok_iff {t input rest out : Str} :
    tag t input = .ok (rest, out) ↔
      input.take t.length = t ∧ rest = input.drop t.length ∧ out = t := by
  unfold tag
  split_ifs with h
  · rw [Except.ok.injEq, Prod.mk.injEq]
    exact ⟨fun ⟨h₁, h₂⟩ => ⟨h, h₁.symm, h₂.symm⟩, fun ⟨_, h₁, h₂⟩ => ⟨h₁.symm, h₂.symm⟩⟩
  · exact iff_of_false (fun h' => nomatch h') fun h' => h h'.1

/-- What `tag` reads. -/
theorem tag_eq_ok {t input rest out : Str} (h : tag t input = .ok (rest, out)) :
    input = t ++ rest ∧ out = t := by
  unfold tag at h
  split_ifs at h with ht
  cases h
  have hcut := List.take_append_drop t.length input
  rw [ht] at hcut
  exact ⟨hcut.symm, rfl⟩

/-- **Blocks of one length.** A parser that reads the first `k` bytes, repeated `n` times, reads
the `n` first blocks of its input. -/
theorem count_take {α : Type} {f : Str → Except Fail (Str × α)} {k : ℕ} (g : Str → α)
    (hf : ∀ input rest a, f input = .ok (rest, a) →
      k ≤ input.length ∧ rest = input.drop k ∧ a = g input)
    {n : ℕ} {input rest : Str} {as : List α} (h : count f n input = .ok (rest, as)) :
    k * n ≤ input.length ∧ as.length = n ∧
      ∀ i, i < n → as[i]? = some (g (input.drop (k * i))) := by
  induction n generalizing input as with
  | zero =>
    cases h
    exact ⟨Nat.zero_le _, rfl, fun i hi => absurd hi (Nat.not_lt_zero i)⟩
  | succ n ih =>
    obtain ⟨⟨r, a⟩, ha, h⟩ := bind_eq_ok.mp h
    obtain ⟨⟨r', as'⟩, has, h⟩ := bind_eq_ok.mp h
    cases h
    obtain ⟨hk, rfl, rfl⟩ := hf _ _ _ ha
    obtain ⟨hlen, hn, hget⟩ := ih has
    rw [List.length_drop] at hlen
    refine ⟨by rw [Nat.mul_succ]; omega, by rw [List.length_cons, hn], fun i hi => ?_⟩
    cases i with
    | zero => simp
    | succ i =>
      rw [List.getElem?_cons_succ, hget i (by omega), List.drop_drop, Nat.mul_succ, Nat.add_comm k]

/-- **Exactly what a repeated parser reads** whose parser reads the first `k` bytes. -/
theorem count_eq_ok {α : Type} {f : Str → Except Fail (Str × α)} {k : ℕ} {g : Str → α}
    (hf : ∀ input rest a, f input = .ok (rest, a) ↔
      k ≤ input.length ∧ rest = input.drop k ∧ a = g input)
    {n : ℕ} {input rest : Str} {as : List α} :
    count f n input = .ok (rest, as) ↔
      k * n ≤ input.length ∧ rest = input.drop (k * n) ∧
        as = (List.range n).map fun i => g (input.drop (k * i)) := by
  induction n generalizing input rest as with
  | zero =>
    rw [count, Except.ok.injEq, Prod.mk.injEq]
    simp [eq_comm]
  | succ n ih =>
    have hrange : ((List.range (n + 1)).map fun i => g (input.drop (k * i))) =
        g input :: (List.range n).map fun i => g ((input.drop k).drop (k * i)) := by
      rw [List.range_succ_eq_map, List.map_cons, List.map_map, Nat.mul_zero, List.drop_zero]
      congr 1
      refine List.map_congr_left fun i _ => ?_
      rw [Function.comp_apply, List.drop_drop, Nat.mul_succ, Nat.add_comm]
    rw [count, hrange]
    constructor
    · intro h
      obtain ⟨⟨r, a⟩, ha, h⟩ := bind_eq_ok.mp h
      obtain ⟨⟨r', as'⟩, has, h⟩ := bind_eq_ok.mp h
      cases h
      obtain ⟨hk, rfl, rfl⟩ := (hf _ _ _).mp ha
      obtain ⟨hlen, rfl, rfl⟩ := ih.mp has
      rw [List.length_drop] at hlen
      exact ⟨by rw [Nat.mul_succ]; omega, by rw [List.drop_drop, Nat.mul_succ, Nat.add_comm], rfl⟩
    · rintro ⟨hlen, rfl, rfl⟩
      rw [Nat.mul_succ] at hlen
      refine bind_eq_ok.mpr ⟨_, (hf _ _ _).mpr ⟨by omega, rfl, rfl⟩, bind_eq_ok.mpr
        ⟨_, ih.mpr ⟨by rw [List.length_drop]; omega, rfl, rfl⟩, ?_⟩⟩
      rw [List.drop_drop, Nat.mul_succ, Nat.add_comm k]
      rfl

/-! ## Characters -/

/-- `nom::character::complete::space0`: spaces and tabs. -/
def space0 (input : Str) : Except Fail (Str × Str) :=
  .ok (input.dropWhile (· ∈ lit " \t"), input.takeWhile (· ∈ lit " \t"))

/-- `nom::bytes::complete::is_not`: one byte or more, up to the first of the given ones. -/
def isNot (stops : Str) (input : Str) : Except Fail (Str × Str) :=
  if input.takeWhile (· ∉ stops) = [] then .error .error
  else .ok (input.dropWhile (· ∉ stops), input.takeWhile (· ∉ stops))

/-- Where the given bytes begin for the first time. -/
def findSubstring (t : Str) : Str → Option ℕ
  | [] => if t = [] then some 0 else none
  | b :: bs => if t <+: b :: bs then some 0 else (findSubstring t bs).map (· + 1)

/-- `nom::bytes::complete::take_until`. -/
def takeUntil (t : Str) (input : Str) : Except Fail (Str × Str) :=
  match findSubstring t input with
  | none => .error .error
  | some n => .ok (input.drop n, input.take n)

theorem space0_of_notMem {input : Str} (h : ∀ b ∈ lit " \t", input.head? ≠ some b) :
    space0 input = .ok (input, []) := by
  cases input with
  | nil => rfl
  | cons b bs =>
    have hb : b ∉ lit " \t" := fun hb => h b hb rfl
    rw [space0, List.dropWhile_cons_of_neg (by simpa using hb),
      List.takeWhile_cons_of_neg (by simpa using hb)]

theorem length_of_space0 {input rest out : Str} (h : space0 input = .ok (rest, out)) :
    rest.length ≤ input.length := by
  cases h
  exact (List.dropWhile_sublist _).length_le

theorem isNot_append {stops a : Str} {b : UInt8} (hne : a ≠ []) (ha : ∀ x ∈ a, x ∉ stops)
    (hb : b ∈ stops) (rest : Str) : isNot stops (a ++ b :: rest) = .ok (b :: rest, a) := by
  have hall : ∀ x ∈ a, decide (x ∉ stops) = true := fun x hx => decide_eq_true (ha x hx)
  have htake : (a ++ b :: rest).takeWhile (· ∉ stops) = a := by
    rw [List.takeWhile_append_of_pos hall]
    simp [hb]
  have hdrop : (a ++ b :: rest).dropWhile (· ∉ stops) = b :: rest := by
    rw [List.dropWhile_append_of_pos hall]
    simp [hb]
  rw [isNot, htake, hdrop, if_neg hne]

/-- What `is_not` reads. -/
theorem isNot_eq_ok {stops input rest out : Str} (h : isNot stops input = .ok (rest, out)) :
    input = out ++ rest ∧ out ≠ [] ∧ (∀ x ∈ out, x ∉ stops) ∧ ∀ b ∈ rest.head?, b ∈ stops := by
  unfold isNot at h
  split_ifs at h with hnil
  cases h
  refine ⟨List.takeWhile_append_dropWhile.symm, hnil, fun x hx => ?_, fun b hb => ?_⟩
  · simpa using List.all_eq_true.mp List.all_takeWhile x hx
  · have hnot := List.head?_dropWhile_not (fun x => decide (x ∉ stops)) input
    rw [Option.mem_def.mp hb] at hnot
    simpa using hnot

theorem findSubstring_singleton {b : UInt8} {a : Str} (ha : b ∉ a) (rest : Str) :
    findSubstring [b] (a ++ b :: rest) = some a.length := by
  induction a with
  | nil =>
    rw [List.nil_append, findSubstring, if_pos (by simp)]
    rfl
  | cons x a ih =>
    rw [List.mem_cons, not_or] at ha
    rw [List.cons_append, findSubstring, if_neg (by simpa using ha.1), ih ha.2]
    rfl

theorem findSubstring_singleton_eq_none {b : UInt8} {input : Str} (h : b ∉ input) :
    findSubstring [b] input = none := by
  induction input with
  | nil => rfl
  | cons x input ih =>
    rw [List.mem_cons, not_or] at h
    rw [findSubstring, if_neg (by simpa using h.1), ih h.2]
    rfl

theorem takeUntil_append {b : UInt8} {a : Str} (ha : b ∉ a) (rest : Str) :
    takeUntil [b] (a ++ b :: rest) = .ok (b :: rest, a) := by
  rw [takeUntil, findSubstring_singleton ha]
  simp

/-- What `take_until` reads. -/
theorem takeUntil_eq_ok {b : UInt8} {input rest out : Str}
    (h : takeUntil [b] input = .ok (rest, out)) :
    ∃ rest', rest = b :: rest' ∧ input = out ++ b :: rest' ∧ b ∉ out := by
  by_cases hmem : b ∈ input
  · obtain ⟨a, rest', rfl, ha⟩ := List.eq_append_cons_of_mem hmem
    rw [takeUntil_append ha] at h
    cases h
    exact ⟨rest', rfl, rfl, ha⟩
  · rw [takeUntil, findSubstring_singleton_eq_none hmem] at h
    cases h

/-! ## Repetition -/

section Many

variable {α : Type}

/-- The loop of `many0`, for at most the given number of repetitions. -/
def many0Loop (f : Str → Except Fail (Str × α)) : ℕ → Str → Except Fail (Str × List α)
  | 0, input => .ok (input, [])
  | n + 1, input =>
    match f input with
    | .error .error => .ok (input, [])
    | .error e => .error e
    | .ok (rest, a) =>
      if rest.length = input.length then .error .error
      else (many0Loop f n rest).map fun (rest, as) => (rest, a :: as)

/-- `nom::multi::many0`: no parser takes something more often than its input has bytes. -/
def many0 (f : Str → Except Fail (Str × α)) (input : Str) : Except Fail (Str × List α) :=
  many0Loop f (input.length + 1) input

variable {f : Str → Except Fail (Str × α)} {input : Str}

theorem many0_of_error (h : f input = .error .error) : many0 f input = .ok (input, []) := by
  rw [many0, many0Loop, h]

theorem many0_of_panics {msg : String} (h : f input = .error (.panics msg)) :
    many0 f input = .error (.panics msg) := by
  rw [many0, many0Loop, h]

/-- A parser that takes something whenever it returns a value. -/
def Consumes (f : Str → Except Fail (Str × α)) : Prop :=
  ∀ input rest a, f input = .ok (rest, a) → rest.length < input.length

theorem many0Loop_eq (hf : Consumes f) {n m : ℕ} (hn : input.length < n) (hm : input.length < m) :
    many0Loop f n input = many0Loop f m input := by
  induction n generalizing m input with
  | zero => exact absurd hn (Nat.not_lt_zero _)
  | succ n ih =>
    obtain ⟨m, rfl⟩ := Nat.exists_eq_succ_of_ne_zero (Nat.ne_of_gt (Nat.zero_lt_of_lt hm))
    rw [many0Loop, many0Loop]
    split
    · rfl
    · rfl
    · rename_i rest a h
      have hlt := hf _ _ _ h
      rw [ih (m := m) (by omega) (by omega)]

/-- **One more repetition.** -/
theorem many0_of_ok (hf : Consumes f) {rest : Str} {a : α} (h : f input = .ok (rest, a)) :
    many0 f input = (many0 f rest).map fun (rest, as) => (rest, a :: as) := by
  have hlt := hf _ _ _ h
  rw [many0, many0Loop, h]
  dsimp only
  rw [if_neg (Nat.ne_of_lt hlt), many0Loop_eq hf hlt (Nat.lt_succ_self _)]
  rfl

theorem length_of_many0 (hf : Consumes f) {rest : Str} {as : List α}
    (h : many0 f input = .ok (rest, as)) : rest.length ≤ input.length := by
  have hloop : ∀ n input as, many0Loop f n input = .ok (rest, as) →
      rest.length ≤ input.length := by
    intro n
    induction n with
    | zero =>
      intro input as h
      cases h
      exact Nat.le_refl _
    | succ n ih =>
      intro input as h
      unfold many0Loop at h
      split at h
      · cases h
        exact Nat.le_refl _
      · cases h
      · rename_i rest' a ha
        have hlt := hf _ _ _ ha
        split_ifs at h
        obtain ⟨⟨r, as'⟩, hrest, heq⟩ := map_eq_ok.mp h
        cases heq
        have hle := ih _ _ hrest
        omega
  exact hloop _ _ _ h

end Many

end Lib
