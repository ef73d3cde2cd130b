import Jxtd.Lib.Bytes
import Mathlib.Data.List.Infix
import Mathlib.Data.Nat.Find
import Mathlib.Tactic.Common

/-!
# Scanners in the manner of flex

A rule has a pattern and a trailing context, which has to follow but is not part of the token. At
every place the rule with the longest match wins, with its context counted, and of these the first;
a byte that no rule matches is skipped.

* `Piece`, `accepts`: patterns; `accepts_append`, `accepts_str`, `accepts_plus`.
* `Rule`, `longest`, `next`, `tokens`: scanning.
* **`next_filter`**: only the rules that begin with the first byte count.
* `longest_literal`, **`longest_plus`**, `longest_self`: the longest match of a rule.
* **`tokens_cons`**: the first token and the rest; **`tokens_sublist`**, `of_mem_tokens`: what the
  tokens are made of.
* `Spaced`, **`tokens_spaced`**: a string is its tokens, each in front of its context, with what is
  skipped between them.
-/

namespace Lib.Flex

/-- A byte of a class, or one or more of them. -/
inductive Piece
  | one (p : UInt8 → Bool)
  | plus (p : UInt8 → Bool)

/-- The bytes of a string. -/
def str (s : Str) : List Piece := s.map fun b => .one fun c => c = b

/-- Does the whole string match the pattern? -/
def accepts : List Piece → Str → Bool
  | [], s => s.isEmpty
  | _ :: _, [] => false
  | .one p :: ps, b :: s => p b && accepts ps s
  | .plus p :: ps, b :: s => p b && (accepts ps s || accepts (.plus p :: ps) s)

structure Rule (τ : Type) where
  token : τ
  pattern : List Piece
  context : Str := []

variable {τ : Type}

/-- Does a string match, with the trailing context? -/
def Rule.matches (r : Rule τ) (s : Str) : Bool := accepts (r.pattern ++ str r.context) s

/-- The length of the longest match at the beginning of a string, zero if there is none. -/
def Rule.longest (r : Rule τ) (s : Str) : ℕ :=
  Nat.findGreatest (fun n => r.matches (s.take n) = true) s.length

/-- The rule that wins, with the length of its match. -/
def next : List (Rule τ) → Str → Option (ℕ × Rule τ)
  | [], _ => none
  | r :: rs, s =>
    if r.longest s = 0 then next rs s
    else
      match next rs s with
      | none => some (r.longest s, r)
      | some (n, r') => if r.longest s < n then some (n, r') else some (r.longest s, r)

/-- The tokens with their texts, at most `fuel` of them. -/
def scan (rules : List (Rule τ)) : ℕ → Str → List (τ × Str)
  | 0, _ => []
  | _ + 1, [] => []
  | fuel + 1, b :: s =>
    match next rules (b :: s) with
    | none => scan rules fuel s
    | some (n, r) =>
      (r.token, (b :: s).take (n - r.context.length)) ::
        scan rules fuel ((b :: s).drop (n - r.context.length))

def tokens (rules : List (Rule τ)) (s : Str) : List (τ × Str) := scan rules s.length s

/-! ## Patterns -/

theorem accepts_nil (s : Str) : accepts [] s = true ↔ s = [] := by
  rw [accepts, List.isEmpty_iff]

theorem accepts_one (p : UInt8 → Bool) (ps : List Piece) (s : Str) :
    accepts (.one p :: ps) s = true ↔ ∃ b t, s = b :: t ∧ p b = true ∧ accepts ps t = true := by
  cases s with
  | nil => simp [accepts]
  | cons b s => simp [accepts]

/-- One byte more of a repetition. -/
theorem accepts_plus_cons (p : UInt8 → Bool) (ps : List Piece) (b : UInt8) (s : Str) :
    accepts (.plus p :: ps) (b :: s) = true ↔
      p b = true ∧ (accepts ps s = true ∨ accepts (.plus p :: ps) s = true) := by
  simp [accepts]

/-- **A repetition** takes a nonempty string of its bytes. -/
theorem accepts_plus (p : UInt8 → Bool) (ps : List Piece) (s : Str) :
    accepts (.plus p :: ps) s = true ↔
      ∃ u v, s = u ++ v ∧ u ≠ [] ∧ (∀ b ∈ u, p b = true) ∧ accepts ps v = true := by
  induction s with
  | nil =>
    refine ⟨fun h => by simp [accepts] at h, ?_⟩
    rintro ⟨u, v, hs, hu, -⟩
    exact absurd (List.append_eq_nil_iff.mp hs.symm).1 hu
  | cons b s ih =>
    rw [accepts_plus_cons, ih]
    constructor
    · rintro ⟨hb, hps | ⟨u, v, rfl, hu, hall, hps⟩⟩
      · exact ⟨[b], s, rfl, List.cons_ne_nil _ _, by simpa using hb, hps⟩
      · exact ⟨b :: u, v, rfl, List.cons_ne_nil _ _, by simpa using ⟨hb, hall⟩, hps⟩
    · rintro ⟨u, v, hs, hu, hall, hps⟩
      cases u with
      | nil => exact absurd rfl hu
      | cons c u =>
        obtain ⟨rfl, rfl⟩ := List.cons.inj hs
        have hall := List.forall_mem_cons.mp hall
        refine ⟨hall.1, ?_⟩
        by_cases hnil : u = []
        · subst hnil
          exact .inl hps
        · exact .inr ⟨u, v, rfl, hnil, hall.2, hps⟩

/-- **Two patterns after one another.** -/
theorem accepts_append (ps qs : List Piece) (s : Str) :
    accepts (ps ++ qs) s = true ↔
      ∃ u v, s = u ++ v ∧ accepts ps u = true ∧ accepts qs v = true := by
  induction ps generalizing s with
  | nil =>
    refine ⟨fun h => ⟨[], s, rfl, rfl, h⟩, ?_⟩
    rintro ⟨u, v, rfl, hu, hv⟩
    rwa [(accepts_nil u).mp hu]
  | cons piece ps ih =>
    cases piece with
    | one p =>
      rw [List.cons_append, accepts_one]
      constructor
      · rintro ⟨b, t, rfl, hb, ht⟩
        obtain ⟨u, v, rfl, hu, hv⟩ := (ih t).mp ht
        exact ⟨b :: u, v, rfl, (accepts_one p ps _).mpr ⟨b, u, rfl, hb, hu⟩, hv⟩
      · rintro ⟨u, v, rfl, hu, hv⟩
        obtain ⟨b, t, rfl, hb, ht⟩ := (accepts_one p ps _).mp hu
        exact ⟨b, t ++ v, rfl, hb, (ih _).mpr ⟨t, v, rfl, ht, hv⟩⟩
    | plus p =>
      rw [List.cons_append, accepts_plus]
      constructor
      · rintro ⟨w, t, rfl, hw, hall, ht⟩
        obtain ⟨u, v, rfl, hu, hv⟩ := (ih t).mp ht
        exact ⟨w ++ u, v, (List.append_assoc ..).symm,
          (accepts_plus p ps _).mpr ⟨w, u, rfl, hw, hall, hu⟩, hv⟩
      · rintro ⟨u, v, rfl, hu, hv⟩
        obtain ⟨w, t, rfl, hw, hall, ht⟩ := (accepts_plus p ps _).mp hu
        exact ⟨w, t ++ v, List.append_assoc .., hw, hall, (ih _).mpr ⟨t, v, rfl, ht, hv⟩⟩

theorem accepts_str (c s : Str) : accepts (str c) s = true ↔ s = c := by
  induction c generalizing s with
  | nil => exact accepts_nil s
  | cons b c ih =>
    rw [str, List.map_cons, accepts_one]
    constructor
    · rintro ⟨b', t, rfl, hb, ht⟩
      rw [of_decide_eq_true hb, (ih t).mp ht]
    · rintro rfl
      exact ⟨b, c, rfl, decide_eq_true rfl, (ih c).mpr rfl⟩

/-- A match has at least a byte for each piece. -/
theorem length_le_of_accepts {ps : List Piece} {s : Str} (h : accepts ps s = true) :
    ps.length ≤ s.length := by
  induction ps generalizing s with
  | nil => exact Nat.zero_le _
  | cons piece ps ih =>
    cases piece with
    | one p =>
      obtain ⟨b, t, rfl, -, ht⟩ := (accepts_one p ps s).mp h
      exact Nat.succ_le_succ (ih ht)
    | plus p =>
      obtain ⟨u, v, rfl, hu, -, hv⟩ := (accepts_plus p ps s).mp h
      have hu := List.length_pos_iff.mpr hu
      have hv := ih hv
      simp only [List.length_cons, List.length_append]
      omega

/-- **A match of a rule** is a text and the context. -/
theorem matches_iff {r : Rule τ} {s : Str} :
    r.matches s = true ↔ ∃ t, s = t ++ r.context ∧ accepts r.pattern t = true := by
  rw [Rule.matches, accepts_append]
  constructor
  · rintro ⟨t, v, rfl, ht, hv⟩
    exact ⟨t, by rw [(accepts_str _ _).mp hv], ht⟩
  · rintro ⟨t, rfl, ht⟩
    exact ⟨t, r.context, rfl, ht, (accepts_str _ _).mpr rfl⟩

/-! ## The longest match -/

variable {r : Rule τ} {rules : List (Rule τ)} {s t : Str} {n : ℕ}

theorem longest_le (r : Rule τ) (s : Str) : r.longest s ≤ s.length := Nat.findGreatest_le _

/-- The longest match is a match. -/
theorem matches_longest (h : r.longest s ≠ 0) : r.matches (s.take (r.longest s)) = true :=
  (Nat.findGreatest_eq_iff.mp rfl).2.1 h

/-- **A match that no longer one beats.** -/
theorem longest_append (hm : r.matches t = true)
    (hmax : ∀ u, u <+: t ++ s → r.matches u = true → u.length ≤ t.length) :
    r.longest (t ++ s) = t.length := by
  refine Nat.findGreatest_eq_iff.mpr ⟨by simp, fun _ => by rwa [List.take_left], ?_⟩
  intro m hlt hle hmatch
  have hlen := hmax _ (List.take_prefix m _) hmatch
  rw [List.length_take] at hlen
  omega

/-- No match. -/
theorem longest_eq_zero (h : ∀ u, u <+: s → u ≠ [] → r.matches u = false) : r.longest s = 0 := by
  refine Nat.findGreatest_eq_zero_iff.mpr fun m hpos hle => ?_
  rw [Bool.not_eq_true]
  refine h _ (List.take_prefix m s) fun hnil => ?_
  have hlen := congrArg List.length hnil
  rw [List.length_take, List.length_nil] at hlen
  omega

/-- A match at the beginning is no longer than the longest. -/
theorem le_longest (hm : r.matches t = true) (h : t <+: s) : t.length ≤ r.longest s := by
  refine Nat.le_findGreatest h.length_le ?_
  rwa [← List.prefix_iff_eq_take.mp h]

/-- **A whole string that matches.** -/
theorem longest_self (h : r.matches s = true) : r.longest s = s.length :=
  Nat.findGreatest_eq (by rwa [List.take_length])

/-- The rule of a fixed string. -/
theorem longest_literal {c d : Str} (hr : r.pattern = str c) (hd : r.context = d) (s : Str) :
    r.longest (c ++ (d ++ s)) = c.length + d.length := by
  subst hd
  have hmatches (u : Str) : r.matches u = true ↔ u = c ++ r.context := by
    rw [matches_iff, hr]
    constructor
    · rintro ⟨t, rfl, ht⟩
      rw [(accepts_str c t).mp ht]
    · rintro rfl
      exact ⟨c, rfl, (accepts_str c c).mpr rfl⟩
  rw [← List.append_assoc, ← List.length_append]
  refine longest_append ((hmatches _).mpr rfl) fun u _ hu => ?_
  rw [(hmatches u).mp hu]

/-- The rule of one byte. -/
theorem longest_one_le {p : UInt8 → Bool} (hr : r.pattern = [.one p]) (hc : r.context = [])
    (s : Str) : r.longest s ≤ 1 := by
  by_cases hzero : r.longest s = 0
  · omega
  · obtain ⟨t, htake, ht⟩ := matches_iff.mp (matches_longest hzero)
    rw [hr, accepts_one] at ht
    obtain ⟨b, u, rfl, -, hu⟩ := ht
    rw [(accepts_nil u).mp hu, hc] at htake
    have hlen := congrArg List.length htake
    have hle := longest_le r s
    rw [List.length_take, Nat.min_eq_left hle] at hlen
    exact hlen.le

/-- The longest run of a class. -/
theorem length_le_of_run {p : UInt8 → Bool} {u v w x : Str} (hu : ∀ b ∈ u, p b = true)
    (hv : ∀ b, v.head? = some b → p b = false) (h : w ++ x = u ++ v) (hw : ∀ b ∈ w, p b = true) :
    w.length ≤ u.length := by
  have htake : (u ++ v).takeWhile p = u := by
    rw [List.takeWhile_append_of_pos hu]
    cases v with
    | nil => simp
    | cons b v => simp [hv b rfl]
  have hle : (w ++ x).takeWhile p = w ++ x.takeWhile p := List.takeWhile_append_of_pos hw
  rw [h, htake] at hle
  rw [hle, List.length_append]
  omega

/-- **The rule of a fixed string and a run of a class**: the run ends where the class does, and the
context has to follow there. -/
theorem longest_plus {c : Str} {p : UInt8 → Bool} (hr : r.pattern = str c ++ [.plus p])
    (hcontext : ∀ b, r.context.head? = some b → p b = false) {u v : Str}
    (hu : ∀ b ∈ u, p b = true) (hv : ∀ b, v.head? = some b → p b = false) :
    r.longest (c ++ u ++ v) =
      if u ≠ [] ∧ r.context <+: v then (c ++ u).length + r.context.length else 0 := by
  rw [List.append_assoc]
  have hmatches (x : Str) : r.matches x = true ↔
      ∃ w, x = c ++ (w ++ r.context) ∧ w ≠ [] ∧ ∀ b ∈ w, p b = true := by
    rw [matches_iff, hr]
    constructor
    · rintro ⟨t, rfl, ht⟩
      obtain ⟨c', y, rfl, hc, hy⟩ := (accepts_append _ _ t).mp ht
      obtain ⟨w, z, rfl, hw, hall, hz⟩ := (accepts_plus p [] y).mp hy
      rw [(accepts_str c c').mp hc, (accepts_nil z).mp hz]
      exact ⟨w, by simp, hw, hall⟩
    · rintro ⟨w, rfl, hw, hall⟩
      refine ⟨c ++ w, (List.append_assoc ..).symm, (accepts_append _ _ _).mpr ⟨c, w, rfl, ?_, ?_⟩⟩
      · exact (accepts_str c c).mpr rfl
      · exact (accepts_plus p [] w).mpr ⟨w, [], (List.append_nil w).symm, hw, hall, rfl⟩
  -- a run in front of the context that is not the whole run of the class
  have hrun {w : Str} (hpre : c ++ (w ++ r.context) <+: c ++ (u ++ v)) (hw : ∀ b ∈ w, p b = true) :
      w.length ≤ u.length ∧ (w.length < u.length → r.context = []) := by
    obtain ⟨x, hx⟩ := (List.prefix_append_right_inj c).mp hpre
    rw [List.append_assoc] at hx
    refine ⟨length_le_of_run hu hv hx hw, fun hlt => ?_⟩
    by_contra hne
    obtain ⟨b, d, hd⟩ := List.exists_cons_of_ne_nil hne
    have hb : (u ++ v)[w.length]? = some b := by
      rw [← hx, hd]
      simp
    rw [List.getElem?_append_left hlt] at hb
    have hp := hu b (List.mem_of_getElem? hb)
    rw [hcontext b (by rw [hd]; rfl)] at hp
    cases hp
  split_ifs with h
  · obtain ⟨x, rfl⟩ := h.2
    have happ : c ++ (u ++ (r.context ++ x)) = c ++ (u ++ r.context) ++ x := by
      simp only [List.append_assoc]
    have hlen : (c ++ (u ++ r.context)).length = (c ++ u).length + r.context.length := by
      simp only [List.length_append, Nat.add_assoc]
    rw [happ, ← hlen]
    refine longest_append ((hmatches _).mpr ⟨u, rfl, h.1, hu⟩) fun y hpre hy => ?_
    obtain ⟨w, rfl, -, hw⟩ := (hmatches y).mp hy
    rw [← happ] at hpre
    have hle := (hrun hpre hw).1
    simp only [List.length_append]
    omega
  · refine longest_eq_zero fun y hpre _ => Bool.eq_false_iff.mpr fun hy => h ?_
    obtain ⟨w, rfl, hne, hw⟩ := (hmatches y).mp hy
    obtain ⟨hle, hlt⟩ := hrun hpre hw
    obtain ⟨x, hx⟩ := (List.prefix_append_right_inj c).mp hpre
    refine ⟨?_, ?_⟩
    · rintro rfl
      exact hne (List.length_eq_zero_iff.mp (Nat.le_zero.mp hle))
    · rcases Nat.lt_or_eq_of_le hle with hlt' | heq
      · rw [hlt hlt']
        exact List.nil_prefix
      · rw [List.append_assoc] at hx
        exact ⟨x, (List.append_inj hx heq).2⟩

/-! ## Which rule wins -/

/-- No rule matches the empty string. -/
def Productive (rules : List (Rule τ)) : Prop := ∀ r ∈ rules, r.pattern ≠ []

/-- Can a match of the rule begin with this byte? -/
def Rule.begins (r : Rule τ) (b : UInt8) : Bool :=
  match r.pattern with
  | [] => false
  | .one p :: _ | .plus p :: _ => p b

theorem longest_of_begins (hr : r.pattern ≠ []) {b : UInt8} (hb : r.begins b = false) (s : Str) :
    r.longest (b :: s) = 0 := by
  refine longest_eq_zero fun u hu hne => Bool.eq_false_iff.mpr fun hmatch => ?_
  obtain ⟨c, u, rfl⟩ := List.exists_cons_of_ne_nil hne
  obtain rfl := (List.cons_prefix_cons.mp hu).1
  rw [Rule.matches] at hmatch
  rw [Rule.begins] at hb
  cases hpattern : r.pattern with
  | nil => exact hr hpattern
  | cons piece ps =>
    rw [hpattern] at hmatch hb
    cases piece with
    | one p =>
      obtain ⟨c', v, hv, hp, -⟩ := (accepts_one p _ _).mp hmatch
      obtain ⟨rfl, rfl⟩ := List.cons.inj hv
      exact Bool.noConfusion (hb.symm.trans hp)
    | plus p =>
      have hp := ((accepts_plus_cons p _ _ _).mp hmatch).1
      exact Bool.noConfusion (hb.symm.trans hp)

/-- **Only the rules that can begin with the first byte count.** -/
theorem next_filter (hp : Productive rules) (b : UInt8) (s : Str) :
    next rules (b :: s) = next (rules.filter fun r => r.begins b) (b :: s) := by
  induction rules with
  | nil => rfl
  | cons r rs ih =>
    have ih := ih fun r' hr' => hp r' (List.mem_cons_of_mem _ hr')
    cases hb : r.begins b with
    | true =>
      have hfilter : (r :: rs).filter (fun r => r.begins b) = r :: rs.filter fun r => r.begins b :=
        List.filter_cons_of_pos hb
      rw [hfilter, next, next, ih]
    | false =>
      have hfilter : (r :: rs).filter (fun r => r.begins b) = rs.filter fun r => r.begins b :=
        List.filter_cons_of_neg (by simp [hb])
      rw [hfilter, next, if_pos (longest_of_begins (hp r List.mem_cons_self) hb s), ih]

theorem next_spec (h : next rules s = some (n, r)) :
    r ∈ rules ∧ n = r.longest s ∧ n ≠ 0 := by
  induction rules with
  | nil => cases h
  | cons r' rs ih =>
    rw [next] at h
    split_ifs at h with hzero
    · exact ⟨List.mem_cons_of_mem _ (ih h).1, (ih h).2⟩
    · cases hrest : next rs s with
      | none =>
        rw [hrest] at h
        cases h
        exact ⟨List.mem_cons_self, rfl, hzero⟩
      | some best =>
        rw [hrest] at h
        dsimp only at h
        split_ifs at h
        · cases h
          exact ⟨List.mem_cons_of_mem _ (ih hrest).1, (ih hrest).2⟩
        · cases h
          exact ⟨List.mem_cons_self, rfl, hzero⟩

/-- **The longest match wins**, and of the longest the first. -/
theorem next_wins {before after : List (Rule τ)} (h : r.longest s = n) (hn : n ≠ 0)
    (hbefore : ∀ r' ∈ before, r'.longest s < n) (hafter : ∀ r' ∈ after, r'.longest s ≤ n) :
    next (before ++ r :: after) s = some (n, r) := by
  induction before with
  | nil =>
    rw [List.nil_append, next, if_neg (by rwa [h]), h]
    cases hnext : next after s with
    | none => rfl
    | some best =>
      obtain ⟨m, r'⟩ := best
      obtain ⟨hmem, hm, -⟩ := next_spec hnext
      have hle := hafter r' hmem
      exact if_neg (by omega)
  | cons r' before ih =>
    have hlt := hbefore r' List.mem_cons_self
    rw [List.cons_append, next, ih fun r'' hr'' => hbefore r'' (List.mem_cons_of_mem _ hr'')]
    split_ifs
    · rfl
    · exact if_pos hlt

/-- **The text of the next token**, which the context follows. -/
theorem next_text (hp : Productive rules) (h : next rules s = some (n, r)) :
    accepts r.pattern (s.take (n - r.context.length)) = true ∧ n - r.context.length ≠ 0 ∧
      n - r.context.length ≤ s.length := by
  obtain ⟨hmem, rfl, hzero⟩ := next_spec h
  obtain ⟨t, htake, ht⟩ := matches_iff.mp (matches_longest hzero)
  have hle := longest_le r s
  have hlen := congrArg List.length htake
  rw [List.length_take, List.length_append, Nat.min_eq_left hle] at hlen
  have hpattern := List.length_pos_iff.mpr (hp r hmem)
  have htlen := length_le_of_accepts ht
  have hcut : r.longest s - r.context.length = t.length := by omega
  have htext : s.take t.length = t := by
    have hprefix : t <+: s := ⟨r.context ++ s.drop (r.longest s), by
      rw [← List.append_assoc, ← htake, List.take_append_drop]⟩
    exact List.prefix_iff_eq_take.mp hprefix |>.symm
  rw [hcut, htext]
  exact ⟨ht, by omega, by omega⟩

/-! ## Tokens -/

/-- More fuel than bytes makes no difference. -/
theorem scan_fuel (hp : Productive rules) {fuel fuel' : ℕ} (h : s.length ≤ fuel)
    (h' : s.length ≤ fuel') : scan rules fuel s = scan rules fuel' s := by
  induction fuel generalizing fuel' s with
  | zero =>
    obtain rfl := List.length_eq_zero_iff.mp (Nat.le_zero.mp h)
    cases fuel' with
    | zero => rfl
    | succ fuel' => rfl
  | succ fuel ih =>
    cases s with
    | nil =>
      cases fuel' with
      | zero => rfl
      | succ fuel' => rfl
    | cons b s =>
      cases fuel' with
      | zero => cases h'
      | succ fuel' =>
        rw [List.length_cons] at h h'
        rw [scan, scan]
        cases hnext : next rules (b :: s) with
        | none => exact ih (by omega) (by omega)
        | some best =>
          obtain ⟨n, r⟩ := best
          have htext := next_text hp hnext
          have hdrop : ((b :: s).drop (n - r.context.length)).length ≤ s.length := by
            rw [List.length_drop, List.length_cons]
            omega
          exact congrArg _ (ih (by omega) (by omega))

/-- **The first token**, and the rest. -/
theorem tokens_cons (hp : Productive rules) (h : next rules (t ++ s) = some (n, r))
    (hn : n = t.length + r.context.length) :
    tokens rules (t ++ s) = (r.token, t) :: tokens rules s := by
  subst hn
  have hcut : t.length + r.context.length - r.context.length = t.length := by omega
  have htext := next_text hp h
  rw [hcut] at htext
  cases t with
  | nil => exact absurd rfl htext.2.1
  | cons b t =>
    rw [tokens, List.cons_append, List.length_cons, scan]
    rw [List.cons_append] at h
    simp only [h, hcut]
    rw [← List.cons_append, List.take_left, List.drop_left, scan_fuel hp (by simp) le_rfl, tokens]

/-- **The token of the rule that wins** among those that can begin with the first byte. -/
theorem tokens_wins (hp : Productive rules) {b : UInt8} (ht : t.head? = some b)
    {before after : List (Rule τ)}
    (hfilter : rules.filter (fun r => r.begins b) = before ++ r :: after)
    (hlongest : r.longest (t ++ s) = t.length + r.context.length)
    (hbefore : ∀ r' ∈ before, r'.longest (t ++ s) < t.length + r.context.length)
    (hafter : ∀ r' ∈ after, r'.longest (t ++ s) ≤ t.length + r.context.length) :
    tokens rules (t ++ s) = (r.token, t) :: tokens rules s := by
  cases t with
  | nil => cases ht
  | cons c t =>
    obtain rfl : c = b := Option.some_inj.mp ht
    refine tokens_cons hp ?_ rfl
    rw [List.cons_append, next_filter hp, hfilter]
    exact next_wins hlongest (by rw [List.length_cons]; omega) hbefore hafter

/-- **Every token has a rule, and its text matches the pattern.** -/
theorem of_mem_tokens (hp : Productive rules) {τ' : τ} (h : (τ', t) ∈ tokens rules s) :
    ∃ r ∈ rules, r.token = τ' ∧ accepts r.pattern t = true := by
  rw [tokens] at h
  generalize s.length = fuel at h
  induction fuel generalizing s with
  | zero => cases h
  | succ fuel ih =>
    cases s with
    | nil => cases h
    | cons b s =>
      rw [scan] at h
      cases hnext : next rules (b :: s) with
      | none =>
        rw [hnext] at h
        exact ih h
      | some best =>
        obtain ⟨n, r⟩ := best
        rw [hnext] at h
        rcases List.mem_cons.mp h with heq | h
        · obtain ⟨rfl, rfl⟩ := Prod.ext_iff.mp heq
          exact ⟨r, (next_spec hnext).1, rfl, (next_text hp hnext).1⟩
        · exact ih h

/-- **The texts are the string**, less the bytes that are skipped. -/
theorem tokens_sublist (rules : List (Rule τ)) (s : Str) :
    ((tokens rules s).flatMap Prod.snd).Sublist s := by
  rw [tokens]
  generalize s.length = fuel
  induction fuel generalizing s with
  | zero => exact List.nil_sublist s
  | succ fuel ih =>
    cases s with
    | nil => exact List.Sublist.refl []
    | cons b s =>
      rw [scan]
      cases hnext : next rules (b :: s) with
      | none => exact (ih s).cons b
      | some best =>
        obtain ⟨n, r⟩ := best
        have happ := (List.Sublist.refl ((b :: s).take (n - r.context.length))).append
          (ih ((b :: s).drop (n - r.context.length)))
        rwa [List.take_append_drop] at happ

/-! ## Between the tokens -/

/-- A string is some tokens with skipped bytes between them. -/
inductive Spaced (rules : List (Rule τ)) (blank : UInt8 → Prop) : List (τ × Str) → Str → Prop
  | nil : Spaced rules blank [] []
  | skip {ts b s} (hb : blank b) (h : Spaced rules blank ts s) : Spaced rules blank ts (b :: s)
  | token {r ts t s} (hr : r ∈ rules) (hcontext : r.context <+: s) (h : Spaced rules blank ts s) :
    Spaced rules blank ((r.token, t) :: ts) (t ++ s)

/-- **The context of the next token** follows it. -/
theorem next_context (h : next rules s = some (n, r)) :
    r.context <+: s.drop (n - r.context.length) := by
  obtain ⟨hmem, rfl, hzero⟩ := next_spec h
  obtain ⟨t, htake, ht⟩ := matches_iff.mp (matches_longest hzero)
  have hle := longest_le r s
  have hlen := congrArg List.length htake
  rw [List.length_take, List.length_append, Nat.min_eq_left hle] at hlen
  have hcut : r.longest s - r.context.length = t.length := by omega
  have hsplit : s = t ++ (r.context ++ s.drop (r.longest s)) := by
    rw [← List.append_assoc, ← htake, List.take_append_drop]
  have hdrop : s.drop t.length = r.context ++ s.drop (r.longest s) := by
    conv_lhs => rw [hsplit]
    exact List.drop_left
  rw [hcut, hdrop]
  exact List.prefix_append _ _

theorem longest_of_next_none (h : next rules s = none) : ∀ r ∈ rules, r.longest s = 0 := by
  induction rules with
  | nil => exact List.forall_mem_nil _
  | cons r rs ih =>
    rw [next] at h
    split_ifs at h with hzero
    · exact List.forall_mem_cons.mpr ⟨hzero, ih h⟩
    · cases hrest : next rs s with
      | none =>
        rw [hrest] at h
        cases h
      | some best =>
        rw [hrest] at h
        dsimp only at h
        split_ifs at h

/-- **Every string is its tokens**, with the bytes between them that no rule matches. -/
theorem tokens_spaced (hp : Productive rules) {blank : UInt8 → Prop}
    (hblank : ∀ b s, next rules (b :: s) = none → blank b) (s : Str) :
    Spaced rules blank (tokens rules s) s := by
  have hscan (fuel : ℕ) : ∀ s : Str, s.length ≤ fuel → Spaced rules blank (scan rules fuel s) s := by
    induction fuel with
    | zero =>
      intro s hle
      obtain rfl := List.length_eq_zero_iff.mp (Nat.le_zero.mp hle)
      exact .nil
    | succ fuel ih =>
      intro s hle
      cases s with
      | nil => exact .nil
      | cons b s =>
        rw [List.length_cons] at hle
        rw [scan]
        cases hnext : next rules (b :: s) with
        | none => exact .skip (hblank b s hnext) (ih s (by omega))
        | some best =>
          obtain ⟨n, r⟩ := best
          have htext := next_text hp hnext
          have hrest := ih ((b :: s).drop (n - r.context.length)) (by
            rw [List.length_drop, List.length_cons]
            omega)
          have htoken := Spaced.token (t := (b :: s).take (n - r.context.length))
            (next_spec hnext).1 (next_context hnext) hrest
          rwa [List.take_append_drop] at htoken
  exact hscan s.length s le_rfl

variable {blank : UInt8 → Prop} {ts : List (τ × Str)} {x : τ × Str}

theorem Spaced.of_nil (h : Spaced rules blank [] s) : ∀ b ∈ s, blank b := by
  generalize hts : ([] : List (τ × Str)) = ts at h
  induction h with
  | nil => exact List.forall_mem_nil _
  | skip hb _ ih => exact List.forall_mem_cons.mpr ⟨hb, ih hts⟩
  | token => cases hts

/-- **The first token** stands after the bytes that are skipped. -/
theorem Spaced.of_cons (h : Spaced rules blank (x :: ts) s) : ∃ w s', s = w ++ (x.2 ++ s') ∧
    (∀ b ∈ w, blank b) ∧ (∃ r ∈ rules, r.token = x.1 ∧ r.context <+: s') ∧
      Spaced rules blank ts s' := by
  generalize hts : x :: ts = ts' at h
  induction h with
  | nil => cases hts
  | @skip _ b s hb _ ih =>
    obtain ⟨w, s', rfl, hw, hrule, hrest⟩ := ih hts
    exact ⟨b :: w, s', rfl, List.forall_mem_cons.mpr ⟨hb, hw⟩, hrule, hrest⟩
  | @token r _ t s hr hcontext hrest =>
    cases hts
    exact ⟨[], s, rfl, List.forall_mem_nil _, ⟨r, hr, rfl, hcontext⟩, hrest⟩

end Lib.Flex
