import Jxtd.Misc.ATActions

/-!
# Texts that are commands to the byte

The scanner has no rule for a line feed of its own: the last rule of `token.l` takes any byte but that
one. So a text can be accepted that is not what is written for its command.

* `Framed`: the tokens of a text that is accepted end with a line end or with data.
* `Straight`: the text ends with a line end, and no line feed stands before its first one.
* **`eq_spelled`**: such a text is its tokens.
* **`accepted_exact_iff`**: exactly which texts are what is written for their command.
-/

namespace Jxtd.Misc.ATParser

open Lib Lib.Flex
open Router (ATMessage ATMessageType)

/-- A line feed. -/
def lineFeed (b : UInt8) : Prop := b = 0x0a

/-- A text ends with a line end, and no line feed stands before its first line end. -/
def Straight (s : Str) : Prop :=
  crlf <:+ s ∧ ∃ u v, s = u ++ (crlf ++ v) ∧ 0x0a ∉ u

variable {s t u v w : Str} {ps : List Str} {ts : List (Token × Str)} {m : ATCommand}
  {result result' : CATMessage}

/-! ## The tokens of a command -/

/-- A token without a line end. -/
def PlainToken : Token → Prop
  | .END | .DATAEND | .DATA | .ERROR => False
  | _ => True

/-- **The tokens of a command** end with a line end or with data. -/
inductive Framed : List (Token × Str) → Prop
  | ending (text : Str) : Framed [(.END, text)]
  | data (text text' : Str) : Framed [(.DATA, text), (.DATAEND, text')]
  | cons {x ts} (hx : PlainToken x.1) (h : Framed ts) : Framed (x :: ts)

theorem framed_of_parseData {x : ATMessageType × Str} (h : parseData ts = some x) : Framed ts := by
  unfold parseData at h
  split at h
  · exact .ending _
  · exact .data _ _
  · cases h

theorem framed_of_parseParam {ts' : List (Token × Str)} (h : parseParam ts = some (ps, ts'))
    (hrest : Framed ts') : Framed ts := by
  induction ts generalizing ps with
  | nil => cases h
  | cons x ts ih =>
    obtain ⟨token, text⟩ := x
    cases token with
    | PARAM =>
      obtain ⟨y, hy, heq⟩ := Option.map_eq_some_iff.mp h
      cases heq
      exact .cons trivial (ih hy)
    | LASTPARAM =>
      cases h
      exact .cons trivial hrest
    | END | DATAEND | DATA | AT | EQUAL | QST | COMMAND | STARTPARAM | SINGLEPARAM | ERROR =>
      cases h

theorem framed_of_parseNext {message : ATMessage} (h : parseNext ts = some message) : Framed ts := by
  unfold parseNext at h
  split at h
  · exact .cons trivial (.cons trivial (.ending _))
  · exact .cons trivial (.ending _)
  · obtain ⟨x, hx, -⟩ := Option.map_eq_some_iff.mp h
    exact .cons trivial (framed_of_parseData hx)
  · obtain ⟨⟨ps, ts'⟩, hparam, hdata⟩ := Option.bind_eq_some_iff.mp h
    obtain ⟨x, hx, -⟩ := Option.map_eq_some_iff.mp hdata
    exact .cons trivial (framed_of_parseParam hparam (framed_of_parseData hx))
  · obtain ⟨x, hx, -⟩ := Option.map_eq_some_iff.mp h
    exact framed_of_parseData hx

theorem framed_of_parseBegin (h : parseBegin ts = some m) : Framed ts := by
  unfold parseBegin at h
  split at h
  · obtain ⟨message, hnext, -⟩ := Option.map_eq_some_iff.mp h
    exact .cons trivial (.cons trivial (framed_of_parseNext hnext))
  · cases h

/-- A plain token has no byte of a line end. -/
theorem plain_notMem {x : Token × Str} (hx : PlainToken x.1) (hshape : Shape x) : 0x0d ∉ x.2 := by
  obtain ⟨token, text⟩ := x
  -- a fixed string and a word
  have hword {c u : Str} {p : UInt8 → Bool} (hc : 0x0d ∉ c) (hp : p 0x0d = false) (hu : Word p u) :
      0x0d ∉ c ++ u := by
    intro hmem
    rcases List.mem_append.mp hmem with hmem | hmem
    · exact hc hmem
    · have h := hu.2 _ hmem
      rw [hp] at h
      cases h
  cases token with
  | END | DATAEND | DATA | ERROR => exact hx.elim
  | AT | EQUAL | QST =>
    have htext : text = _ := hshape
    subst htext
    decide
  | COMMAND =>
    obtain ⟨u, hu, htext⟩ := hshape
    exact htext ▸ hword (by decide) (by decide) hu
  | STARTPARAM | PARAM | LASTPARAM | SINGLEPARAM =>
    obtain ⟨u, hu, htext⟩ := hshape
    exact htext ▸ hword (by decide) (by decide) hu

/-! ## No byte is skipped -/

/-- What is skipped in front of a line without line feeds is nothing. -/
theorem skipped_eq_nil (hw : ∀ b ∈ w, lineFeed b) (hu : 0x0a ∉ u)
    (h : w ++ t = u ++ (crlf ++ v)) : w = [] := by
  cases w with
  | nil => rfl
  | cons b w =>
    have hb : b = 0x0a := hw b List.mem_cons_self
    subst hb
    cases u with
    | nil => cases h
    | cons c u =>
      obtain ⟨rfl, -⟩ := List.cons.inj h
      exact absurd List.mem_cons_self hu

/-- What is skipped after the last line end is nothing. -/
theorem skipped_end_eq_nil (ht : [0x0a] <:+ t) (hs : ∀ b ∈ s, lineFeed b) (h : crlf <:+ t ++ s) :
    s = [] := by
  by_contra hne
  obtain ⟨y, b, rfl⟩ := List.eq_nil_or_concat s |>.resolve_left hne
  obtain ⟨z, hz⟩ := h
  rw [List.concat_eq_append, ← List.append_assoc] at hz
  have hz : z ++ [0x0d] ++ [0x0a] = t ++ y ++ [b] := by
    rw [← hz]
    simp [crlf]
  have hlast := (List.append_inj' hz rfl).1
  -- the byte before is a line feed of its own
  have hfeed : [0x0a] <:+ t ++ y := by
    rcases List.eq_nil_or_concat y with rfl | ⟨y', b', rfl⟩
    · rwa [List.append_nil]
    · have hb' : b' = 0x0a := hs b' (by simp)
      subst hb'
      exact ⟨t ++ y', by simp⟩
  obtain ⟨x, hx⟩ := hfeed
  rw [← hlast] at hx
  cases (List.append_inj' hx rfl).2

/-- Where the data end follows, nothing is skipped. -/
theorem skipped_of_context (hw : ∀ b ∈ w, lineFeed b) (h : dataend <+: w ++ t) : w = [] := by
  cases w with
  | nil => rfl
  | cons b w =>
    have hb : b = 0x0a := hw b List.mem_cons_self
    subst hb
    obtain ⟨z, hz⟩ := h
    cases hz

/-- A token without a carriage return stands before the line end. -/
theorem before_lineEnd (ht : 0x0d ∉ t) (h : t ++ s = u ++ (crlf ++ v)) :
    ∃ u', u = t ++ u' ∧ s = u' ++ (crlf ++ v) := by
  rcases List.append_eq_append_iff.mp h with ⟨u', hu', hs'⟩ | ⟨z, hz, hv⟩
  · exact ⟨u', hu', hs'⟩
  · cases z with
    | nil => exact ⟨[], by simpa using hz.symm, by simpa using hv.symm⟩
    | cons b z =>
      obtain ⟨rfl, -⟩ := List.cons.inj hv
      exact absurd (hz ▸ by simp) ht

theorem rule_data {r : Rule Token} (hr : r ∈ rules) (htoken : r.token = .DATA) :
    r.context = dataend := by
  simp only [rules, List.mem_cons, List.not_mem_nil, or_false] at hr
  rcases hr with rfl | rfl | rfl | rfl | rfl | rfl | rfl | rfl | rfl | rfl | rfl | rfl <;>
    first | rfl | cases htoken

/-- **A straight text is its tokens.** -/
theorem eq_spelled (hts : Framed ts) (hshape : ∀ x ∈ ts, Shape x)
    (h : Spaced rules lineFeed ts s) (hend : crlf <:+ s) (hsplit : s = u ++ (crlf ++ v))
    (hu : 0x0a ∉ u) : s = spelled ts := by
  induction hts generalizing s u with
  | ending text =>
    obtain ⟨w, s', rfl, hw, -, hrest⟩ := h.of_cons
    have hnone := skipped_eq_nil hw hu hsplit
    have htext : text = crlf := hshape _ List.mem_cons_self
    subst hnone htext
    have hempty := skipped_end_eq_nil ⟨[0x0d], rfl⟩ hrest.of_nil hend
    subst hempty
    rfl
  | data text text' =>
    obtain ⟨w, s', rfl, hw, ⟨r, hr, htoken, hcontext⟩, hrest⟩ := h.of_cons
    have hnone := skipped_eq_nil hw hu hsplit
    obtain ⟨d, -, htext⟩ := hshape _ List.mem_cons_self
    have htext' : text' = dataend := hshape _ (List.mem_cons_of_mem _ List.mem_cons_self)
    dsimp only at htext
    subst hnone htext'
    obtain ⟨w', s'', rfl, hw', -, hlast⟩ := hrest.of_cons
    -- the data end follows the data
    rw [rule_data hr htoken] at hcontext
    have hnone' := skipped_of_context hw' hcontext
    subst hnone'
    rw [List.nil_append, List.nil_append, ← List.append_assoc] at hend
    have hempty := skipped_end_eq_nil ⟨text ++ lit "<<<" ++ [0x0d], by simp [dataend, crlf]⟩
      hlast.of_nil hend
    subst hempty
    simp [spelled]
  | @cons x ts hx _ ih =>
    obtain ⟨w, s', rfl, hw, -, hrest⟩ := h.of_cons
    have hnone := skipped_eq_nil hw hu hsplit
    subst hnone
    obtain ⟨hxshape, hshape⟩ := List.forall_mem_cons.mp hshape
    rw [List.nil_append] at hsplit hend ⊢
    obtain ⟨u', rfl, hs'⟩ := before_lineEnd (plain_notMem hx hxshape) hsplit
    have hend' : crlf <:+ s' := by
      refine List.suffix_of_suffix_length_le hend (List.suffix_append _ _) ?_
      rw [hs', List.length_append, List.length_append]
      omega
    rw [ih hshape hrest hend' hs' fun hmem => hu (List.mem_append_right _ hmem)]
    rfl

/-- **Only line feeds are skipped.** -/
theorem lineFeed_of_next_none (b : UInt8) (s : Str) (h : next rules (b :: s) = none) :
    lineFeed b := by
  by_contra hb
  have hmem : errorRule ∈ rules := by simp [rules, errorRule]
  have hmatches : errorRule.matches [b] = true := by
    refine matches_iff.mpr ⟨[b], rfl, (accepts_one _ _ _).mpr ⟨b, [], rfl, ?_, rfl⟩⟩
    simpa [lineFeed] using hb
  have hlongest := le_longest hmatches (⟨s, rfl⟩ : [b] <+: b :: s)
  rw [longest_of_next_none h errorRule hmem] at hlongest
  cases hlongest

/-! ## What is written is straight -/

theorem straight_append (hu : 0x0a ∉ u) (hv : v = [] ∨ crlf <:+ v) : Straight (u ++ (crlf ++ v)) := by
  refine ⟨?_, u, v, rfl, hu⟩
  rcases hv with rfl | hv
  · exact ⟨u, by rw [List.append_nil]⟩
  · exact hv.trans ((List.suffix_append _ _).trans (List.suffix_append _ _))

theorem lineFeed_notMem {p : UInt8 → Bool} (hp : p 0x0a = false) (hu : Word p u) : 0x0a ∉ u := by
  intro hmem
  have h := hu.2 _ hmem
  rw [hp] at h
  cases h

theorem lineFeed_notMem_renderParams (hps : ∀ p ∈ ps, Word paramByte p) :
    0x0a ∉ renderParams ps := by
  have hrest {ps : List Str} (hps : ∀ p ∈ ps, Word paramByte p) : 0x0a ∉ renderParam ps := by
    intro hmem
    obtain ⟨p, hp, hmem⟩ := List.mem_flatMap.mp hmem
    rcases List.mem_append.mp hmem with hcomma | hmem
    · exact absurd hcomma (by decide)
    · exact lineFeed_notMem (by decide) (hps p hp) hmem
  cases ps with
  | nil => exact List.not_mem_nil
  | cons p ps =>
    obtain ⟨hp, hps⟩ := List.forall_mem_cons.mp hps
    simp only [renderParams, List.mem_append, not_or]
    exact ⟨⟨by decide, lineFeed_notMem (by decide) hp⟩, hrest hps⟩

/-- **What is written for a command is straight.** -/
theorem straight_render (h : m.Valid) : Straight m.render := by
  obtain ⟨⟨type, param, data⟩, cmd⟩ := m
  have hcmd : 0x0a ∉ lit "AT+" ++ cmd := by
    rw [List.mem_append, not_or]
    exact ⟨by decide, lineFeed_notMem (by decide) h.cmd⟩
  -- what stands between the command and the line end
  have hstraight {next v : Str} (hnext : 0x0a ∉ next) (hv : v = [] ∨ crlf <:+ v) :
      Straight (lit "AT+" ++ cmd ++ (next ++ (crlf ++ v))) := by
    rw [← List.append_assoc]
    refine straight_append ?_ hv
    rw [List.mem_append, not_or]
    exact ⟨hcmd, hnext⟩
  have hparam := lineFeed_notMem_renderParams h.param
  cases type with
  | NON => exact absurd rfl h.type
  | CMD => exact hstraight hparam (.inl rfl)
  | SEARCH => exact hstraight (by decide) (.inl rfl)
  | TEST => exact hstraight (by decide) (.inl rfl)
  | LONG =>
    have hend : crlf <:+ data ++ dataend := ⟨data ++ lit "<<<", by simp [dataend]⟩
    have hlong := hstraight hparam (.inr hend)
    have hrender : (ATCommand.mk ⟨.LONG, param, data⟩ cmd).render =
        lit "AT+" ++ cmd ++ (renderParams param ++ (crlf ++ (data ++ dataend))) := by
      simp only [ATCommand.render, renderNext, List.append_assoc]
    exact hrender ▸ hlong

/-- **Exactly which texts are what is written** for the command that they are parsed to. -/
theorem parse_exact_iff (h : parse s = some m) : s = m.render ↔ Straight s := by
  obtain ⟨hvalid, -, hrender⟩ := parseBegin_sound (shape_tokens s) h
  constructor
  · intro hs
    rw [hs]
    exact straight_render hvalid
  · rintro ⟨hend, u, v, hsplit, hu⟩
    have hspaced := tokens_spaced productive_rules lineFeed_of_next_none s
    rw [hrender]
    exact eq_spelled (framed_of_parseBegin h) (shape_tokens s) hspaced hend hsplit hu

/-- **Exactly which texts that are accepted** are what is written for the message: those that are
scanned whole and straight. -/
theorem accepted_exact_iff (h : parseText result s = some ((true, m), result')) :
    s = m.render ↔ s.length + 2 < 2 ^ 31 ∧ Straight s := by
  obtain ⟨bytes, hbytes, hparse⟩ := parseText_correct_iff.mp ⟨result', h⟩
  have hpre := scannedBytes_prefix hbytes
  constructor
  · rintro rfl
    have hlen := Nat.le_antisymm hpre.length_le (parse_sound hparse).2.2.length_le
    rw [hpre.eq_of_length hlen] at hbytes hparse
    exact ⟨scannedBytes_eq_self_iff.mp hbytes, (parse_exact_iff hparse).mp rfl⟩
  · rintro ⟨hlen, hstraight⟩
    rw [scannedBytes_of_lt hlen] at hbytes
    obtain rfl := Option.some.inj hbytes
    exact (parse_exact_iff hparse).mpr hstraight

/-- A text that is accepted. -/
theorem parseText_accepted {s : Str} {m : ATCommand} (hs : scannedBytes s = some s)
    (h : parse s = some m) : ∃ result', parseText .init s = some ((true, m), result') :=
  parseText_correct_iff.mpr ⟨s, hs, h⟩

/-- The command `X`. -/
def commandX : ATCommand := ⟨⟨.CMD, [], []⟩, lit "X"⟩

/-- The text of a command, and a text with a line feed in front of the line end. -/
theorem accepted_exact_commandX :
    (∃ result', parseText .init (lit "AT+X\r\n") = some ((true, commandX), result')) ∧
    (∃ result', parseText .init (lit "AT+X\n\r\n") = some ((true, commandX), result')) ∧
    Straight (lit "AT+X\r\n") ∧ ¬ Straight (lit "AT+X\n\r\n") := by
  obtain ⟨result₁, h₁⟩ := parseText_accepted (s := lit "AT+X\r\n") (m := commandX)
    (scannedBytes_of_lt (by decide)) (by decide +kernel)
  obtain ⟨result₂, h₂⟩ := parseText_accepted (s := lit "AT+X\n\r\n") (m := commandX)
    (scannedBytes_of_lt (by decide)) (by decide +kernel)
  refine ⟨⟨_, h₁⟩, ⟨_, h₂⟩, ((accepted_exact_iff h₁).mp (by decide)).2, fun hstraight => ?_⟩
  exact absurd ((accepted_exact_iff h₂).mpr ⟨by decide, hstraight⟩) (by decide)

/-- **A line feed in front of the line end** is skipped. -/
theorem lineFeed_skipped : ¬ ∀ (result result' : CATMessage) (s : Str) (m : ATCommand),
    parseText result s = some ((true, m), result') → s = m.render := by
  intro h
  obtain ⟨result', haccepted⟩ := parseText_accepted (s := lit "AT+X\n\r\n") (m := commandX)
    (scannedBytes_of_lt (by decide)) (by decide +kernel)
  exact absurd (h _ _ _ _ haccepted) (by decide)

end Jxtd.Misc.ATParser
