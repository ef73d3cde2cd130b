import Jxtd.Lib.Flex
import Jxtd.Router.Cmd

/-!
# The parser of AT commands

`misc/parser/at`: the scanner of `token.l` and the grammar of `config.y`. The scanner is rerun for
every text, and the parser accepts a text only when nothing follows the command.

* `rules`, `parse`: the scanner and the grammar; `ATCommand`: what they yield.
* `ATCommand.render`, `Valid`: how a command is written, and which ones can be.
* **`parse_render`**: a command is parsed from what is written.
* **`parse_sound`**: a text that is parsed is the command, but for bytes that the scanner skips.
-/

namespace Jxtd.Misc.ATParser

open Lib Lib.Flex
open Router (ATMessage ATMessageType)

deriving instance DecidableEq for ATMessage

/-- The line end. -/
def crlf : Str := [0x0d, 0x0a]

/-- The end of the data. -/
def dataend : Str := lit "<<<" ++ crlf

inductive Token
  | END
  | DATAEND
  | DATA
  | AT
  | EQUAL
  | QST
  | COMMAND
  | STARTPARAM
  | PARAM
  | LASTPARAM
  | SINGLEPARAM
  | ERROR
  deriving DecidableEq

/-- `[A-Z]` -/
def upper (b : UInt8) : Bool := 0x41 ≤ b && b ≤ 0x5a

/-- `[0-9a-zA-Z".""=""_"]`; the quotes are of the class. -/
def paramByte (b : UInt8) : Bool :=
  (0x30 ≤ b && b ≤ 0x39) || (0x61 ≤ b && b ≤ 0x7a) || upper b || b ∈ lit "\".=_"

/-- The rules of `token.l`, in their order. -/
def rules : List (Rule Token) :=
  [⟨.END, str crlf, []⟩,
    ⟨.DATAEND, str dataend, []⟩,
    ⟨.DATA, str crlf ++ [.plus fun _ => true], dataend⟩,
    ⟨.AT, str (lit "AT"), lit "+"⟩,
    ⟨.EQUAL, str (lit "="), []⟩,
    ⟨.QST, str (lit "?"), []⟩,
    ⟨.COMMAND, str (lit "+") ++ [.plus upper], []⟩,
    ⟨.STARTPARAM, str (lit "=") ++ [.plus paramByte], lit ","⟩,
    ⟨.PARAM, str (lit ",") ++ [.plus paramByte], lit ","⟩,
    ⟨.LASTPARAM, str (lit ",") ++ [.plus paramByte], crlf⟩,
    ⟨.SINGLEPARAM, str (lit "=") ++ [.plus paramByte], crlf⟩,
    ⟨.ERROR, [.one fun b => b ≠ 0x0a], []⟩]

/-- A message with its command. -/
structure ATCommand extends ATMessage where
  cmd : Str
  deriving DecidableEq

/-- `data`: the type and the data. -/
def parseData : List (Token × Str) → Option (ATMessageType × Str)
  | [(.END, _)] => some (.CMD, [])
  | [(.DATA, yytext), (.DATAEND, _)] => some (.LONG, yytext.drop 2)
  | _ => none

/-- `param`, with what is left. -/
def parseParam : List (Token × Str) → Option (List Str × List (Token × Str))
  | (.PARAM, yytext) :: ts => (parseParam ts).map fun x => (yytext.drop 1 :: x.1, x.2)
  | (.LASTPARAM, yytext) :: ts => some ([yytext.drop 1], ts)
  | _ => none

/-- `next` -/
def parseNext : List (Token × Str) → Option ATMessage
  | [(.EQUAL, _), (.QST, _), (.END, _)] => some ⟨.SEARCH, [], []⟩
  | [(.QST, _), (.END, _)] => some ⟨.TEST, [], []⟩
  | (.SINGLEPARAM, yytext) :: ts => (parseData ts).map fun x => ⟨x.1, [yytext.drop 1], x.2⟩
  | (.STARTPARAM, yytext) :: ts =>
    (parseParam ts).bind fun y => (parseData y.2).map fun x => ⟨x.1, yytext.drop 1 :: y.1, x.2⟩
  | ts => (parseData ts).map fun x => ⟨x.1, [], x.2⟩

/-- `begin` -/
def parseBegin : List (Token × Str) → Option ATCommand
  | (.AT, _) :: (.COMMAND, yytext) :: ts =>
    (parseNext ts).map fun message => { message with cmd := yytext.drop 1 }
  | _ => none

/-- The message of a text that `is_correct`. -/
def parse (text : Str) : Option ATCommand := parseBegin (tokens rules text)

/-! ## How commands are written -/

/-- The parameters after the first. -/
def renderParam (ps : List Str) : Str := ps.flatMap fun p => lit "," ++ p

def renderParams : List Str → Str
  | [] => []
  | p :: ps => lit "=" ++ p ++ renderParam ps

/-- What follows the command. -/
def renderNext (message : ATMessage) : Str :=
  match message.type with
  | .NON => []
  | .CMD => renderParams message.param ++ crlf
  | .SEARCH => lit "=?" ++ crlf
  | .TEST => lit "?" ++ crlf
  | .LONG => renderParams message.param ++ crlf ++ message.data ++ dataend

def ATCommand.render (m : ATCommand) : Str := lit "AT+" ++ m.cmd ++ renderNext m.toATMessage

/-- A nonempty string over a class. -/
def Word (p : UInt8 → Bool) (s : Str) : Prop := s ≠ [] ∧ ∀ b ∈ s, p b = true

instance (p : UInt8 → Bool) (s : Str) : Decidable (Word p s) :=
  decidable_of_iff (s ≠ [] ∧ s.all p = true) (and_congr_right' List.all_eq_true)

/-- A command that the protocol knows: only a long one has data, queries have no parameters. -/
structure ATCommand.Valid (m : ATCommand) : Prop where
  cmd : Word upper m.cmd
  param : ∀ p ∈ m.param, Word paramByte p
  type : m.type ≠ .NON
  query : m.type = .SEARCH ∨ m.type = .TEST → m.param = []
  data : m.type ≠ .LONG → m.data = []

example : parse (lit "AT+CMD=first.=_1,second,third" ++ crlf) =
    some ⟨⟨.CMD, [lit "first.=_1", lit "second", lit "third"], []⟩, lit "CMD"⟩ := by
  decide +kernel

/-! ## Tokens -/

theorem productive_rules : Productive rules := by
  intro r hr
  simp only [rules, List.mem_cons, List.not_mem_nil, or_false] at hr
  rcases hr with rfl | rfl | rfl | rfl | rfl | rfl | rfl | rfl | rfl | rfl | rfl | rfl <;>
    exact List.cons_ne_nil _ _

variable {p cmd s v data : Str} {ps : List Str} {ts : List (Token × Str)} {m : ATCommand}

/-- The rule of any other byte. -/
def errorRule : Rule Token := ⟨.ERROR, [.one fun b => b ≠ 0x0a], []⟩

theorem longest_error_le {n : ℕ} (hn : 1 ≤ n) (s : Str) : errorRule.longest s ≤ n :=
  (longest_one_le rfl rfl s).trans hn

theorem tokens_at (s : Str) :
    tokens rules (lit "AT" ++ (lit "+" ++ s)) = (.AT, lit "AT") :: tokens rules (lit "+" ++ s) := by
  let r : Rule Token := ⟨.AT, str (lit "AT"), lit "+"⟩
  have hfilter : rules.filter (fun r => r.begins 0x41) = [] ++ r :: [errorRule] := rfl
  refine tokens_wins productive_rules rfl hfilter (longest_literal rfl rfl s) (by simp) ?_
  exact List.forall_mem_singleton.mpr (longest_error_le (by decide) _)

theorem tokens_command (hcmd : Word upper cmd) (hv : ∀ b, v.head? = some b → upper b = false) :
    tokens rules (lit "+" ++ cmd ++ v) = (.COMMAND, lit "+" ++ cmd) :: tokens rules v := by
  let r : Rule Token := ⟨.COMMAND, str (lit "+") ++ [.plus upper], []⟩
  have hlongest : r.longest (lit "+" ++ cmd ++ v) = (lit "+" ++ cmd).length + 0 := by
    refine (longest_plus rfl (fun b hb => by cases hb) hcmd.2 hv).trans ?_
    exact if_pos ⟨hcmd.1, List.nil_prefix⟩
  have hfilter : rules.filter (fun r => r.begins 0x2b) = [] ++ r :: [errorRule] := rfl
  refine tokens_wins productive_rules rfl hfilter hlongest (by simp) ?_
  exact List.forall_mem_singleton.mpr (longest_error_le (Nat.le_add_left 1 _) _)

/-- The rule of a parameter between `c` and `d`. -/
def paramRule (token : Token) (c d : Str) : Rule Token := ⟨token, str c ++ [.plus paramByte], d⟩

/-- The two strings that can follow a parameter. -/
def Follows (d : Str) : Prop := d = lit "," ∨ d = crlf

theorem Follows.head {d : Str} (hd : Follows d) (s : Str) :
    ∀ b, (d ++ s).head? = some b → paramByte b = false := by
  intro b hb
  rcases hd with rfl | rfl
  · cases hb
    rfl
  · cases hb
    rfl

theorem longest_param (token : Token) (c : Str) {d : Str} (hd : Follows d) (hp : Word paramByte p)
    (s : Str) :
    (paramRule token c d).longest (c ++ p ++ (d ++ s)) = (c ++ p).length + d.length := by
  have hcontext := hd.head []
  rw [List.append_nil] at hcontext
  refine (longest_plus rfl hcontext hp.2 (hd.head s)).trans ?_
  exact if_pos ⟨hp.1, List.prefix_append d s⟩

/-- Something else follows. -/
theorem longest_param_other (token : Token) (c : Str) {d d' : Str} (hd : Follows d)
    (hd' : Follows d') (hne : d ≠ d') (hp : Word paramByte p) (s : Str) :
    (paramRule token c d).longest (c ++ p ++ (d' ++ s)) = 0 := by
  have hcontext := hd.head []
  rw [List.append_nil] at hcontext
  refine (longest_plus rfl hcontext hp.2 (hd'.head s)).trans (if_neg fun h => hne ?_)
  obtain ⟨x, hx⟩ := h.2
  rcases hd with rfl | rfl <;> rcases hd' with rfl | rfl
  · rfl
  · cases hx
  · cases hx
  · rfl

/-- A parameter in front of `d`, among the rules for what begins as it does. -/
theorem tokens_paramRule {token : Token} (other : Token) {b : UInt8} {d d' : Str}
    {before after : List (Rule Token)}
    (hfilter : rules.filter (fun r => r.begins b) = before ++ paramRule token [b] d :: after)
    (hd : Follows d) (hd' : Follows d') (hne : d' ≠ d)
    (hbefore : ∀ r ∈ before, r = ⟨.EQUAL, str [b], []⟩ ∨ r = paramRule other [b] d')
    (hafter : ∀ r ∈ after, r = errorRule ∨ r = paramRule other [b] d')
    (hp : Word paramByte p) (s : Str) :
    tokens rules ([b] ++ p ++ (d ++ s)) = (token, [b] ++ p) :: tokens rules (d ++ s) := by
  have hlen := List.length_pos_iff.mpr hp.1
  have hother : (paramRule other [b] d').longest ([b] ++ p ++ (d ++ s)) = 0 :=
    longest_param_other other [b] hd' hd hne hp s
  have hpos : 1 < ([b] ++ p).length + d.length := by
    have hd : 0 < d.length := by
      rcases hd with rfl | rfl <;> decide
    simp only [List.length_append, List.length_singleton]
    omega
  refine tokens_wins productive_rules rfl hfilter (longest_param token [b] hd hp s) ?_ ?_
  · intro r hr
    rcases hbefore r hr with rfl | rfl
    · refine lt_of_eq_of_lt ?_ hpos
      exact longest_literal (r := ⟨Token.EQUAL, str [b], []⟩) (d := []) rfl rfl (p ++ (d ++ s))
    · rw [hother]
      exact Nat.zero_lt_of_lt hpos
  · intro r hr
    rcases hafter r hr with rfl | rfl
    · exact longest_error_le hpos.le _
    · rw [hother]
      exact Nat.zero_le _

theorem tokens_startparam (hp : Word paramByte p) (s : Str) :
    tokens rules (lit "=" ++ p ++ (lit "," ++ s)) =
      (.STARTPARAM, lit "=" ++ p) :: tokens rules (lit "," ++ s) := by
  have hfilter : rules.filter (fun r => r.begins 0x3d) =
    [⟨.EQUAL, str (lit "="), []⟩] ++ paramRule .STARTPARAM (lit "=") (lit ",") ::
      [paramRule .SINGLEPARAM (lit "=") crlf, errorRule] := rfl
  refine tokens_paramRule .SINGLEPARAM hfilter (.inl rfl) (.inr rfl) (by decide) ?_ ?_ hp s
  · exact List.forall_mem_singleton.mpr (.inl rfl)
  · exact List.forall_mem_cons.mpr ⟨.inr rfl, List.forall_mem_singleton.mpr (.inl rfl)⟩

theorem tokens_singleparam (hp : Word paramByte p) (s : Str) :
    tokens rules (lit "=" ++ p ++ (crlf ++ s)) =
      (.SINGLEPARAM, lit "=" ++ p) :: tokens rules (crlf ++ s) := by
  have hfilter : rules.filter (fun r => r.begins 0x3d) =
    [⟨.EQUAL, str (lit "="), []⟩, paramRule .STARTPARAM (lit "=") (lit ",")] ++
      paramRule .SINGLEPARAM (lit "=") crlf :: [errorRule] := rfl
  refine tokens_paramRule .STARTPARAM hfilter (.inr rfl) (.inl rfl) (by decide) ?_ ?_ hp s
  · exact List.forall_mem_cons.mpr ⟨.inl rfl, List.forall_mem_singleton.mpr (.inr rfl)⟩
  · exact List.forall_mem_singleton.mpr (.inl rfl)

theorem tokens_param (hp : Word paramByte p) (s : Str) :
    tokens rules (lit "," ++ p ++ (lit "," ++ s)) =
      (.PARAM, lit "," ++ p) :: tokens rules (lit "," ++ s) := by
  have hfilter : rules.filter (fun r => r.begins 0x2c) =
    [] ++ paramRule .PARAM (lit ",") (lit ",") ::
      [paramRule .LASTPARAM (lit ",") crlf, errorRule] := rfl
  refine tokens_paramRule .LASTPARAM hfilter (.inl rfl) (.inr rfl) (by decide) (by simp) ?_ hp s
  exact List.forall_mem_cons.mpr ⟨.inr rfl, List.forall_mem_singleton.mpr (.inl rfl)⟩

theorem tokens_lastparam (hp : Word paramByte p) (s : Str) :
    tokens rules (lit "," ++ p ++ (crlf ++ s)) =
      (.LASTPARAM, lit "," ++ p) :: tokens rules (crlf ++ s) := by
  have hfilter : rules.filter (fun r => r.begins 0x2c) =
    [paramRule .PARAM (lit ",") (lit ",")] ++ paramRule .LASTPARAM (lit ",") crlf ::
      [errorRule] := rfl
  refine tokens_paramRule .PARAM hfilter (.inr rfl) (.inl rfl) (by decide) ?_ ?_ hp s
  · exact List.forall_mem_singleton.mpr (.inr rfl)
  · exact List.forall_mem_singleton.mpr (.inl rfl)

theorem tokens_data (hdata : data ≠ []) :
    tokens rules (crlf ++ data ++ dataend) = [(.DATA, crlf ++ data), (.DATAEND, dataend)] := by
  let r : Rule Token := ⟨.DATA, str crlf ++ [.plus fun _ => true], dataend⟩
  have hmatches : r.matches (crlf ++ data ++ dataend) = true := by
    refine matches_iff.mpr ⟨crlf ++ data, rfl, (accepts_append _ _ _).mpr ⟨crlf, data, rfl, ?_, ?_⟩⟩
    · exact (accepts_str _ _).mpr rfl
    · exact (accepts_plus _ _ _).mpr
        ⟨data, [], (List.append_nil _).symm, hdata, fun _ _ => rfl, rfl⟩
  have hend : (⟨.END, str crlf, []⟩ : Rule Token).longest (crlf ++ data ++ dataend) = 2 := by
    rw [List.append_assoc]
    exact longest_literal (r := ⟨Token.END, str crlf, []⟩) (d := []) rfl rfl _
  have hfilter : rules.filter (fun r => r.begins 0x0d) =
    [⟨.END, str crlf, []⟩] ++ r :: [errorRule] := rfl
  have hpos : 2 < (crlf ++ data).length + dataend.length := by
    have hlast : dataend.length = 5 := rfl
    have hfirst : crlf.length = 2 := rfl
    rw [List.length_append]
    omega
  have hlast : tokens rules dataend = [(.DATAEND, dataend)] := by decide +kernel
  rw [tokens_wins productive_rules rfl hfilter
    ((longest_self hmatches).trans (List.length_append ..)) ?_ ?_, hlast]
  · exact List.forall_mem_singleton.mpr (hend.trans_lt hpos)
  · exact List.forall_mem_singleton.mpr (longest_error_le ((by decide : 1 ≤ 3).trans hpos) _)

/-! ## What is written is parsed -/

/-- The tokens of the parameters after the first. -/
def paramTokens : List Str → List (Token × Str)
  | [] => []
  | [p] => [(.LASTPARAM, lit "," ++ p)]
  | p :: ps => (.PARAM, lit "," ++ p) :: paramTokens ps

theorem tokens_renderParam (hne : ps ≠ []) (hps : ∀ p ∈ ps, Word paramByte p) (s : Str) :
    tokens rules (renderParam ps ++ (crlf ++ s)) = paramTokens ps ++ tokens rules (crlf ++ s) := by
  induction ps with
  | nil => exact absurd rfl hne
  | cons p ps ih =>
    obtain ⟨hp, hps⟩ := List.forall_mem_cons.mp hps
    cases ps with
    | nil =>
      have happ : renderParam [p] ++ (crlf ++ s) = lit "," ++ p ++ (crlf ++ s) := by
        simp [renderParam]
      rw [happ, tokens_lastparam hp]
      rfl
    | cons q ps =>
      have happ : renderParam (p :: q :: ps) ++ (crlf ++ s) =
          lit "," ++ p ++ (lit "," ++ (q ++ renderParam ps ++ (crlf ++ s))) := by
        simp [renderParam]
      have hrest : lit "," ++ (q ++ renderParam ps ++ (crlf ++ s)) =
          renderParam (q :: ps) ++ (crlf ++ s) := by
        simp [renderParam]
      rw [happ, tokens_param hp, hrest, ih (List.cons_ne_nil _ _) hps]
      rfl

theorem parseParam_paramTokens (hne : ps ≠ []) (ts : List (Token × Str)) :
    parseParam (paramTokens ps ++ ts) = some (ps, ts) := by
  induction ps with
  | nil => exact absurd rfl hne
  | cons p ps ih =>
    cases ps with
    | nil => rfl
    | cons q ps =>
      have ih := ih (List.cons_ne_nil _ _)
      show (parseParam (paramTokens (q :: ps) ++ ts)).map _ = _
      rw [ih]
      rfl

/-- What follows the parameters gives the type and the data. -/
theorem parseNext_params (hps : ∀ p ∈ ps, Word paramByte p) (s : Str) {type : ATMessageType}
    (h : parseData (tokens rules (crlf ++ s)) = some (type, data)) :
    parseNext (tokens rules (renderParams ps ++ (crlf ++ s))) = some ⟨type, ps, data⟩ := by
  cases ps with
  | nil =>
    have hnext (ts : List (Token × Str)) (hts : parseData ts = some (type, data)) :
        parseNext ts = some ⟨type, [], data⟩ := by
      unfold parseData at hts
      split at hts
      · cases hts
        rfl
      · cases hts
        rfl
      · cases hts
    exact hnext _ h
  | cons p ps =>
    obtain ⟨hp, hps⟩ := List.forall_mem_cons.mp hps
    cases ps with
    | nil =>
      have happ : renderParams [p] ++ (crlf ++ s) = lit "=" ++ p ++ (crlf ++ s) := by
        simp [renderParams, renderParam]
      rw [happ, tokens_singleparam hp]
      show (parseData (tokens rules (crlf ++ s))).map _ = _
      rw [h]
      rfl
    | cons q ps =>
      have happ : renderParams (p :: q :: ps) ++ (crlf ++ s) =
          lit "=" ++ p ++ (lit "," ++ (q ++ renderParam ps ++ (crlf ++ s))) := by
        simp [renderParams, renderParam]
      have hrest : lit "," ++ (q ++ renderParam ps ++ (crlf ++ s)) =
          renderParam (q :: ps) ++ (crlf ++ s) := by
        simp [renderParam]
      rw [happ, tokens_startparam hp, hrest, tokens_renderParam (List.cons_ne_nil _ _) hps]
      show (parseParam (paramTokens (q :: ps) ++ tokens rules (crlf ++ s))).bind _ = _
      rw [parseParam_paramTokens (List.cons_ne_nil _ _), Option.bind_some]
      show (parseData (tokens rules (crlf ++ s))).map _ = _
      rw [h]
      rfl

theorem parseNext_renderNext (h : m.Valid) (hdata : m.type = .LONG → m.data ≠ []) :
    parseNext (tokens rules (renderNext m.toATMessage)) = some m.toATMessage := by
  obtain ⟨⟨type, param, data⟩, cmd⟩ := m
  have hparam := h.param
  have hquery := h.query
  have hnodata := h.data
  dsimp only at hdata hparam hquery hnodata
  cases type with
  | NON => exact absurd rfl h.type
  | CMD =>
    rw [hnodata (by decide)]
    exact parseNext_params hparam [] (by decide +kernel)
  | SEARCH =>
    rw [hnodata (by decide), hquery (.inl rfl)]
    show parseNext (tokens rules (lit "=?" ++ crlf)) = some ⟨.SEARCH, [], []⟩
    decide +kernel
  | TEST =>
    rw [hnodata (by decide), hquery (.inr rfl)]
    show parseNext (tokens rules (lit "?" ++ crlf)) = some ⟨.TEST, [], []⟩
    decide +kernel
  | LONG =>
    have htokens := tokens_data (hdata rfl)
    rw [List.append_assoc] at htokens
    show parseNext (tokens rules (renderParams param ++ crlf ++ data ++ dataend)) = _
    rw [List.append_assoc, List.append_assoc]
    refine parseNext_params hparam (data ++ dataend) ?_
    rw [htokens]
    rfl

/-- No letter follows the command. -/
theorem head_renderNext (htype : m.type ≠ .NON) :
    ∀ b, (renderNext m.toATMessage).head? = some b → upper b = false := by
  have hparams (ps : List Str) (s : Str) :
      ∀ b, (renderParams ps ++ crlf ++ s).head? = some b → upper b = false := by
    intro b hb
    cases ps with
    | nil =>
      cases hb
      rfl
    | cons p ps =>
      cases hb
      rfl
  intro b hb
  rw [renderNext] at hb
  cases hm : m.type with
  | NON => exact absurd hm htype
  | CMD =>
    rw [hm] at hb
    exact hparams m.param [] b (by rwa [List.append_nil])
  | SEARCH =>
    rw [hm] at hb
    cases hb
    rfl
  | TEST =>
    rw [hm] at hb
    cases hb
    rfl
  | LONG =>
    rw [hm] at hb
    refine hparams m.param (m.data ++ dataend) b ?_
    rwa [← List.append_assoc]

/-- **A command is parsed from what is written**, unless it is a long one without data. -/
theorem parse_render (h : m.Valid) (hdata : m.type = .LONG → m.data ≠ []) :
    parse m.render = some m := by
  have happ : m.render = lit "AT" ++ (lit "+" ++ (m.cmd ++ renderNext m.toATMessage)) := by
    rw [ATCommand.render, List.append_assoc]
    rfl
  have hcommand := tokens_command h.cmd (head_renderNext h.type)
  rw [List.append_assoc] at hcommand
  rw [parse, happ, tokens_at, hcommand]
  show (parseNext (tokens rules (renderNext m.toATMessage))).map _ = _
  rw [parseNext_renderNext h hdata]
  rfl

/-! ## What is parsed was written -/

/-- The texts that a token can have. -/
def Shape (x : Token × Str) : Prop :=
  match x.1 with
  | .END => x.2 = crlf
  | .DATAEND => x.2 = dataend
  | .DATA => ∃ u, u ≠ [] ∧ x.2 = crlf ++ u
  | .AT => x.2 = lit "AT"
  | .EQUAL => x.2 = lit "="
  | .QST => x.2 = lit "?"
  | .COMMAND => ∃ u, Word upper u ∧ x.2 = lit "+" ++ u
  | .STARTPARAM | .SINGLEPARAM => ∃ u, Word paramByte u ∧ x.2 = lit "=" ++ u
  | .PARAM | .LASTPARAM => ∃ u, Word paramByte u ∧ x.2 = lit "," ++ u
  | .ERROR => True

theorem word_of_accepts {c : Str} {p : UInt8 → Bool} {t : Str}
    (h : accepts (str c ++ [.plus p]) t = true) : ∃ u, Word p u ∧ t = c ++ u := by
  obtain ⟨c', v, rfl, hc, hv⟩ := (accepts_append _ _ t).mp h
  obtain ⟨u, z, rfl, hu, hall, hz⟩ := (accepts_plus p [] v).mp hv
  rw [(accepts_str c c').mp hc, (accepts_nil z).mp hz, List.append_nil]
  exact ⟨u, ⟨hu, hall⟩, rfl⟩

theorem shape_tokens (s : Str) : ∀ x ∈ tokens rules s, Shape x := by
  rintro ⟨token, t⟩ hx
  obtain ⟨r, hr, rfl, ht⟩ := of_mem_tokens productive_rules hx
  simp only [rules, List.mem_cons, List.not_mem_nil, or_false] at hr
  rcases hr with rfl | rfl | rfl | rfl | rfl | rfl | rfl | rfl | rfl | rfl | rfl | rfl
  · exact (accepts_str _ _).mp ht
  · exact (accepts_str _ _).mp ht
  · obtain ⟨u, hu, rfl⟩ := word_of_accepts ht
    exact ⟨u, hu.1, rfl⟩
  · exact (accepts_str _ _).mp ht
  · exact (accepts_str _ _).mp ht
  · exact (accepts_str _ _).mp ht
  · exact word_of_accepts ht
  · exact word_of_accepts ht
  · exact word_of_accepts ht
  · exact word_of_accepts ht
  · exact word_of_accepts ht
  · trivial

/-- The text of some tokens. -/
def spelled (ts : List (Token × Str)) : Str := ts.flatMap Prod.snd

theorem parseData_sound (hts : ∀ x ∈ ts, Shape x) {type : ATMessageType}
    (h : parseData ts = some (type, data)) :
    type = .CMD ∧ data = [] ∧ spelled ts = crlf ∨
      type = .LONG ∧ data ≠ [] ∧ spelled ts = crlf ++ data ++ dataend := by
  unfold parseData at h
  split at h
  · rename_i text
    cases h
    have hend : text = crlf := hts _ List.mem_cons_self
    exact .inl ⟨rfl, rfl, by simp [spelled, hend]⟩
  · rename_i text text'
    cases h
    obtain ⟨u, hu, htext⟩ := hts _ List.mem_cons_self
    have hend : text' = dataend := hts _ (List.mem_cons_of_mem _ List.mem_cons_self)
    dsimp only at htext
    subst htext hend
    exact .inr ⟨rfl, hu, by simp [spelled, crlf]⟩
  · cases h

theorem parseParam_sound (hts : ∀ x ∈ ts, Shape x) {ts' : List (Token × Str)}
    (h : parseParam ts = some (ps, ts')) :
    (∀ p ∈ ps, Word paramByte p) ∧ spelled ts = renderParam ps ++ spelled ts' ∧
      ∀ x ∈ ts', Shape x := by
  induction ts generalizing ps with
  | nil => cases h
  | cons x ts ih =>
    obtain ⟨token, text⟩ := x
    obtain ⟨hx, hrests⟩ := List.forall_mem_cons.mp hts
    cases token with
    | PARAM =>
      obtain ⟨⟨qs, ts''⟩, hrest, heq⟩ := Option.map_eq_some_iff.mp h
      cases heq
      obtain ⟨u, hu, htext⟩ := hx
      dsimp only at htext
      subst htext
      obtain ⟨hqs, hspelled, hts'⟩ := ih hrests hrest
      refine ⟨List.forall_mem_cons.mpr ⟨hu, hqs⟩, ?_, hts'⟩
      show lit "," ++ u ++ spelled ts = lit "," ++ u ++ renderParam qs ++ spelled ts''
      rw [hspelled, List.append_assoc, List.append_assoc, List.append_assoc]
    | LASTPARAM =>
      cases h
      obtain ⟨u, hu, htext⟩ := hx
      dsimp only at htext
      subst htext
      refine ⟨List.forall_mem_singleton.mpr hu, ?_, hrests⟩
      show lit "," ++ u ++ spelled ts' = lit "," ++ u ++ [] ++ spelled ts'
      rw [List.append_nil]
    | END | DATAEND | DATA | AT | EQUAL | QST | COMMAND | STARTPARAM | SINGLEPARAM | ERROR =>
      cases h

theorem parseNext_sound (hts : ∀ x ∈ ts, Shape x) {message : ATMessage}
    (h : parseNext ts = some message) (cmd : Str) (hcmd : Word upper cmd) :
    (ATCommand.mk message cmd).Valid ∧ (message.type = .LONG → message.data ≠ []) ∧
      spelled ts = renderNext message := by
  -- the parameters, and what follows them
  have hparams {ps : List Str} {ts' : List (Token × Str)} {type : ATMessageType} {data : Str}
      (hps : ∀ p ∈ ps, Word paramByte p) (hts' : ∀ x ∈ ts', Shape x)
      (hdata : parseData ts' = some (type, data))
      (hspelled : spelled ts = renderParams ps ++ spelled ts')
      (hmessage : message = ⟨type, ps, data⟩) :
      (ATCommand.mk message cmd).Valid ∧ (message.type = .LONG → message.data ≠ []) ∧
        spelled ts = renderNext message := by
    subst hmessage
    obtain ⟨rfl, rfl, hend⟩ | ⟨rfl, hne, hend⟩ := parseData_sound hts' hdata
    · refine ⟨⟨hcmd, hps, by simp, by simp, fun _ => rfl⟩, by simp, ?_⟩
      rw [hspelled, hend]
      rfl
    · refine ⟨⟨hcmd, hps, by simp, by simp, by simp⟩, fun _ => hne, ?_⟩
      rw [hspelled, hend, ← List.append_assoc, ← List.append_assoc]
      rfl
  unfold parseNext at h
  split at h
  · rename_i text text' text''
    cases h
    have h₁ : text = lit "=" := hts (.EQUAL, text) (by simp)
    have h₂ : text' = lit "?" := hts (.QST, text') (by simp)
    have h₃ : text'' = crlf := hts (.END, text'') (by simp)
    subst h₁ h₂ h₃
    exact ⟨⟨hcmd, by simp, by simp, fun _ => rfl, fun _ => rfl⟩, by simp, rfl⟩
  · rename_i text text'
    cases h
    have h₁ : text = lit "?" := hts (.QST, text) (by simp)
    have h₂ : text' = crlf := hts (.END, text') (by simp)
    subst h₁ h₂
    exact ⟨⟨hcmd, by simp, by simp, fun _ => rfl, fun _ => rfl⟩, by simp, rfl⟩
  · rename_i text ts'
    obtain ⟨⟨type, data⟩, hdata, heq⟩ := Option.map_eq_some_iff.mp h
    obtain ⟨⟨u, hu, htext⟩, hts'⟩ := List.forall_mem_cons.mp hts
    dsimp only at htext
    subst htext
    have hword : ∀ p ∈ [u], Word paramByte p := List.forall_mem_singleton.mpr hu
    refine hparams hword hts' hdata ?_ heq.symm
    show lit "=" ++ u ++ spelled ts' = lit "=" ++ u ++ [] ++ spelled ts'
    rw [List.append_nil]
  · rename_i text ts'
    obtain ⟨⟨ps, ts''⟩, hparam, hrest⟩ := Option.bind_eq_some_iff.mp h
    obtain ⟨⟨type, data⟩, hdata, heq⟩ := Option.map_eq_some_iff.mp hrest
    obtain ⟨⟨u, hu, htext⟩, hts'⟩ := List.forall_mem_cons.mp hts
    dsimp only at htext
    subst htext
    obtain ⟨hps, hspelled, hts''⟩ := parseParam_sound hts' hparam
    refine hparams (List.forall_mem_cons.mpr ⟨hu, hps⟩) hts'' hdata ?_ heq.symm
    show lit "=" ++ u ++ spelled ts' = lit "=" ++ u ++ renderParam ps ++ spelled ts''
    rw [hspelled, List.append_assoc, List.append_assoc, List.append_assoc]
  · obtain ⟨⟨type, data⟩, hdata, heq⟩ := Option.map_eq_some_iff.mp h
    exact hparams (by simp) hts hdata rfl heq.symm

theorem parseBegin_sound (hts : ∀ x ∈ ts, Shape x) (h : parseBegin ts = some m) :
    m.Valid ∧ (m.type = .LONG → m.data ≠ []) ∧ m.render = spelled ts := by
  unfold parseBegin at h
  split at h
  · rename_i text text' ts'
    obtain ⟨message, hnext, rfl⟩ := Option.map_eq_some_iff.mp h
    obtain ⟨hat, hcommand⟩ := List.forall_mem_cons.mp hts
    obtain ⟨⟨cmd, hcmd, htext⟩, hrest⟩ := List.forall_mem_cons.mp hcommand
    have hat : text = lit "AT" := hat
    dsimp only at htext
    subst hat htext
    obtain ⟨hvalid, hdata, hspelled⟩ := parseNext_sound hrest hnext cmd hcmd
    refine ⟨hvalid, hdata, ?_⟩
    show lit "AT+" ++ cmd ++ renderNext message = lit "AT" ++ (lit "+" ++ cmd ++ spelled ts')
    rw [hspelled]
    rfl
  · cases h

/-- **A text that is parsed** is a command, less the bytes that the scanner skips. -/
theorem parse_sound (h : parse s = some m) :
    m.Valid ∧ (m.type = .LONG → m.data ≠ []) ∧ m.render.Sublist s := by
  obtain ⟨hvalid, hdata, hrender⟩ := parseBegin_sound (shape_tokens s) h
  exact ⟨hvalid, hdata, hrender ▸ tokens_sublist rules s⟩

end Jxtd.Misc.ATParser
