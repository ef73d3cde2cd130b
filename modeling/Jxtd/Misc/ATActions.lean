import Jxtd.Lib.Posix
import Jxtd.Misc.ATParser

/-!
# The actions of the AT parser

The parser that bison makes of `config.y`, with its actions on one static message (`action.c`), and
`ATParser::parse`, which takes the parts of that message and frees them (`ATParser.cc`).

* `CATMessage`: the static message, and the actions.
* `State`, `shift`, `yyparse`: the automaton. A state with a single reduction reduces without a token
  more, so that every action finds the text of the token before it.
* `parseText`, `parseTexts`: one text after the other.
* **`yyparse_start`**: the automaton finds what the grammar says, from any static message.
* **`parseText_render_iff`**: exactly which commands come back, whatever was parsed before.
-/

namespace Jxtd.Misc.ATParser

open Lib Lib.Flex Posix
open Router (ATMessage ATMessageType)

/-! ## The static message -/

/-- `struct C_ATMessage`; a null pointer is `none`. -/
structure CATMessage where
  type : ATMessageType
  cmd : Option Str
  param : Option (List Str)
  data : Option Str
  paramNum : ℕ
  dataLeng : ℕ
  deriving DecidableEq

namespace CATMessage

/-- `C_ATMessage_init` -/
def init : CATMessage := ⟨.NON, none, none, none, 0, 0⟩

/-- `ATMessage_set_type` -/
def setType (result : CATMessage) (type : ATMessageType) : CATMessage := { result with type }

/-- `ATMessage_set_cmd` -/
def setCmd (result : CATMessage) (cmd : Str) : CATMessage := { result with cmd := some (cstr cmd) }

/-- `ATMessage_add_param` -/
def addParam (result : CATMessage) (param : Str) : CATMessage :=
  let old := if 0 < result.paramNum then result.param.getD [] else []
  { result with param := some (old ++ [cstr param]), paramNum := result.paramNum + 1 }

/-- `ATMessage_set_data` -/
def setData (result : CATMessage) (data : Str) : CATMessage :=
  { result with data := some data, dataLeng := data.length }

end CATMessage

/-! ## The automaton -/

/-- What has been read of a text. -/
inductive State
  | start
  /-- `AT` -/
  | at
  /-- The command: a `next` follows. -/
  | command
  /-- `EQUAL` -/
  | equal
  /-- `EQUAL QST` -/
  | search
  /-- `QST` -/
  | test
  /-- `STARTPARAM` or `PARAM`: a `param` follows. -/
  | param
  /-- All parameters: a `data` follows. -/
  | data
  /-- `DATA` -/
  | dataend
  /-- `begin` -/
  | accept

/-- A token is shifted, and the actions up to the next token are run; `none` is a syntax error. -/
def shift : State → CATMessage → Token × Str → Option (State × CATMessage)
  | .start, _, (.AT, _) => some (.at, .init)
  | .at, result, (.COMMAND, yytext) => some (.command, result.setCmd (yytext.drop 1))
  | .command, result, (.EQUAL, _) => some (.equal, result)
  | .equal, result, (.QST, _) => some (.search, result.setType .SEARCH)
  | .command, result, (.QST, _) => some (.test, result.setType .TEST)
  | .search, result, (.END, _) | .test, result, (.END, _) => some (.accept, result)
  | .command, result, (.SINGLEPARAM, yytext) => some (.data, result.addParam (yytext.drop 1))
  | .command, result, (.STARTPARAM, yytext) | .param, result, (.PARAM, yytext) =>
    some (.param, result.addParam (yytext.drop 1))
  | .param, result, (.LASTPARAM, yytext) => some (.data, result.addParam (yytext.drop 1))
  | .command, result, (.END, _) | .data, result, (.END, _) => some (.accept, result.setType .CMD)
  | .command, result, (.DATA, yytext) | .data, result, (.DATA, yytext) =>
    some (.dataend, result.setData (yytext.drop 2))
  | .dataend, result, (.DATAEND, _) => some (.accept, result.setType .LONG)
  | _, _, _ => none

/-- `yyparse` up to the end of the tokens. -/
def yyparse : State → CATMessage → List (Token × Str) → Option CATMessage
  | .accept, result, [] => some result
  | _, _, [] => none
  | state, result, token :: tokens =>
    (shift state result token).bind fun x => yyparse x.1 x.2 tokens

/-! ## Texts -/

/-- `yy_scan_bytes`, in a buffer of two bytes more; the length is an `int`. -/
def yyScanBytes (bytes : Str) (len : ℤ) : Option Str :=
  if 0 ≤ len ∧ len + 2 < 2 ^ 31 then some (bytes.take len.toNat) else none

/-- `ATParser_parse_entrance` and `ATParser_get_error`; after an error the message is initialised. -/
def parseEntrance (result : CATMessage) (text : Str) (length : ℤ) : Option (Bool × CATMessage) :=
  (yyScanBytes text length).map fun bytes =>
    match yyparse .start result (tokens rules bytes) with
    | some result => (true, result)
    | none => (false, .init)

/-- What `ATParser::parse` takes of the static message. -/
def CATMessage.taken (result : CATMessage) : ATCommand where
  type := result.type
  cmd := result.cmd.getD []
  param := (result.param.getD []).take result.paramNum
  data := (result.data.getD []).take result.dataLeng

/-- What it leaves. -/
def CATMessage.freed (result : CATMessage) : CATMessage :=
  { result with cmd := none, param := none, data := none }

/-- `ATParser::parse` on a text: `is_correct` and the message, and the static message that is left. A
text may be too long for an `int`, and then nothing is returned. -/
def parseText (result : CATMessage) (words : Str) : Option ((Bool × ATCommand) × CATMessage) :=
  (parseEntrance result words ((words.length : ℤ).bmod (2 ^ 32))).map fun x =>
    if x.1 then ((true, x.2.taken), x.2.freed) else ((false, ⟨⟨.NON, [], []⟩, []⟩), x.2)

/-- The static message after some texts. -/
def parseTexts (texts : List Str) : Option CATMessage :=
  texts.foldlM (fun result words => (parseText result words).map Prod.snd) .init

/-! ## The automaton and the grammar -/

variable {result : CATMessage} {m : ATCommand} {s : Str} {ps : List Str} {ts : List (Token × Str)}

/-- The actions at the end of a message. -/
def CATMessage.ended (result : CATMessage) (type : ATMessageType) (data : Str) : CATMessage :=
  if type = .LONG then (result.setData data).setType .LONG else result.setType type

/-- The actions for a whole message. -/
def ATCommand.stored (m : ATCommand) : CATMessage :=
  (m.param.foldl CATMessage.addParam (CATMessage.init.setCmd m.cmd)).ended m.type m.data

theorem yyparse_data (result : CATMessage) (ts : List (Token × Str)) :
    yyparse .data result ts = (parseData ts).map fun x => result.ended x.1 x.2 := by
  cases ts with
  | nil => rfl
  | cons x ts =>
    obtain ⟨token, yytext⟩ := x
    cases token with
    | END =>
      cases ts with
      | nil => rfl
      | cons y ts => rfl
    | DATA =>
      cases ts with
      | nil => rfl
      | cons y ts =>
        obtain ⟨token, yytext'⟩ := y
        cases token <;> cases ts <;> rfl
    | DATAEND | AT | EQUAL | QST | COMMAND | STARTPARAM | PARAM | LASTPARAM | SINGLEPARAM | ERROR =>
      rfl

theorem yyparse_param (result : CATMessage) (ts : List (Token × Str)) :
    yyparse .param result ts = (parseParam ts).bind fun y =>
      (parseData y.2).map fun x => (y.1.foldl CATMessage.addParam result).ended x.1 x.2 := by
  induction ts generalizing result with
  | nil => rfl
  | cons x ts ih =>
    obtain ⟨token, yytext⟩ := x
    cases token with
    | PARAM =>
      show yyparse .param (result.addParam (yytext.drop 1)) ts = _
      rw [ih, parseParam, Option.bind_map]
      rfl
    | LASTPARAM =>
      show yyparse .data (result.addParam (yytext.drop 1)) ts = _
      rw [yyparse_data]
      rfl
    | END | DATAEND | DATA | AT | EQUAL | QST | COMMAND | STARTPARAM | SINGLEPARAM | ERROR => rfl

theorem yyparse_command (result : CATMessage) (ts : List (Token × Str)) :
    yyparse .command result ts = (parseNext ts).map fun x =>
      (x.param.foldl CATMessage.addParam result).ended x.type x.data := by
  -- no parameters
  have hdata (h : yyparse .command result ts = yyparse .data result ts)
      (hnext : parseNext ts = (parseData ts).map fun x => ⟨x.1, [], x.2⟩) :
      yyparse .command result ts = (parseNext ts).map fun x =>
        (x.param.foldl CATMessage.addParam result).ended x.type x.data := by
    rw [h, hnext, yyparse_data, Option.map_map]
    rfl
  cases ts with
  | nil => rfl
  | cons x ts =>
    obtain ⟨token, yytext⟩ := x
    cases token with
    | END => exact hdata rfl rfl
    | DATA => exact hdata rfl rfl
    | EQUAL =>
      rcases ts with _ | ⟨⟨token, yytext'⟩, _ | ⟨⟨token', yytext''⟩, ts⟩⟩
      · rfl
      · cases token <;> rfl
      · cases token with
        | QST => cases token' <;> cases ts <;> rfl
        | END | DATAEND | DATA | AT | EQUAL | COMMAND | STARTPARAM | PARAM | LASTPARAM
        | SINGLEPARAM | ERROR => rfl
    | QST =>
      rcases ts with _ | ⟨⟨token, yytext'⟩, ts⟩
      · rfl
      · cases token <;> cases ts <;> rfl
    | SINGLEPARAM =>
      show yyparse .data (result.addParam (yytext.drop 1)) ts = _
      rw [yyparse_data, parseNext, Option.map_map]
      rfl
    | STARTPARAM =>
      show yyparse .param (result.addParam (yytext.drop 1)) ts = _
      rw [yyparse_param, parseNext, Option.map_bind]
      refine Option.bind_congr fun y _ => ?_
      rw [Function.comp_apply, Option.map_map]
      rfl
    | DATAEND | AT | COMMAND | PARAM | LASTPARAM | ERROR => rfl

/-- **The automaton finds what the grammar says**, and stores it. -/
theorem yyparse_start (result : CATMessage) (ts : List (Token × Str)) :
    yyparse .start result ts = (parseBegin ts).map ATCommand.stored := by
  rcases ts with _ | ⟨⟨token, yytext⟩, ts⟩
  · rfl
  cases token with
  | AT =>
    rcases ts with _ | ⟨⟨token, yytext'⟩, ts⟩
    · rfl
    cases token with
    | COMMAND =>
      show yyparse .command (CATMessage.init.setCmd (yytext'.drop 1)) ts = _
      rw [yyparse_command, parseBegin, Option.map_map]
      rfl
    | END | DATAEND | DATA | AT | EQUAL | QST | STARTPARAM | PARAM | LASTPARAM | SINGLEPARAM
    | ERROR => rfl
  | END | DATAEND | DATA | COMMAND | EQUAL | QST | STARTPARAM | PARAM | LASTPARAM | SINGLEPARAM
  | ERROR => rfl

/-! ## What is stored comes back -/

theorem zero_notMem {p : UInt8 → Bool} (hp : p 0 = false) {u : Str} (hu : Word p u) : 0 ∉ u := by
  intro hzero
  have h := hu.2 0 hzero
  rw [hp] at h
  cases h

/-- As many parameters as are counted. -/
def CATMessage.Counted (result : CATMessage) : Prop :=
  (result.param.getD []).length = result.paramNum

theorem addParam_param (h : result.Counted) (p : Str) :
    (result.addParam p).param = some (result.param.getD [] ++ [cstr p]) ∧
      (result.addParam p).Counted := by
  have hold : (if 0 < result.paramNum then result.param.getD [] else []) =
      result.param.getD [] := by
    rw [← h]
    split_ifs with hpos
    · rfl
    · exact (List.length_eq_zero_iff.mp (Nat.eq_zero_of_not_pos hpos)).symm
  have hparam : (result.addParam p).param = some (result.param.getD [] ++ [cstr p]) := by
    rw [CATMessage.addParam, hold]
  refine ⟨hparam, ?_⟩
  rw [CATMessage.Counted, hparam, Option.getD_some, List.length_append, h]
  rfl

/-- The parameters are added in their order, and nothing else is changed. -/
theorem foldl_addParam (h : result.Counted) (hps : ∀ p ∈ ps, Word paramByte p) :
    ((ps.foldl CATMessage.addParam result).param.getD [] = result.param.getD [] ++ ps ∧
      (ps.foldl CATMessage.addParam result).Counted) ∧
    (ps.foldl CATMessage.addParam result).cmd = result.cmd ∧
      (ps.foldl CATMessage.addParam result).data = result.data := by
  induction ps generalizing result with
  | nil => exact ⟨⟨(List.append_nil _).symm, h⟩, rfl, rfl⟩
  | cons p ps ih =>
    obtain ⟨hp, hps⟩ := List.forall_mem_cons.mp hps
    obtain ⟨hparam, hcounted⟩ := addParam_param h p
    obtain ⟨⟨hrest, hcounted⟩, hcmd, hdata⟩ := ih hcounted hps
    rw [hparam, cstr_of_notMem (zero_notMem (by decide) hp), Option.getD_some,
      List.append_assoc] at hrest
    exact ⟨⟨hrest, hcounted⟩, hcmd, hdata⟩

/-- The parameters and the command of a message are stored. -/
theorem stored_param (h : m.Valid) {result : CATMessage}
    (hresult : m.param.foldl CATMessage.addParam (CATMessage.init.setCmd m.cmd) = result) :
    result.param.getD [] = m.param ∧ result.paramNum = m.param.length ∧ result.cmd = some m.cmd ∧
      result.data = none := by
  subst hresult
  have hcounted : (CATMessage.init.setCmd m.cmd).Counted := rfl
  obtain ⟨⟨hparam, hnum⟩, hcmd, hdata⟩ := foldl_addParam hcounted h.param
  have hcstr : cstr m.cmd = m.cmd := cstr_of_notMem (zero_notMem (by decide) h.cmd)
  refine ⟨hparam, ?_, ?_, hdata⟩
  · rw [← hnum, hparam]
    rfl
  · rw [hcmd, CATMessage.setCmd, hcstr]

/-- **What is taken** is the message. -/
theorem taken_stored (h : m.Valid) : m.stored.taken = m := by
  obtain ⟨hparam, hnum, hcmd, hnone⟩ := stored_param h rfl
  rw [ATCommand.stored]
  generalize m.param.foldl CATMessage.addParam (CATMessage.init.setCmd m.cmd) = result at *
  obtain ⟨⟨type, param, data⟩, cmd⟩ := m
  dsimp only at hparam hnum hcmd
  by_cases hlong : type = .LONG
  · simp [CATMessage.ended, CATMessage.taken, CATMessage.setType, CATMessage.setData, hlong, hcmd,
      hparam, hnum]
  · have hdata : data = [] := h.data hlong
    simp [CATMessage.ended, CATMessage.taken, CATMessage.setType, hlong, hcmd, hparam, hnum, hnone,
      hdata]

/-! ## Whole texts -/

/-- The bytes that are scanned of a text. -/
def scannedBytes (words : Str) : Option Str :=
  yyScanBytes words ((words.length : ℤ).bmod (2 ^ 32))

/-- What `is_correct` and the message are for a text. -/
def outcome (parsed : Option ATCommand) : Bool × ATCommand :=
  (parsed.isSome, parsed.getD ⟨⟨.NON, [], []⟩, []⟩)

/-- **A text is parsed** in the same way whatever is in the static message. -/
theorem parseText_eq (result : CATMessage) (words : Str) :
    (parseText result words).map Prod.fst =
      (scannedBytes words).map fun bytes => outcome (parse bytes) := by
  rw [parseText, parseEntrance, scannedBytes, Option.map_map, Option.map_map]
  refine Option.map_congr fun bytes _ => ?_
  rw [Function.comp_apply, Function.comp_apply, yyparse_start]
  show _ = outcome (parse bytes)
  cases hparse : parse bytes with
  | none =>
    have hbegin : parseBegin (tokens rules bytes) = none := hparse
    rw [hbegin]
    rfl
  | some m =>
    have hbegin : parseBegin (tokens rules bytes) = some m := hparse
    have htaken := taken_stored (parse_sound hparse).1
    rw [hbegin]
    show (true, m.stored.taken) = (true, m)
    rw [htaken]

theorem scannedBytes_of_lt (h : s.length + 2 < 2 ^ 31) : scannedBytes s = some s := by
  have hbmod : (s.length : ℤ).bmod (2 ^ 32) = s.length := by
    apply Int.bmod_eq_of_le <;> omega
  rw [scannedBytes, yyScanBytes, hbmod, if_pos (by omega), Int.toNat_natCast, List.take_length]

/-- **A text that is scanned whole** fits into the buffer. -/
theorem scannedBytes_eq_self_iff : scannedBytes s = some s ↔ s.length + 2 < 2 ^ 31 := by
  refine ⟨fun h => ?_, scannedBytes_of_lt⟩
  rw [scannedBytes, yyScanBytes] at h
  split_ifs at h with hfits
  have hlen := congrArg List.length (Option.some.inj h)
  rw [List.length_take] at hlen
  omega

/-- A command is found in the bytes that are scanned. -/
theorem parseText_correct_iff : (∃ result', parseText result s = some ((true, m), result')) ↔
    ∃ bytes, scannedBytes s = some bytes ∧ parse bytes = some m := by
  have hfst : (∃ result', parseText result s = some ((true, m), result')) ↔
      (parseText result s).map Prod.fst = some (true, m) := by
    rw [Option.map_eq_some_iff]
    constructor
    · rintro ⟨result', h⟩
      exact ⟨_, h, rfl⟩
    · rintro ⟨⟨x, result'⟩, h, rfl⟩
      exact ⟨result', h⟩
  rw [hfst, parseText_eq, Option.map_eq_some_iff]
  refine exists_congr fun bytes => and_congr_right fun _ => ?_
  cases hparse : parse bytes with
  | none => simp [outcome]
  | some m' => simp [outcome]

theorem scannedBytes_prefix {bytes : Str} (h : scannedBytes s = some bytes) : bytes <+: s := by
  rw [scannedBytes, yyScanBytes] at h
  split_ifs at h
  obtain rfl := Option.some.inj h
  exact List.take_prefix _ s

/-- **Exactly which commands come back** from what is written, after any texts: those whose text is
shorter than an `int` can count, with two bytes to spare. -/
theorem parseText_render_iff {texts : List Str} (hm : m.Valid) (hdata : m.type = .LONG → m.data ≠ [])
    (_htexts : parseTexts texts = some result) :
    (∃ result', parseText result m.render = some ((true, m), result')) ↔
      m.render.length + 2 < 2 ^ 31 := by
  rw [parseText_correct_iff, ← scannedBytes_eq_self_iff]
  constructor
  · rintro ⟨bytes, hbytes, hparse⟩
    have hsub := (parse_sound hparse).2.2
    have hpre := scannedBytes_prefix hbytes
    have hlen := Nat.le_antisymm hpre.length_le hsub.length_le
    rw [hpre.eq_of_length hlen] at hbytes
    exact hbytes
  · intro hscan
    exact ⟨m.render, hscan, parse_render hm hdata⟩

/-- A query after a text that is no command. -/
theorem parseText_render_query : ∃ result, parseTexts [lit "AT+ASK\r"] = some result ∧
    ∃ result', parseText result (ATCommand.mk ⟨.TEST, [], []⟩ (lit "ASK")).render =
      some ((true, ⟨⟨.TEST, [], []⟩, lit "ASK"⟩), result') := by
  have htexts : parseTexts [lit "AT+ASK\r"] = some .init := by decide +kernel
  have hvalid : (ATCommand.mk ⟨.TEST, [], []⟩ (lit "ASK")).Valid :=
    ⟨by decide, by simp, by simp, fun _ => rfl, fun _ => rfl⟩
  refine ⟨.init, htexts, (parseText_render_iff hvalid (fun h => by cases h) htexts).mpr ?_⟩
  decide

/-- A long command. -/
def longCommand (data : Str) : ATCommand := ⟨⟨.LONG, [], data⟩, lit "L"⟩

theorem valid_longCommand (data : Str) : (longCommand data).Valid where
  cmd := (by decide : Word upper (lit "L"))
  param := List.forall_mem_nil _
  type h := by cases h
  query _ := rfl
  data h := absurd rfl h

theorem length_render_longCommand (data : Str) :
    (longCommand data).render.length = data.length + 11 := by
  have hrender : (longCommand data).render = lit "AT+L" ++ crlf ++ data ++ dataend := rfl
  rw [hrender, List.length_append, List.length_append, List.length_append]
  have hcmd : (lit "AT+L").length = 4 := rfl
  have hcrlf : crlf.length = 2 := rfl
  have hend : dataend.length = 5 := rfl
  omega

/-- Data of `2 ^ 31` bytes. -/
theorem not_parseText_longCommand {data : Str} (h : data.length = 2 ^ 31) :
    ¬ ∃ result', parseText .init (longCommand data).render =
      some ((true, longCommand data), result') := by
  rintro hcorrect
  obtain ⟨bytes, hbytes, hparse⟩ := parseText_correct_iff.mp hcorrect
  have hsub := (parse_sound hparse).2.2
  have hpre := scannedBytes_prefix hbytes
  rw [hpre.eq_of_length (Nat.le_antisymm hpre.length_le hsub.length_le)] at hbytes
  have hlen := scannedBytes_eq_self_iff.mp hbytes
  rw [length_render_longCommand, h] at hlen
  omega

/-- **A long command of `2 ^ 31` bytes** does not come back. -/
theorem long_text_lost : ¬ ∀ (m : ATCommand) (texts : List Str) (result : CATMessage), m.Valid →
    (m.type = .LONG → m.data ≠ []) → parseTexts texts = some result →
      ∃ result', parseText result m.render = some ((true, m), result') := by
  intro h
  have hlength : (List.replicate (2 ^ 31) (0x41 : UInt8)).length = 2 ^ 31 := List.length_replicate ..
  refine not_parseText_longCommand hlength (h _ [] .init (valid_longCommand _) (fun _ hnil => ?_) rfl)
  have hdata : List.replicate (2 ^ 31) (0x41 : UInt8) = [] := hnil
  rw [hdata] at hlength
  cases hlength

end Jxtd.Misc.ATParser
