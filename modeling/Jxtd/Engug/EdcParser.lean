import Jxtd.Engug.Ir
import Jxtd.Lib.Check
import Jxtd.Lib.Utf8

/-!
# The parser of EDC files

`EdcParser::parse` takes all whitespace out of the text and reads sections from its bytes until one
does not parse (`engug/src/parser.rs`). A section is a name in brackets and properties `key=value;`;
some keys are typed, and every kind of section is checked for its keys.

* `isWhitespace`, `trim`, `parseU32`: the functions of `char`, `str` and `u32`.
* `Section.getEntry`, `asString`, `asU32`: the values of a key, cast to a type.
* `addProperty`, `typeProperties`: the loop over the properties.
* `check` and the checks of the kinds of sections.
* `parseSectionName`, `parseProperty`, `parseSection`, `parse`: the parsers.
-/

namespace Jxtd.Engug.Edc

open Lib

/-! ## Characters and numbers -/

/-- `char::is_whitespace`, the property `White_Space` of Unicode. -/
def isWhitespace (c : Char) : Bool :=
  let n := c.toNat
  (0x9 ≤ n && n ≤ 0xd) || n == 0x20 || n == 0x85 || n == 0xa0 || n == 0x1680 ||
    (0x2000 ≤ n && n ≤ 0x200a) || n == 0x2028 || n == 0x2029 || n == 0x202f || n == 0x205f ||
    n == 0x3000

def trimChars (cs : List Char) : List Char :=
  ((cs.dropWhile isWhitespace).reverse.dropWhile isWhitespace).reverse

/-- `str::trim`. -/
def trim (s : String) : String := String.ofList (trimChars s.toList)

/-- `u32::from_str` on a string of digits. -/
def parseU32 (s : String) : Option UInt32 :=
  let n := Nat.ofDigitChars 10 s.toList 0
  if s ≠ "" ∧ n < 2 ^ 32 then some n.toUInt32 else none

/-- `unwrap` of an `Option`. -/
def unwrapOption {α : Type} (x : Option α) : Except Fail α :=
  match x with
  | some a => .ok a
  | none => .error (.panics "called `Option::unwrap()` on a `None` value")

/-- `unwrap` of a `Result`. -/
def unwrapResult {α : Type} (x : Option α) : Except Fail α :=
  match x with
  | some a => .ok a
  | none => .error (.panics "called `Result::unwrap()` on an `Err` value")

/-! ## The values of a key -/

/-- `TryFrom<IRValue>` for `String`. -/
def asString : IRValue → Option String
  | .seq value => some value
  | _ => none

/-- `TryFrom<IRValue>` for `u32`. -/
def asU32 : IRValue → Option UInt32
  | .integer (.double value) => some value
  | _ => none

/-- `TryFrom<IRValue>` for `u8`. -/
def asU8 : IRValue → Option UInt8
  | .integer (.byte value) => some value
  | _ => none

/-- `Section::get_entry`. -/
def getEntry {α : Type} (cast : IRValue → Option α) (s : Section) (key : String) :
    Option (List (Option α)) :=
  (s.getEntryBoxed key).map fun values => values.map cast

/-- `get_entry(..).expect(..)`. -/
def expectEntry {α : Type} (cast : IRValue → Option α) (s : Section) (key msg : String) :
    Except Fail (List (Option α)) :=
  match getEntry cast s key with
  | some values => .ok values
  | none => .error (.panics msg)

/-! ## Typed keys -/

def numberKeys : List String := ["outputs", "inputs"]

def flagKeys : List String := ["lazy", "persistent", "lazypar", "persistentpar"]

/-- The body of the loop over the properties. -/
def addProperty (state : Section × List String) (property : String × String) :
    Except Fail (Section × List String) :=
  let (s, keys) := state
  let (key, value) := property
  if key ∈ numberKeys then
    if value.toList.all Char.isDigit then do
      let number ← unwrapResult (parseU32 value)
      return (s.addEntry key (.integer (.double number)), keys ++ [key])
    else .error .error
  else if key ∈ flagKeys then
    if value = "true" then .ok (s.addEntry key (.integer (.byte 1)), keys ++ [key])
    else if value = "false" then .ok (s.addEntry key (.integer (.byte 0)), keys ++ [key])
    else .error .error
  else .ok (s.addEntry key (.seq value), keys ++ [key])

/-- The loop over the properties. -/
def typeProperties (state : Section × List String) :
    List (String × String) → Except Fail (Section × List String)
  | [] => .ok state
  | property :: properties => do
    let state ← addProperty state property
    typeProperties state properties

/-! ## The checks -/

/-- Adds the empty string for a key that is missing. -/
def addDefault (s : Section) (keys : List String) (key : String) : Section :=
  if key ∈ keys then s else s.addEntry key (.seq "")

def checkMeta (s : Section) (keys : List String) : Except Fail (Bool × Section) :=
  let s := addDefault (addDefault s keys "name") keys "description"
  if "mid" ∉ keys then .ok (false, s)
  else do
    let ok ← checkAll (fun key => do
      let values ← expectEntry asString s key "missing necessary property in section meta"
      return values.length == 1) ["name", "description", "mid"]
    return (ok, s)

/-- A key with one of the given types, and a second key that occurs once. -/
def checkTyped (s : Section) (typekey typemsg : String) (types : List String)
    (valuekey valuemsg : String) : Except Fail Bool := do
  let typeRes ← expectEntry asString s typekey typemsg
  match typeRes with
  | [type] =>
    let type ← unwrapOption type
    if type ∉ types then .ok false
    else
      let value ← expectEntry asString s valuekey valuemsg
      return value.length == 1
  | _ => .ok false

def bindvalues : List String := ["free", "imm", "remote", "eng"]

def immtypes : List String := ["empty", "imm", "file", "url", "id"]

def remotetypes : List String := ["file", "url", "id"]

/-- The keys of one buffer. -/
def checkBuffer (s : Section) (name : String) : Except Fail Bool := do
  let bindvalue ← expectEntry asString s (name ++ "bind")
    "the key <name>bind in section buffers:value in buffers should be present"
  match bindvalue with
  | [binddata] =>
    let binddata ← unwrapOption binddata
    if binddata ∉ bindvalues then .ok false
    else if binddata = "imm" then
      checkTyped s (name ++ "immtype")
        "the key <name>immtype in section buffers:value in buffers should be present" immtypes
        (name ++ "immvalue")
        "the key <name>immvalue in section buffers:value in buffers should be present"
    else if binddata = "remote" then
      checkTyped s (name ++ "remotetype")
        "the key <name>remotetype in section buffers:value in buffers should be present" remotetypes
        (name ++ "remotevalue")
        "the key <name>remotevalue in section buffers:value in buffers should be present"
    else if binddata = "eng" then do
      let engres1 ← expectEntry asString s (name ++ "engid")
        "the key <name>engid in section buffers:value in buffers should be present"
      let engres2 ← expectEntry asString s (name ++ "engbuf")
        "the key <name>engbuf in section buffers:value in buffers should be present"
      return engres1.length == 1 && engres2.length == 1
    else .ok true
  | _ => .ok false

/-- A key all of whose values are names of buffers. -/
def checkNamed (s : Section) (keys names : List String) (key : String) : Except Fail Bool :=
  if key ∈ keys then do
    let res ← expectEntry asString s key
      "the key in section buffers:value in buffers should be present"
    return (res.filterMap id).all (· ∈ names)
  else .ok true

/-- The names of the buffers. -/
def bufferNames (extra : List String) (inputs outputs : ℕ) : List String :=
  extra ++ (List.range inputs).map (fun i => "input" ++ toString i) ++
    (List.range outputs).map fun i => "output" ++ toString i

def checkBuffers (s : Section) (keys : List String) : Except Fail Bool :=
  if "outputs" ∉ keys ∨ "inputs" ∉ keys then .ok false
  else do
    let num1 ← expectEntry asU32 s "inputs" "missing property(inputs) in section buffers"
    match num1 with
    | [inputs] =>
      let inputs ← unwrapOption inputs
      let num2 ← expectEntry asU32 s "outputs" "missing property(outputs) in section buffers"
      match num2 with
      | [outputs] =>
        let outputs ← unwrapOption outputs
        let values := (getEntry asString s "extra").getD []
        let names := bufferNames (values.filterMap id) inputs.toNat outputs.toNat
        let ok ← checkAll (checkNamed s keys names) ["unspecific", "pilotage", "lane"]
        if ok then checkAll (checkBuffer s) names else .ok false
      | _ => .ok false
    | _ => .ok false

/-- The keys of one dependency. -/
def checkDep (s : Section) (name : String) : Except Fail Bool := do
  let res1 ← expectEntry asString s (name ++ "type")
    "the key <name>type in section runtime:value should be present"
  match res1 with
  | [runtype] =>
    let runtype ← unwrapOption runtype
    if runtype ∉ ["file", "url", "id"] then .ok false
    else
      let res2 ← expectEntry asString s (name ++ "path")
        "the key <name>path in section runtime:value should be present"
      let res3 ← expectEntry asString s (name ++ "relative")
        "the key <name>relative in section runtime:value should be present"
      return res2.length == 1 && res3.length == 1
  | _ => .ok false

def checkRuntime (s : Section) : Except Fail Bool := do
  let deps ← expectEntry asString s "deps"
    "the key deps in section runtime:value should be present"
  checkAll (checkDep s) (deps.filterMap id)

/-- The third test looks for `persistentpar` and then up `persistent`. -/
def checkContext (s : Section) (keys : List String) : Except Fail Bool := do
  let parent ← expectEntry asString s "parent"
    "the key parent in section context:value should be present"
  if parent.length ≠ 1 then .ok false
  else
    let once (key lookup msg : String) : Except Fail Bool :=
      if key ∈ keys then do
        let res ← expectEntry asU8 s lookup msg
        return res.length == 1
      else .ok true
    let ok ← once "lazypar" "lazypar" "the key lazypar in section context:value should be present"
    if ok then
      once "persistentpar" "persistent"
        "the key persistentpar in section context:value should be present"
    else .ok false

def checkRoutine (s : Section) (keys : List String) : Except Fail Bool :=
  if keys.length ≠ 1 then .ok false
  else do
    let res ← expectEntry asString s "proc"
      "the key proc in section routine:value should be present"
    return res.length == 1

def checkAttribute (s : Section) (keys : List String) : Except Fail Bool :=
  checkAll (fun key =>
    if key = "lazy" ∨ key = "persistent" then do
      let res ← expectEntry asString s key
        "the key in section attribute:value should be present"
      return res.length == 1
    else .ok false) keys

/-- `check`; the section is returned with what has been added to it. -/
def check (s : Section) (keys : List String) : Except Fail (Bool × Section) :=
  match s.name with
  | "meta" => checkMeta s keys
  | "buffers" => (checkBuffers s keys).map fun flag => (flag, s)
  | "runtime" => (checkRuntime s).map fun flag => (flag, s)
  | "context" => (checkContext s keys).map fun flag => (flag, s)
  | "routine" => (checkRoutine s keys).map fun flag => (flag, s)
  | "attribute" => (checkAttribute s keys).map fun flag => (flag, s)
  | _ => .ok (false, s)

/-! ## The parsers -/

def parseSectionName (input : Str) : Except Fail (Str × String) := do
  let (input, _) ← space0 input
  let (input, _) ← tag (lit "[") input
  let (input, sectionName) ← isNot (lit "]\n") input
  let (input, _) ← tag (lit "]") input
  let sectionNameStr ← unwrapResult (fromUtf8 sectionName)
  return (input, sectionNameStr)

def parseProperty (input : Str) : Except Fail (Str × (String × String)) := do
  let (input, _) ← space0 input
  if input.head? = some 0x5b then .error .error
  else
    let (input, key) ← takeUntil (lit "=") input
    let (input, _) ← tag (lit "=") input
    let (input, value) ← isNot (lit ";") input
    let (input, _) ← tag (lit ";") input
    let keyStr ← unwrapResult (fromUtf8 key)
    let valueStr ← unwrapResult (fromUtf8 value)
    return (input, trim keyStr, trim valueStr)

/-- What `parse_section` makes of a name and properties. -/
def sectionOf (name : String) (properties : List (String × String)) : Except Fail Section := do
  let (s, keys) ← typeProperties (.new name, []) properties
  let (flag, s) ← check s keys
  if flag then .ok s else .error .error

def parseSection (input : Str) : Except Fail (Str × Section) := do
  let (input, sectionName) ← parseSectionName input
  let (input, properties) ← many0 parseProperty input
  let s ← sectionOf sectionName properties
  return (input, s)

/-- The text without its whitespace. -/
def stripped (text : String) : List Char :=
  (trimChars text.toList).filter fun c => !isWhitespace c

/-- `EdcParser::parse`. A file that is not UTF-8 cannot be read; what is left after the last section
is dropped. -/
def parse (file : Str) : Except Fail (List Section) :=
  match fromUtf8 file with
  | none => .error .error
  | some fileContent =>
    match many0 parseSection (utf8 (stripped fileContent)) with
    | .ok result => .ok result.2
    | .error (.panics msg) => .error (.panics msg)
    | .error _ => .error .error

end Jxtd.Engug.Edc
