import SequenceDiagram.Json.Reader
import SequenceDiagram.Json.Writer
import SequenceDiagram.Layout.Config
import SequenceDiagram.Text.Quoted

set_option autoImplicit false

/-!
# Configurations written as JSON

An object names the sizes that it changes; an array lists sizes in declared order. Sizes that
are not given keep their defaults. The text is read field by field, so that an unknown or
repeated name is reported before whatever is wrong after it, and a fault of the text before a
fault of the sizes.
-/
namespace SequenceDiagram.Layout

inductive ConfigError
  | json (error : Json.ReadError)
  | invalid (fault : ConfigFault)
deriving DecidableEq, Repr

namespace ConfigText
open Json

def names : List String :=
  (Config.default : Config Float).fields.map Prod.fst

def expectedSize : String := "f64"

def expectedConfig : String := "struct LayoutConfig"

/-- What a message calls a value that stands where another kind of value was expected. -/
def describe : Json → String
  | .null => "null"
  | .bool value => "boolean `" ++ toString value ++ "`"
  | .int value => "integer `" ++ toString value ++ "`"
  | .float value => "floating point `" ++ writeFloat value ++ "`"
  | .str value => "string " ++ Text.quote value
  | .arr _ => "sequence"
  | .obj _ => "map"

/-- Refuses a value that was read whole. -/
def refuseValue {α : Type} (expected : String) (reading : Except ReadError (Read Json)) :
    Except ReadError (Read α) := do
  let (value, rest) ← reading
  failAt (.invalidType (describe value) expected) rest

/-- Refuses a value of another kind than expected. A list or an object is refused before its
content is read. -/
def refuse {α : Type} (expected : String) (text : List Char) : Except ReadError (Read α) :=
  match text with
  | [] => failAt .eofValue []
  | '"' :: rest =>
    refuseValue expected ((readString rest).map fun result => (.str result.1, result.2))
  | '[' :: _ => failAt (.invalidType (describe (.arr [])) expected) text
  | '\x7b' :: _ => failAt (.invalidType (describe (.obj [])) expected) text
  | c :: _ =>
    if c = '-' || c.isDigit then refuseValue expected (readNumber text)
    else if c = 'n' then refuseValue expected (readLiteral "null".toList .null text)
    else if c = 't' then refuseValue expected (readLiteral "true".toList (.bool true) text)
    else if c = 'f' then refuseValue expected (readLiteral "false".toList (.bool false) text)
    else failOn .expectedValue text

def readSize (text : List Char) : Except ReadError (Read Float) := do
  let text := skipSpace text
  if text.head?.any fun c => c = '-' || c.isDigit then
    let (number, rest) ← readNumber text
    match number.toFloat? with
    | some size => .ok (size, rest)
    | none => failAt .invalidNumber rest
  else refuse expectedSize text

/-- A complaint about a name counts the space and the closing brace right after it as read. -/
def refuseName {α : Type} (cause : SyntaxError) (rest : List Char) : Except ReadError α :=
  match skipSpace rest with
  | '\x7d' :: rest => failAt cause rest
  | rest => failAt cause rest

/-- Reads `"name": size` for a name that was not given before. -/
def readField (given : List (String × Float)) (text : List Char) :
    Except ReadError (Read (String × Float)) := do
  match text with
  | '"' :: rest =>
    let (name, rest) ← readString rest
    if !names.contains name then refuseName (.unknownField name names) rest
    else if (given.lookup name).isSome then refuseName (.duplicateField name) rest
    else match skipSpace rest with
      | ':' :: rest =>
        let (size, rest) ← readSize rest
        .ok ((name, size), rest)
      | [] => failAt .eofObject []
      | rest => failOn .expectedColon rest
  | [] => failAt .eofValue []
  | '\x7d' :: _ => failOn .trailingComma text
  | rest => failOn .keyMustBeString rest

/-- Reads the fields of an object up to its closing brace. Every field takes one unit of
`fuel`. -/
def readFields (fuel : Nat) (given : List (String × Float)) (text : List Char) :
    Except ReadError (Read (List (String × Float))) :=
  match fuel with
  | 0 => failAt .recursionLimit text
  | fuel + 1 => do
    let (field, rest) ← readField given text
    match skipSpace rest with
    | '\x7d' :: rest => .ok (field :: given, rest)
    | ',' :: rest => readFields fuel (field :: given) (skipSpace rest)
    | [] => failAt .eofObject []
    | rest => failOn .expectedObjectCommaOrEnd rest

def readObject (text : List Char) : Except ReadError (Read (List (String × Float))) :=
  match skipSpace text with
  | '\x7d' :: rest => .ok ([], rest)
  | [] => failAt .eofObject []
  | rest => readFields rest.length [] rest

/-- Reads the end of an array all of whose sizes have been read. -/
def readArrayEnd (given : List (String × Float)) (text : List Char) :
    Except ReadError (Read (List (String × Float))) :=
  match skipSpace text with
  | ']' :: rest => .ok (given, rest)
  | [] => failAt .eofList []
  | ',' :: rest =>
    match skipSpace rest with
    | ']' :: _ => failOn .trailingComma (skipSpace rest)
    | rest => failOn .trailingCharacters rest
  | rest => failOn .trailingCharacters rest

/-- Reads sizes for the names that remain, after at least one size. -/
def readSizes (given : List (String × Float)) (text : List Char) :
    List String → Except ReadError (Read (List (String × Float)))
  | [] => readArrayEnd given text
  | name :: names =>
    match skipSpace text with
    | ']' :: rest => .ok (given, rest)
    | [] => failAt .eofList []
    | ',' :: rest =>
      match skipSpace rest with
      | ']' :: _ => failOn .trailingComma (skipSpace rest)
      | [] => failAt .eofValue []
      | rest => do
        let (size, rest) ← readSize rest
        readSizes ((name, size) :: given) rest names
    | rest => failOn .expectedListCommaOrEnd rest

def readArray (text : List Char) : Except ReadError (Read (List (String × Float))) :=
  match skipSpace text, names with
  | ']' :: rest, _ => .ok ([], rest)
  | [], _ => failAt .eofList []
  | rest, name :: names => do
    let (size, rest) ← readSize rest
    readSizes [(name, size)] rest names
  | rest, [] => failOn .trailingCharacters rest

def readGiven (text : List Char) : Except ReadError (List (String × Float)) := do
  let (given, rest) ← match skipSpace text with
    | '\x7b' :: rest => readObject rest
    | '[' :: rest => readArray rest
    | rest => refuse expectedConfig rest
  match skipSpace rest with
  | [] => .ok given
  | rest => failOn .trailingCharacters rest

end ConfigText

namespace Config

def withSizes {α : Type} (config : Config α) (given : List (String × α)) : Config α :=
  config.mapNamed fun name size => (given.lookup name).getD size

def readJson (text : String) : Except ConfigError (Config Float) :=
  match ConfigText.readGiven text.toList with
  | .error error => .error (.json error)
  | .ok given =>
    let config := (default : Config Float).withSizes given
    match config.validate with
    | .error fault => .error (.invalid fault)
    | .ok () => .ok config

end Config

end SequenceDiagram.Layout
