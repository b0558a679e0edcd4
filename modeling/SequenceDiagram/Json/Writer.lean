import SequenceDiagram.Json.Value
import SequenceDiagram.Number.Decimal
import SequenceDiagram.Number.Scalar

set_option autoImplicit false

namespace SequenceDiagram.Json

def hexDigit (n : Nat) : Char :=
  (Nat.toDigits 16 n).headD '0'

def escapeChar (c : Char) : List Char :=
  if c = '"' then ['\\', '"']
  else if c = '\\' then ['\\', '\\']
  else if c = '\x08' then ['\\', 'b']
  else if c = '\x0c' then ['\\', 'f']
  else if c = '\n' then ['\\', 'n']
  else if c = '\r' then ['\\', 'r']
  else if c = '\t' then ['\\', 't']
  else if c.toNat < 0x20 then
    ['\\', 'u', '0', '0', hexDigit (c.toNat / 16), hexDigit (c.toNat % 16)]
  else [c]

def quote (text : String) : String :=
  String.ofList ('"' :: (text.toList.flatMap escapeChar ++ ['"']))

/-- A decimal with `.0` or a fraction when its order lies between `-4` and `16`, else with one
digit before the point and a signed exponent. -/
def writeDecimal (d : Decimal) : List Char :=
  let digits := Text.writeNat d.digits
  let order : Int := digits.length + d.exponent
  if -4 ≤ order ∧ order ≤ 16 then
    if 0 ≤ d.exponent then d.write ++ ['.', '0'] else d.write
  else
    let fraction := digits.drop 1
    let power := order - 1
    digits.take 1 ++ (if fraction = [] then [] else '.' :: fraction) ++ 'e' ::
      (if power < 0 then '-' else '+') :: Text.writeNat power.natAbs

def writeFloat (x : Float) : String :=
  let bits := x.toBits
  if !x.isFinite then "null"
  else
    let sign := if bits.toNat < signBit then [] else ['-']
    match Magnitude.ofBits? bits with
    | some m => String.ofList (sign ++ writeDecimal (Decimal.shortest .toEven m))
    | none => String.ofList (sign ++ ['0', '.', '0'])

mutual

def compact : Json → String
  | .null => "null"
  | .bool value => if value then "true" else "false"
  | .int value => toString value
  | .float value => writeFloat value
  | .str value => quote value
  | .arr items => "[" ++ compactItems items ++ "]"
  | .obj fields => "\x7b" ++ compactFields fields ++ "\x7d"

def compactItems : List Json → String
  | [] => ""
  | [item] => compact item
  | item :: items => compact item ++ "," ++ compactItems items

def compactFields : List (String × Json) → String
  | [] => ""
  | [(key, value)] => quote key ++ ":" ++ compact value
  | (key, value) :: fields => quote key ++ ":" ++ compact value ++ "," ++ compactFields fields

end

def newLine (depth : Nat) : String :=
  "\n" ++ String.ofList (List.replicate (2 * depth) ' ')

mutual

/-- Indented text of a value that stands `depth` levels deep. Empty containers stay closed. -/
def prettyAt (depth : Nat) : Json → String
  | .null => "null"
  | .bool value => if value then "true" else "false"
  | .int value => toString value
  | .float value => writeFloat value
  | .str value => quote value
  | .arr [] => "[]"
  | .arr (item :: items) =>
    "[" ++ newLine (depth + 1) ++ prettyAt (depth + 1) item ++ prettyItems (depth + 1) items ++
      newLine depth ++ "]"
  | .obj [] => "\x7b\x7d"
  | .obj ((key, value) :: fields) =>
    "\x7b" ++ newLine (depth + 1) ++ quote key ++ ": " ++ prettyAt (depth + 1) value ++
      prettyFields (depth + 1) fields ++ newLine depth ++ "\x7d"

def prettyItems (depth : Nat) : List Json → String
  | [] => ""
  | item :: items => "," ++ newLine depth ++ prettyAt depth item ++ prettyItems depth items

def prettyFields (depth : Nat) : List (String × Json) → String
  | [] => ""
  | (key, value) :: fields =>
    "," ++ newLine depth ++ quote key ++ ": " ++ prettyAt depth value ++ prettyFields depth fields

end

def pretty (value : Json) : String :=
  prettyAt 0 value

end SequenceDiagram.Json
