import SequenceDiagram.Json.Value
import SequenceDiagram.Text.Integer

set_option autoImplicit false

/-!
# Reading JSON

The grammar is strict: only space, tab, line feed and carriage return stand between tokens, no
number has a leading zero or a bare point, and surrogate escapes come in pairs. A number with a
fraction or an exponent, or one beyond a 64-bit word, is read as a double by scaling its first
significant digits with a power of ten.
-/
namespace SequenceDiagram.Json

inductive SyntaxError
  | eofValue
  | eofString
  | eofList
  | eofObject
  | expectedValue
  | expectedColon
  | expectedListCommaOrEnd
  | expectedObjectCommaOrEnd
  | keyMustBeString
  | trailingComma
  | trailingCharacters
  | invalidEscape
  | loneSurrogate
  | unfinishedSurrogate
  | controlCharacter
  | invalidNumber
  | numberOutOfRange
  | expectedIdentifier
  | recursionLimit
  | unknownField (name : String) (expected : List String)
  | duplicateField (name : String)
  | invalidType (found expected : String)
deriving DecidableEq, Repr

namespace SyntaxError

def oneOf (names : List String) : String :=
  String.intercalate ", " (names.map fun name => "`" ++ name ++ "`")

def message : SyntaxError → String
  | .eofValue => "EOF while parsing a value"
  | .eofString => "EOF while parsing a string"
  | .eofList => "EOF while parsing a list"
  | .eofObject => "EOF while parsing an object"
  | .expectedValue => "expected value"
  | .expectedColon => "expected `:`"
  | .expectedListCommaOrEnd => "expected `,` or `]`"
  | .expectedObjectCommaOrEnd => "expected `,` or `\x7d`"
  | .keyMustBeString => "key must be a string"
  | .trailingComma => "trailing comma"
  | .trailingCharacters => "trailing characters"
  | .invalidEscape => "invalid escape"
  | .loneSurrogate => "lone leading surrogate in hex escape"
  | .unfinishedSurrogate => "unexpected end of hex escape"
  | .controlCharacter => "control character (\\u0000-\\u001F) found while parsing a string"
  | .invalidNumber => "invalid number"
  | .numberOutOfRange => "number out of range"
  | .expectedIdentifier => "expected ident"
  | .recursionLimit => "recursion limit exceeded"
  | .unknownField name expected =>
    "unknown field `" ++ name ++ "`, expected one of " ++ oneOf expected
  | .duplicateField name => "duplicate field `" ++ name ++ "`"
  | .invalidType found expected => "invalid type: " ++ found ++ ", expected " ++ expected

end SyntaxError

/-- An error and how many bytes of the text were still unread when it was found. -/
structure ReadError where
  cause : SyntaxError
  unread : Nat
deriving DecidableEq, Repr

abbrev Read (α : Type) := α × List Char

def byteSize : List Char → Nat
  | [] => 0
  | c :: text => c.utf8Size + byteSize text

/-- An error found after `size` more bytes of the text, or at its end when it has fewer. The
bytes may end inside a character. -/
def failAfter {α : Type} (size : Nat) (cause : SyntaxError) (rest : List Char) :
    Except ReadError α :=
  .error ⟨cause, byteSize rest - size⟩

def failAt {α : Type} (cause : SyntaxError) (rest : List Char) : Except ReadError α :=
  failAfter 0 cause rest

/-- An error at the next byte, or at the end when there is none. -/
def failOn {α : Type} (cause : SyntaxError) (rest : List Char) : Except ReadError α :=
  failAfter 1 cause rest

/-- The line that a reader stands in after `size` bytes, counted from one, and how many bytes of
it were read, when it has read `column` bytes of `line` before them. -/
def advance (line column size : Nat) : List Char → Nat × Nat
  | [] => (line, column)
  | c :: text =>
    if size = 0 then (line, column)
    else if c = '\n' then advance (line + 1) 0 (size - 1) text
    else advance line (column + min size c.utf8Size) (size - c.utf8Size) text

/-- The line of an error, counted from one, and how many bytes of that line were read. -/
def ReadError.position (e : ReadError) (text : List Char) : Nat × Nat :=
  advance 1 0 (byteSize text - e.unread) text

def ReadError.message (e : ReadError) (text : List Char) : String :=
  let (line, column) := e.position text
  e.cause.message ++ " at line " ++ toString line ++ " column " ++ toString column

def isSpace (c : Char) : Bool :=
  c = ' ' || c = '\n' || c = '\t' || c = '\r'

def skipSpace (text : List Char) : List Char :=
  text.dropWhile isSpace

def fits64 (n : Nat) : Bool := n < UInt64.size

/-- Adds digits to a significand while it fits a 64-bit word; gives the significand and the
digits left over. -/
def takeDigits (significand : Nat) : List Char → Nat × List Char
  | [] => (significand, [])
  | c :: digits =>
    let next := significand * 10 + (c.toNat - '0'.toNat)
    if fits64 next then takeDigits next digits else (significand, c :: digits)

/-- The digits after the one with which a whole number outgrows a 32-bit word. -/
def afterOverflow32 (read : Nat) : List Char → List Char
  | [] => []
  | c :: digits =>
    let next := read * 10 + (c.toNat - '0'.toNat)
    if next ≤ Int32.maxValue.toInt then afterOverflow32 next digits else digits

def powerOfTen (n : Nat) : Float :=
  Float.ofScientific 1 false n

/-- `significand · 10 ^ exponent` by one rounded product or quotient with a power of ten up to
`1e308`, after quotients by `1e308` for still smaller exponents. -/
def scale? (significand : Float) (exponent : Int) : Option Float :=
  if exponent < -308 then
    if significand == 0 then some significand
    else scale? (significand / powerOfTen 308) (exponent + 308)
  else if exponent < 0 then some (significand / powerOfTen exponent.natAbs)
  else if exponent ≤ 308 then
    let value := significand * powerOfTen exponent.natAbs
    if value.isFinite then some value else none
  else if significand == 0 then some significand
  else none
termination_by exponent.natAbs
decreasing_by omega

structure NumberText where
  negative : Bool
  whole : List Char
  fraction : Option (List Char)
  exponent : Option (Bool × List Char)

namespace NumberText

def signed (number : NumberText) (x : Float) : Float :=
  if number.negative then -x else x

def scaled? (number : NumberText) (significand : Nat) (exponent : Int) : Option Float :=
  (scale? significand.toUInt64.toFloat exponent).map number.signed

/-- The double of a number; `none` when it overflows. -/
def toFloat? (number : NumberText) : Option Float :=
  let (wholePart, dropped) := takeDigits 0 number.whole
  let fraction := number.fraction.getD []
  let (significand, ignored) := takeDigits wholePart fraction
  let start : Int := (dropped.length : Int) - (fraction.length - ignored.length : Nat)
  match number.exponent with
  | none => number.scaled? significand start
  | some (negative, digits) =>
    let size := Nat.ofDigitChars 10 digits 0
    if size ≤ Int32.maxValue.toInt then
      number.scaled? significand (if negative then start - size else start + size)
    else if significand = 0 || negative then some (number.signed 0)
    else none

/-- The digits that need not be read to see that the number is out of range. -/
def undecisive (number : NumberText) : List Char :=
  match number.exponent with
  | some (_, digits) => afterOverflow32 0 digits
  | none => []

/-- Whole numbers of a 64-bit word stay whole, except for a negative zero. -/
def value? (number : NumberText) : Option Json :=
  let (whole, dropped) := takeDigits 0 number.whole
  if number.fraction.isNone && number.exponent.isNone && dropped.isEmpty &&
      (!number.negative || (0 < whole && -(whole : Int) ≥ Int64.minValue.toInt)) then
    some (.int (if number.negative then -(whole : Int) else whole))
  else number.toFloat?.map .float

end NumberText

def readFraction (text : List Char) : Except ReadError (Read (Option (List Char))) :=
  match text with
  | '.' :: rest =>
    match rest.takeWhile Char.isDigit, rest.dropWhile Char.isDigit with
    | [], [] => failAt .eofValue []
    | [], after => failOn .invalidNumber after
    | digits, after => .ok (some digits, after)
  | rest => .ok (none, rest)

def readExponentDigits (negative : Bool) (text : List Char) :
    Except ReadError (Read (Option (Bool × List Char))) :=
  match text.takeWhile Char.isDigit, text.dropWhile Char.isDigit with
  | [], [] => failAt .eofValue []
  | [], after => failOn .invalidNumber after
  | digits, after => .ok (some (negative, digits), after)

def readExponent (text : List Char) : Except ReadError (Read (Option (Bool × List Char))) :=
  match text with
  | c :: rest =>
    if c = 'e' || c = 'E' then
      match rest with
      | '-' :: digits => readExponentDigits true digits
      | '+' :: digits => readExponentDigits false digits
      | digits => readExponentDigits false digits
    else .ok (none, text)
  | [] => .ok (none, [])

def readWhole (text : List Char) : Except ReadError (Read (List Char)) :=
  match text with
  | [] => failAt .eofValue []
  | '0' :: rest =>
    match rest with
    | c :: _ => if c.isDigit then failOn .invalidNumber rest else .ok (['0'], rest)
    | [] => .ok (['0'], [])
  | c :: rest =>
    if c.isDigit then .ok (c :: rest.takeWhile Char.isDigit, rest.dropWhile Char.isDigit)
    else failOn .invalidNumber (c :: rest)

def readNumber (text : List Char) : Except ReadError (Read Json) := do
  let (negative, unsigned) := match text with
    | '-' :: rest => (true, rest)
    | rest => (false, rest)
  let (whole, afterWhole) ← readWhole unsigned
  let (fraction, afterFraction) ← readFraction afterWhole
  let (exponent, rest) ← readExponent afterFraction
  let number : NumberText := { negative, whole, fraction, exponent }
  match number.value? with
  | some value => .ok (value, rest)
  | none => failAt .numberOutOfRange (number.undecisive ++ rest)

def hexValue? (c : Char) : Option Nat :=
  if c.isDigit then some (c.toNat - '0'.toNat)
  else if 'a' ≤ c && c ≤ 'f' then some (c.toNat - 'a'.toNat + 10)
  else if 'A' ≤ c && c ≤ 'F' then some (c.toNat - 'A'.toNat + 10)
  else none

def hexUnit? (a b c d : Char) : Option Nat := do
  let w ← hexValue? a
  let x ← hexValue? b
  let y ← hexValue? c
  let z ← hexValue? d
  some (((w * 16 + x) * 16 + y) * 16 + z)

def simpleEscape? (c : Char) : Option Char :=
  if c = '"' then some '"'
  else if c = '\\' then some '\\'
  else if c = '/' then some '/'
  else if c = 'b' then some '\x08'
  else if c = 'f' then some '\x0c'
  else if c = 'n' then some '\n'
  else if c = 'r' then some '\r'
  else if c = 't' then some '\t'
  else none

def isHighSurrogate (unit : Nat) : Bool := 0xD800 ≤ unit && unit ≤ 0xDBFF

def isLowSurrogate (unit : Nat) : Bool := 0xDC00 ≤ unit && unit ≤ 0xDFFF

/-- Reads the four digits of a `\u` escape: four bytes, whatever they hold. -/
def readUnit (text : List Char) : Except ReadError (Read Nat) :=
  match text with
  | a :: b :: c :: d :: rest =>
    match hexUnit? a b c d with
    | some unit => .ok (unit, rest)
    | none => failAfter 4 .invalidEscape text
  | _ => if byteSize text < 4 then failAt .eofString [] else failAfter 4 .invalidEscape text

/-- Reads the `\u` between the two halves of a surrogate pair. -/
def readPairMark (text : List Char) : Except ReadError (List Char) :=
  match text with
  | '\\' :: 'u' :: rest => .ok rest
  | '\\' :: rest => if rest = [] then failAt .eofString [] else failOn .unfinishedSurrogate rest
  | rest => if rest = [] then failAt .eofString [] else failOn .unfinishedSurrogate rest

def readLowSurrogate (high : Nat) (text : List Char) : Except ReadError (Read Char) := do
  let digits ← readPairMark text
  let (low, rest) ← readUnit digits
  if isLowSurrogate low then
    .ok (Char.ofNat ((high - 0xD800) * 0x400 + (low - 0xDC00) + 0x10000), rest)
  else failAt .loneSurrogate rest

def readEscape (text : List Char) : Except ReadError (Read Char) :=
  match text with
  | [] => failAt .eofString []
  | 'u' :: digits => do
    let (unit, rest) ← readUnit digits
    if isHighSurrogate unit then readLowSurrogate unit rest
    else if isLowSurrogate unit then failAt .loneSurrogate rest
    else .ok (Char.ofNat unit, rest)
  | c :: rest =>
    match simpleEscape? c with
    | some e => .ok (e, rest)
    | none => failOn .invalidEscape text

theorem length_le_of_readUnit {text rest : List Char} {unit : Nat}
    (h : readUnit text = .ok (unit, rest)) : rest.length ≤ text.length := by
  unfold readUnit at h
  split at h
  · split at h
    · cases h
      simp only [List.length_cons]
      omega
    · contradiction
  · split at h <;> contradiction

theorem length_le_of_readPairMark {text rest : List Char}
    (h : readPairMark text = .ok rest) : rest.length ≤ text.length := by
  unfold readPairMark at h
  split at h
  · cases h
    simp only [List.length_cons]
    omega
  all_goals split at h <;> contradiction

theorem length_le_of_readLowSurrogate {high : Nat} {text rest : List Char} {c : Char}
    (h : readLowSurrogate high text = .ok (c, rest)) : rest.length ≤ text.length := by
  unfold readLowSurrogate at h
  cases mark : readPairMark text with
  | error e => simp [mark, bind, Except.bind] at h
  | ok digits =>
    cases digit : readUnit digits with
    | error e => simp [mark, digit, bind, Except.bind] at h
    | ok unit =>
      obtain ⟨low, after⟩ := unit
      simp only [mark, digit, bind, Except.bind] at h
      have short := length_le_of_readPairMark mark
      have shorter := length_le_of_readUnit digit
      split at h
      · simp only [Except.ok.injEq, Prod.mk.injEq] at h
        obtain ⟨_, rfl⟩ := h
        omega
      · contradiction

theorem length_le_of_readEscape {text rest : List Char} {c : Char}
    (h : readEscape text = .ok (c, rest)) : rest.length ≤ text.length := by
  unfold readEscape at h
  split at h
  · contradiction
  · rename_i digits
    cases digit : readUnit digits with
    | error e => simp [digit, bind, Except.bind] at h
    | ok unit =>
      obtain ⟨value, after⟩ := unit
      simp only [digit, bind, Except.bind] at h
      have short := length_le_of_readUnit digit
      simp only [List.length_cons]
      split at h
      · have shorter := length_le_of_readLowSurrogate h
        omega
      · split at h
        · contradiction
        · cases h
          omega
  · split at h
    · cases h
      simp only [List.length_cons]
      omega
    · contradiction

def pushChar (c : Char) (reading : Except ReadError (Read (List Char))) :
    Except ReadError (Read (List Char)) :=
  reading.map fun result => (c :: result.1, result.2)

/-- Reads the characters of a string after its opening quote, up to and with the closing one. -/
def readChars : List Char → Except ReadError (Read (List Char))
  | [] => failAt .eofString []
  | c :: text =>
    if c = '"' then .ok ([], text)
    else if c = '\\' then
      match _h : readEscape text with
      | .ok (e, rest) => pushChar e (readChars rest)
      | .error e => .error e
    else if c.toNat < 0x20 then failAt .controlCharacter text
    else pushChar c (readChars text)
termination_by text => text.length
decreasing_by
  · have short := length_le_of_readEscape _h
    simp only [List.length_cons]
    omega
  · simp

def readString (text : List Char) : Except ReadError (Read String) :=
  (readChars text).map fun result => (String.ofList result.1, result.2)

def readLetters : List Char → List Char → Except ReadError (List Char)
  | [], text => .ok text
  | _ :: _, [] => failAt .eofValue []
  | letter :: word, c :: text =>
    if c = letter then readLetters word text else failOn .expectedIdentifier (c :: text)

def readLiteral (word : List Char) (value : Json) (text : List Char) :
    Except ReadError (Read Json) :=
  (readLetters word text).map fun rest => (value, rest)

mutual

/-- Reads a value after leading space. Every level of nesting takes one unit of `fuel`. -/
def readValue (fuel : Nat) (text : List Char) : Except ReadError (Read Json) :=
  match fuel with
  | 0 => failAt .recursionLimit text
  | fuel + 1 =>
    match skipSpace text with
    | [] => failAt .eofValue []
    | '[' :: rest =>
      match skipSpace rest with
      | ']' :: rest => .ok (.arr [], rest)
      | rest => (readItems fuel rest).map fun result => (.arr result.1, result.2)
    | '\x7b' :: rest =>
      match skipSpace rest with
      | '\x7d' :: rest => .ok (.obj [], rest)
      | rest => (readFields fuel rest).map fun result => (.obj result.1, result.2)
    | '"' :: rest => (readString rest).map fun result => (.str result.1, result.2)
    | c :: rest =>
      if c = '-' || c.isDigit then readNumber (c :: rest)
      else if c = 'n' then readLiteral "null".toList .null (c :: rest)
      else if c = 't' then readLiteral "true".toList (.bool true) (c :: rest)
      else if c = 'f' then readLiteral "false".toList (.bool false) (c :: rest)
      else failOn .expectedValue (c :: rest)

/-- Reads the items of a list that is known not to be empty, with its closing bracket. -/
def readItems (fuel : Nat) (text : List Char) : Except ReadError (Read (List Json)) :=
  match fuel with
  | 0 => failAt .recursionLimit text
  | fuel + 1 => do
    let (item, rest) ← readValue fuel text
    match skipSpace rest with
    | ']' :: rest => .ok ([item], rest)
    | ',' :: rest =>
      match skipSpace rest with
      | ']' :: _ => failOn .trailingComma (skipSpace rest)
      | rest =>
        let (items, rest) ← readItems fuel rest
        .ok (item :: items, rest)
    | [] => failAt .eofList []
    | rest => failOn .expectedListCommaOrEnd rest

/-- Reads the fields of an object that is known not to be empty, with its closing brace. -/
def readFields (fuel : Nat) (text : List Char) : Except ReadError (Read (List (String × Json))) :=
  match fuel with
  | 0 => failAt .recursionLimit text
  | fuel + 1 => do
    match skipSpace text with
    | '"' :: rest =>
      let (key, rest) ← readString rest
      match skipSpace rest with
      | ':' :: rest =>
        let (value, rest) ← readValue fuel rest
        match skipSpace rest with
        | '\x7d' :: rest => .ok ([(key, value)], rest)
        | ',' :: rest =>
          match skipSpace rest with
          | '\x7d' :: _ => failOn .trailingComma (skipSpace rest)
          | rest =>
            let (fields, rest) ← readFields fuel rest
            .ok ((key, value) :: fields, rest)
        | [] => failAt .eofObject []
        | rest => failOn .expectedObjectCommaOrEnd rest
      | [] => failAt .eofObject []
      | rest => failOn .expectedColon rest
    | [] => failAt .eofObject []
    | rest => failOn .keyMustBeString rest

end

/-- Reads a text that holds one value and nothing else. -/
def read (text : String) : Except ReadError Json := do
  let chars := text.toList
  let (value, rest) ← readValue (chars.length + 1) chars
  match skipSpace rest with
  | [] => .ok value
  | rest => failOn .trailingCharacters rest

end SequenceDiagram.Json
