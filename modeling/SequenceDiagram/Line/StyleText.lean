import SequenceDiagram.Diagram.Style
import SequenceDiagram.Line.StyleRun
import SequenceDiagram.Text.Integer

set_option autoImplicit false

/-!
# Style words

A box style is made of a name after `##`, a fill color and a border. A border is a color, a
width and a line style between semicolons, each of which may be left out. The style of a line
has no fill, so a bare color is its border. A style definition may be followed by a comma and
text markup.
-/
namespace SequenceDiagram

structure Border where
  color : Option String := none
  width : Option UInt32 := none
  style : Option BorderStyle := none
deriving DecidableEq, Repr

namespace Border

def readColor? : List Char → Option (Option String)
  | [] => some none
  | word => (Color.read? word).map some

def readWidth? : List Char → Option (Option UInt32)
  | [] => some none
  | digits => (Text.readUInt32? digits).map some

def readStyle? (word : List Char) : Option (Option BorderStyle) :=
  (BorderStyle.ofKeyword? (String.ofList word)).map some

def readParts? : List (List Char) → Option Border
  | [color] => do
    let color ← readColor? color
    some { color }
  | [color, width] => do
    let color ← readColor? color
    let width ← readWidth? width
    some { color, width }
  | [color, width, style] => do
    let color ← readColor? color
    let width ← readWidth? width
    let style ← readStyle? style
    some { color, width, style }
  | _ => none

/-- Reads a word with semicolons; one that sets nothing is refused. -/
def read? (word : List Char) : Option Border := do
  let border ← readParts? (Text.split ';' word)
  if border = {} then none else some border

/-- The width and the line style, each after its semicolons. -/
def writeTail (width : Option UInt32) (style : Option BorderStyle) : List Char :=
  (match width with
    | some width => ';' :: Text.writeUInt32 width
    | none => []) ++
  (match style with
    | some style => (if width.isNone then [';'] else []) ++ ';' :: style.keyword.toList
    | none => [])

end Border

namespace Style

def withBorder? (style : Style) (border : Border) : Option Style :=
  if style.hasBorder then none
  else some { style with
    border := border.color
    borderWidth := border.width
    borderStyle := border.style }

def withName? (style : Style) (name : List Char) : Option Style :=
  if style.styleName.isSome || !StyleName.isValid name then none
  else some { style with styleName := some (String.ofList name) }

/-- Adds a bare color: the fill, or the border color after a fill. -/
def withBoxColor? (style : Style) (color : String) : Option Style :=
  if style.fill.isNone then some { style with fill := some color }
  else if style.border.isNone then some { style with border := some color }
  else none

def addBoxWord? (style : Style) (word : List Char) : Option Style :=
  match Text.after? ['#', '#'] word with
  | some name => style.withName? name
  | none =>
    if word.contains ';' then (Border.read? word).bind style.withBorder?
    else (Color.read? word).bind style.withBoxColor?

def readBox? (words : List (List Char)) : Option Style :=
  words.foldlM addBoxWord? empty

def addLineWord? (style : Style) (word : List Char) : Option Style :=
  match Text.after? ['#', '#'] word with
  | some name => style.withName? name
  | none =>
    if word.contains ';' then (Border.read? word).bind style.withBorder?
    else (Color.read? word).bind fun color => style.withBorder? { color := some color }

def readLine? (words : List (List Char)) : Option Style :=
  words.foldlM addLineWord? empty

/-- Reads a box style that may set nothing; the outer option tells whether it is valid. -/
def readOptional? (words : List (List Char)) : Option (Option Style) :=
  (readBox? words).map nonEmpty?

/-- Reads `style[,markup]`. Empty markup counts as none, and an empty style is refused. -/
def readDefinition? (text : List Char) : Option Style :=
  match Text.cut? ',' text with
  | none => (readBox? (Text.words text)).bind nonEmpty?
  | some (shape, markup) => do
    let style ← readBox? (Text.words shape)
    match Text.trim markup with
    | [] => style.nonEmpty?
    | markup => some { style with textMarkup := some (String.ofList markup) }

def nameWord (style : Style) : List Char :=
  match style.styleName with
  | some name => '#' :: '#' :: name.toList
  | none => []

def colorWord (color : Option String) : List Char :=
  match color with
  | some color => color.toList
  | none => []

def borderWord (style : Style) : List Char :=
  colorWord style.border ++ Border.writeTail style.borderWidth style.borderStyle

/-- A lone border color gets a semicolon, which keeps it from being read as a fill. -/
def boxBorderWord (style : Style) : List Char :=
  if style.border.isSome && style.fill.isNone && style.borderWidth.isNone &&
      style.borderStyle.isNone
  then style.borderWord ++ [';'] else style.borderWord

def writeBox (style : Style) : List Char :=
  Text.spaced [style.nameWord, colorWord style.fill, style.boxBorderWord]

def writeLine (style : Style) : List Char :=
  Text.spaced [style.nameWord, style.borderWord]

def writeDefinition (style : Style) : List Char :=
  style.writeBox ++
    match style.textMarkup with
    | some markup => ',' :: markup.toList
    | none => []

def writeOptional : Option Style → List Char
  | some style => style.writeBox
  | none => []

end Style

end SequenceDiagram
