import SequenceDiagram.Diagram.Element
import SequenceDiagram.Line.Alias
import SequenceDiagram.Line.StyleText

set_option autoImplicit false

/-!
# Message lines

`<alias><arrow>[(delay)][*]<alias>[:label]`, where `[style]` after a first dash of its own may
stand inside the arrow. An alias may contain what looks like an arrow, so the places where an
arrow could stand are tried from left to right, the longest arrow first, until both ends are
aliases.
-/
namespace SequenceDiagram.Message

def createMarker : String := "<<create>>"

def hasCreateMarker (label : List Char) : Bool :=
  Text.contains createMarker.toList label

def arrowsLongestFirst : List Arrow :=
  [.dashedBidirectionalAsync, .bidirectionalAsync, .dashedAsync, .bidirectional, .dashedReversed,
   .dashed, .async, .dashedLost, .sync, .reversed, .lost]

/-- The part before the first colon and the trimmed label after it. -/
def cutLabel (line : List Char) : List Char × List Char :=
  match Text.cut? ':' line with
  | some (head, tail) => (head, Text.trim tail)
  | none => (line, [])

/-- The texts before and after the first occurrence of `part`. -/
def cutAtText? (part : List Char) : List Char → Option (List Char × List Char)
  | [] => none
  | c :: text =>
    match Text.after? part (c :: text) with
    | some rest => some ([], rest)
    | none => (cutAtText? part text).map fun parts => (c :: parts.1, parts.2)

/-- Takes `-[style]` out of a line; the bracket has to be closed. -/
def takeStyle? (head : List Char) : Option (List Char × Option (List Char)) :=
  match cutAtText? ['-', '['] head with
  | none => some (head, none)
  | some (before, inner) =>
    (Text.cut? ']' inner).map fun parts => (before ++ parts.2, some parts.1)

def readDelay? (text : List Char) : Option (Option UInt32 × List Char) :=
  match text with
  | '(' :: inner => do
    let (digits, rest) ← Text.cut? ')' inner
    let delay ← Text.readUInt32? (Text.trim digits)
    some (some delay, Text.trimStart rest)
  | text => some (none, text)

structure Ends where
  source : String
  arrow : Arrow
  delay : Option UInt32
  star : Bool
  target : String

def readEnds? (before : List Char) (arrow : Arrow) (after : List Char) : Option Ends := do
  let (delay, rest) ← readDelay? (Text.trimStart after)
  let (star, target) := match rest with
    | '*' :: target => (true, target)
    | target => (false, target)
  let source ← Alias.read? (Text.trim before)
  let target ← Alias.read? (Text.trim target)
  some { source, arrow, delay, star, target }

/-- Every place where an arrow stands, with the texts around it. -/
def arrowPlaces (text : List Char) : List (List Char × Arrow × List Char) :=
  (List.range text.length).flatMap fun i =>
    arrowsLongestFirst.filterMap fun arrow =>
      (Text.after? arrow.token.toList (text.drop i)).map fun rest => (text.take i, arrow, rest)

def readStyle? : Option (List Char) → Option (Option Style)
  | some spec => (Style.readLine? (Text.words spec)).map Style.nonEmpty?
  | none => some none

def read? (line : List Char) : Option Message := do
  let (head, label) := cutLabel line
  let (plain, spec) ← takeStyle? head
  let ends ← (arrowPlaces plain).findSome? fun place => readEnds? place.1 place.2.1 place.2.2
  let style ← readStyle? spec
  some {
    source := ends.source
    target := ends.target
    arrow := ends.arrow
    delay := ends.delay
    isCreate := ends.star || hasCreateMarker label
    style
    label := String.ofList label }

def writeStyle (style : Option Style) : List Char :=
  match style with
  | some style => style.writeLine
  | none => []

def writeArrow (arrow : Arrow) (style : List Char) : List Char :=
  if style = [] then arrow.token.toList
  else arrow.beforeStyle.toList ++ '[' :: (style ++ ']' :: arrow.afterStyle.toList)

def writeDelay : Option UInt32 → List Char
  | some delay => '(' :: (Text.writeUInt32 delay ++ [')'])
  | none => []

/-- A label that holds the marker already says that the target is created. -/
def writeStar (message : Message) : List Char :=
  if message.isCreate && !hasCreateMarker message.label.toList then ['*'] else []

def writeLabel (label : List Char) : List Char :=
  if label = [] then [] else ':' :: label

def write (message : Message) : List Char :=
  message.source.toList ++ writeArrow message.arrow (writeStyle message.style) ++
    writeDelay message.delay ++ message.writeStar ++ message.target.toList ++
    writeLabel message.label.toList

end SequenceDiagram.Message
