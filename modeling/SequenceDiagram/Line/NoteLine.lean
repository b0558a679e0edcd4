import SequenceDiagram.Diagram.Element
import SequenceDiagram.Line.Alias
import SequenceDiagram.Line.StyleText

set_option autoImplicit false

/-!
# Note and divider lines

`<kind> <position> <alias>{,<alias>} [box style][:text]`. A note without a colon is the head of
a block: its text follows on lines of its own, up to `end` and the kind.

`==text== [box style]` is a divider.
-/
namespace SequenceDiagram

namespace NotePosition

def read? (text : List Char) : Option (NotePosition × List Char) := do
  let (word, rest) ← Text.nextWord? text
  if word = "over".toList then some (.over, rest)
  else
    let after ← Text.afterKeyword? "of".toList rest
    if word = "left".toList then some (.leftOf, after)
    else if word = "right".toList then some (.rightOf, after)
    else none

end NotePosition

namespace Note

def cutText (text : List Char) : List Char × Option (List Char) :=
  match Text.cut? ':' text with
  | some (head, tail) => (head, some (Text.trim tail))
  | none => (text, none)

def readTargets? (text : List Char) : Option (List String) :=
  (Text.split ',' text).mapM fun part => Alias.read? (Text.trim part)

def read? (line : List Char) : Option Note := do
  let (word, rest) ← Text.nextWord? line
  let kind ← NoteKind.ofKeyword? (String.ofList word)
  let (position, rest) ← NotePosition.read? rest
  let (head, text) := cutText rest
  let (targets, words) := StyleRun.splitTrailing head
  let style ← Style.readOptional? words
  let participants ← readTargets? targets
  some {
    kind
    position
    participants
    style
    text := String.ofList (text.getD [])
    block := text.isNone }

def writeHead (note : Note) : List Char :=
  Text.spaced [note.kind.keyword.toList, note.position.keyword.toList,
    Text.join [','] (note.participants.map String.toList), Style.writeOptional note.style] ++
  if note.block then [] else ':' :: note.text.toList

end Note

def NoteKind.terminator (kind : NoteKind) : List Char :=
  "end ".toList ++ kind.keyword.toList

namespace Divider

def bar : List Char := ['=', '=']

/-- Takes the bars off both ends. -/
def readText? (head : List Char) : Option (List Char) := do
  let rest ← Text.after? bar head
  let reversed ← Text.after? bar rest.reverse
  some reversed.reverse

def read? (line : List Char) : Option Divider := do
  let (head, words) := StyleRun.splitTrailing line
  let text ← readText? head
  let style ← Style.readOptional? words
  some { text := String.ofList text, style }

def write (divider : Divider) : List Char :=
  Text.spaced [bar ++ divider.text.toList ++ bar, Style.writeOptional divider.style]

end Divider

end SequenceDiagram
