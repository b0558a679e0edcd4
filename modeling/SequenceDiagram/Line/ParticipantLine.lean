import SequenceDiagram.Diagram.Element
import SequenceDiagram.Line.Alias
import SequenceDiagram.Line.StyleText

set_option autoImplicit false

/-!
# Participant lines

`<type> [icon or image] <name> [as <alias>] [box style]`. A name that is no alias stands in
quotes; without `as` the name itself is the alias, and a quoted one may then be any text.
-/
namespace SequenceDiagram

namespace ParticipantType

def readIcon? (set : IconSet) (rest : List Char) : Option (ParticipantType × List Char) :=
  (Text.nextWord? rest).map fun parts => (icon set (String.ofList parts.1), parts.2)

def readImage? (rest : List Char) : Option (ParticipantType × List Char) :=
  (Text.nextWord? rest).map fun parts => (image (String.ofList parts.1), parts.2)

def read? (line : List Char) : Option (ParticipantType × List Char) := do
  let (word, rest) ← Text.nextWord? line
  let keyword := String.ofList word
  match ParticipantShape.ofKeyword? keyword, IconSet.ofKeyword? keyword with
  | some known, _ => some (shape known, rest)
  | none, some set => readIcon? set rest
  | none, none => if keyword = "image" then readImage? rest else none

def write : ParticipantType → List Char
  | shape known => known.keyword.toList
  | icon set code => set.keyword.toList ++ ' ' :: code.toList
  | image data => "image".toList ++ ' ' :: data.toList

end ParticipantType

namespace Participant

/-- A display name as it was found on a line. -/
structure NameText where
  name : List Char
  quoted : Bool
  rest : List Char

def readName? (text : List Char) : Option NameText :=
  match text with
  | '"' :: inner => do
    let (name, rest) ← Text.cut? '"' inner
    if Text.trim name = [] then none else some ⟨name, true, Text.trimStart rest⟩
  | text => do
    let (name, rest) ← Text.nextWord? text
    if name.contains '"' then none else some ⟨name, false, rest⟩

/-- The alias after `as`, else the name; and the text after it. -/
def readAlias? (name : NameText) : Option (String × List Char) :=
  match Text.afterKeyword? "as".toList name.rest with
  | some after => do
    let (word, rest) ← Text.nextWord? after
    let key ← Alias.read? word
    some (key, rest)
  | none =>
    if name.quoted || Alias.isValid name.name then some (String.ofList name.name, name.rest)
    else none

def read? (line : List Char) : Option Participant := do
  let (type, rest) ← ParticipantType.read? line
  let name ← readName? rest
  let (key, rest) ← readAlias? name
  let words := Text.words rest
  if words.all StyleRun.looksLikeStyle then
    let style ← Style.readOptional? words
    some { type, key, displayName := String.ofList name.name, style }
  else none

def writeName (name : String) : List Char :=
  if Alias.isValid name.toList then name.toList else '"' :: (name.toList ++ ['"'])

def write (participant : Participant) : List Char :=
  Text.spaced ([participant.type.write, writeName participant.displayName] ++
    (if participant.key = participant.displayName then []
      else ["as".toList, participant.key.toList]) ++
    [Style.writeOptional participant.style])

end Participant

end SequenceDiagram
