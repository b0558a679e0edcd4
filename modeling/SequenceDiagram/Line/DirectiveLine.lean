import SequenceDiagram.Diagram.Directive
import SequenceDiagram.Line.Alias
import SequenceDiagram.Line.StyleText
import SequenceDiagram.Number.Decimal

set_option autoImplicit false

namespace SequenceDiagram.Directive

/-- A switch that is on when nothing is said. -/
def readSwitch? (rest : List Char) : Option Bool :=
  if rest = [] ∨ rest = "on".toList then some true
  else if rest = "off".toList then some false
  else none

def readExplicitSwitch? (rest : List Char) : Option Bool :=
  if rest = "on".toList then some true
  else if rest = "off".toList then some false
  else none

def readEntrySpacing? (rest : List Char) : Option Directive :=
  if rest = [] then some (entrySpacing .one) else (Magnitude.read? rest).map entrySpacing

def readAutonumber? (rest : List Char) : Option Directive :=
  if rest = [] then some (autonumber (some 1))
  else if rest = "off".toList then some (autonumber none)
  else (Text.readUInt32? rest).map fun start => autonumber (some start)

def readSpace? (rest : List Char) : Option Directive :=
  if rest = [] then some (space 1) else (Text.readInt32? rest).map space

def readParticipantSpacing? (rest : List Char) : Option Directive :=
  if rest = "equal".toList then some (participantSpacing .equal)
  else (Magnitude.read? rest).map fun amount => participantSpacing (.gap amount)

/-- The payload starts with a style or with the alias that the style is for. -/
def readLifelineStyle? (rest : List Char) : Option Directive := do
  let (first, tail) ← Text.nextWord? rest
  let (participant, spec) ←
    if first.head? = some '#' ∨ first.head? = some ';' then some (none, rest)
    else (Alias.read? first).map fun key => (some key, tail)
  let style ← (Style.readLine? (Text.words spec)).bind Style.nonEmpty?
  some (lifelineStyle participant style)

def readFrame? (rest : List Char) : Option Directive := do
  let (words, label) := StyleRun.splitLeading rest
  let style ← Style.readOptional? words
  some (frame (String.ofList label) style)

def readActivate? (rest : List Char) : Option Directive := do
  let (word, tail) ← Text.nextWord? rest
  let key ← Alias.read? word
  if tail = [] then some (activate key none)
  else (Color.read? tail).map fun color => activate key (some color)

def readNamedStyle? (rest : List Char) : Option Directive := do
  let (name, payload) ← Text.nextWord? rest
  if StyleName.isValid name then
    (Style.readDefinition? payload).map (namedStyle (String.ofList name))
  else none

def readTypeStyle? (keyword : String) (rest : List Char) : Option Directive := do
  let target ← StyleTarget.ofKeyword? keyword
  let style ← Style.readDefinition? rest
  some (typeStyle target style)

def readPayload? (keyword : String) (rest : List Char) : Option Directive :=
  match keyword with
  | "title" => if rest = [] then none else some (title (String.ofList rest))
  | "entryspacing" => readEntrySpacing? rest
  | "autonumber" => readAutonumber? rest
  | "space" => readSpace? rest
  | "participantspacing" => readParticipantSpacing? rest
  | "lifelinestyle" => readLifelineStyle? rest
  | "linear" => (readSwitch? rest).map linear
  | "parallel" => (readSwitch? rest).map parallel
  | "bottomparticipants" => if rest = [] then some bottomParticipants else none
  | "fontfamily" => if rest = [] then none else some (fontFamily (String.ofList rest))
  | "frame" => readFrame? rest
  | "destroy" => (Alias.readOnly? rest).map destroy
  | "destroyafter" => (Alias.readOnly? rest).map destroyAfter
  | "destroysilent" => (Alias.readOnly? rest).map destroySilent
  | "activate" => readActivate? rest
  | "deactivate" => (Alias.readOnly? rest).map deactivate
  | "deactivateafter" => (Alias.readOnly? rest).map deactivateAfter
  | "autoactivation" => (readExplicitSwitch? rest).map autoActivation
  | "activecolor" => (Color.read? rest).map activeColor
  | "style" => readNamedStyle? rest
  | keyword => readTypeStyle? keyword rest

def read? (line : List Char) : Option Directive := do
  let (keyword, rest) ← Text.nextWord? line
  readPayload? (String.ofList keyword) rest

/-- A keyword with its payload after one space. -/
def writeWith (keyword : String) (payload : List Char) : List Char :=
  keyword.toList ++ ' ' :: payload

def writeSwitch (keyword : String) (on : Bool) : List Char :=
  if on then keyword.toList else writeWith keyword "off".toList

def write : Directive → List Char
  | title text => writeWith "title" text.toList
  | entrySpacing factor =>
    if factor = .one then "entryspacing".toList else writeWith "entryspacing" factor.write
  | autonumber none => writeWith "autonumber" "off".toList
  | autonumber (some start) =>
    if start = 1 then "autonumber".toList else writeWith "autonumber" (Text.writeUInt32 start)
  | space steps => if steps = 1 then "space".toList else writeWith "space" (Text.writeInt32 steps)
  | participantSpacing .equal => writeWith "participantspacing" "equal".toList
  | participantSpacing (.gap amount) => writeWith "participantspacing" amount.write
  | lifelineStyle none style => writeWith "lifelinestyle" style.writeLine
  | lifelineStyle (some key) style =>
    writeWith "lifelinestyle" (key.toList ++ ' ' :: style.writeLine)
  | linear on => writeSwitch "linear" on
  | parallel on => writeSwitch "parallel" on
  | bottomParticipants => "bottomparticipants".toList
  | fontFamily family => writeWith "fontfamily" family.toList
  | frame label style => Text.spaced ["frame".toList, Style.writeOptional style, label.toList]
  | destroy key => writeWith "destroy" key.toList
  | destroyAfter key => writeWith "destroyafter" key.toList
  | destroySilent key => writeWith "destroysilent" key.toList
  | activate key none => writeWith "activate" key.toList
  | activate key (some color) => writeWith "activate" (key.toList ++ ' ' :: color.toList)
  | deactivate key => writeWith "deactivate" key.toList
  | deactivateAfter key => writeWith "deactivateafter" key.toList
  | autoActivation on => writeWith "autoactivation" (if on then "on".toList else "off".toList)
  | activeColor color => writeWith "activecolor" color.toList
  | namedStyle name style => writeWith "style" (name.toList ++ ' ' :: style.writeDefinition)
  | typeStyle target style => writeWith target.keyword style.writeDefinition

end SequenceDiagram.Directive
