import SequenceDiagram.Diagram.Element
import SequenceDiagram.Line.StyleText

set_option autoImplicit false

/-!
# Heads of blocks

`<type>[+|-][operator color] [box style] [condition]` opens a fragment, `else [box style]
[condition]` its next section, and `participantgroup [color] [label]` a group. Only expandable
fragments take the marker: `-` for collapsed, `+` or nothing for open.
-/
namespace SequenceDiagram

namespace FragmentType

/-- The longest of the keywords that a word starts with, and the rest of the word. -/
def readLead? (word : List Char) : Option (FragmentType × List Char) :=
  all.foldl
    (fun best type =>
      match Text.after? type.keyword.toList word, best with
      | some tail, some (other, shortest) =>
        if tail.length < shortest.length then some (type, tail) else some (other, shortest)
      | some tail, none => some (type, tail)
      | none, best => best)
    none

end FragmentType

namespace Fragment

structure Lead where
  type : FragmentType
  collapsed : Option Bool
  operatorColor : Option String

/-- Takes the collapse marker off; only expandable fragments may have one. -/
def readMarker? (type : FragmentType) (tail : List Char) : Option (Option Bool × List Char) :=
  let marked := match tail with
    | '+' :: rest => (some false, rest)
    | '-' :: rest => (some true, rest)
    | rest => (none, rest)
  if type = .expandable then some (some (marked.1.getD false), marked.2)
  else if marked.1.isSome then none
  else some (none, marked.2)

def readLead? (word : List Char) : Option Lead := do
  let (type, tail) ← FragmentType.readLead? word
  let (collapsed, tail) ← readMarker? type tail
  match tail with
  | [] => some { type, collapsed, operatorColor := none }
  | color => (Color.read? color).map fun color => { type, collapsed, operatorColor := some color }

/-- A box style and the free text after it. -/
def readCondition? (rest : List Char) : Option (Option Style × String) := do
  let (words, condition) := StyleRun.splitLeading rest
  let style ← Style.readOptional? words
  some (style, String.ofList condition)

def withOperatorColor (style : Option Style) (color : Option String) : Option Style :=
  match color with
  | some color => some { style.getD .empty with operatorColor := some color }
  | none => style

def readHead? (line : List Char) : Option Fragment := do
  let (word, rest) ← Text.nextWord? line
  let lead ← readLead? word
  let (style, condition) ← readCondition? rest
  some {
    type := lead.type
    condition
    style := withOperatorColor style lead.operatorColor
    entries := []
    elseClauses := []
    collapsed := lead.collapsed }

def writeLead (fragment : Fragment) : List Char :=
  fragment.type.keyword.toList ++
  (if fragment.type = .expandable ∧ fragment.isCollapsed then ['-'] else []) ++
  Style.colorWord (fragment.style.bind Style.operatorColor)

def writeHead (fragment : Fragment) : List Char :=
  Text.spaced [fragment.writeLead, Style.writeOptional fragment.style, fragment.condition.toList]

end Fragment

namespace ElseClause

def readHead? (line : List Char) : Option ElseClause := do
  let rest ← Text.afterKeyword? "else".toList line
  let (style, condition) ← Fragment.readCondition? rest
  some { condition, style, entries := [] }

def writeHead (clause : ElseClause) : List Char :=
  Text.spaced ["else".toList, Style.writeOptional clause.style, clause.condition.toList]

end ElseClause

namespace ParticipantGroup

def keyword : String := "participantgroup"

def readHead? (line : List Char) : Option ParticipantGroup := do
  let rest ← Text.afterKeyword? keyword.toList line
  let (color, label) := match Text.nextWord? rest with
    | some (first, after) =>
      if Color.isValid first then (some (String.ofList first), after) else (none, rest)
    | none => (none, rest)
  some { color, label := String.ofList label, participants := [], nestedGroups := [] }

def writeHead (group : ParticipantGroup) : List Char :=
  Text.spaced [keyword.toList, Style.colorWord group.color, group.label.toList]

end ParticipantGroup

end SequenceDiagram
