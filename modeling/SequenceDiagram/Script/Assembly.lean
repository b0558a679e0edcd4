import SequenceDiagram.Diagram.Document
import SequenceDiagram.Line.Line

set_option autoImplicit false

/-!
# Assembling a document line by line

An assembly is a document under construction: the nodes so far, the blocks that are still open
and the text of an open note block. A block takes its place in the arena when it is opened, so
that it precedes its children, and its node is completed when it is closed. Identifiers follow
arena positions, starting at `first`.
-/
namespace SequenceDiagram

inductive BlockBody
  | fragment (fragment : Fragment)
  | group (group : ParticipantGroup)
deriving DecidableEq, Repr

namespace BlockBody

def element : BlockBody → Element
  | .fragment f => .fragment f
  | .group g => .group g

def keyword : BlockBody → String
  | .fragment f => f.type.keyword
  | .group _ => ParticipantGroup.keyword

end BlockBody

structure OpenBlock where
  slot : Nat
  /-- The line that opened the block. -/
  line : Nat
  body : BlockBody
deriving DecidableEq, Repr

structure OpenNote where
  line : Nat
  head : Note
  /-- Text lines, the latest first. -/
  text : List (List Char)
deriving DecidableEq, Repr

namespace ElseClause

def addEntry (id : NodeId) : List ElseClause → List ElseClause
  | [] => []
  | [clause] => [{ clause with entries := clause.entries ++ [id] }]
  | clause :: clauses => clause :: addEntry id clauses

end ElseClause

namespace Fragment

def addEntry (fragment : Fragment) (id : NodeId) : Fragment :=
  match fragment.elseClauses with
  | [] => { fragment with entries := fragment.entries ++ [id] }
  | clauses => { fragment with elseClauses := ElseClause.addEntry id clauses }

def addClause (fragment : Fragment) (clause : ElseClause) : Fragment :=
  { fragment with elseClauses := fragment.elseClauses ++ [clause] }

end Fragment

namespace OpenBlock

/-- Enters a node into the innermost open fragment; groups in between are looked through. -/
def attach (id : NodeId) : List OpenBlock → List OpenBlock
  | [] => []
  | block :: blocks =>
    match block.body with
    | .fragment f => { block with body := .fragment (f.addEntry id) } :: blocks
    | .group _ => block :: attach id blocks

/-- Enters a block that is about to be opened. A group inside a group belongs to that group. -/
def attachBlock (id : NodeId) (body : BlockBody) : List OpenBlock → List OpenBlock
  | [] => []
  | block :: blocks =>
    match block.body, body with
    | .group parent, .group _ =>
      { block with
        body := .group { parent with nestedGroups := parent.nestedGroups ++ [id] } } :: blocks
    | .group _, .fragment _ => attach id (block :: blocks)
    | .fragment _, _ => attach id (block :: blocks)

end OpenBlock

inductive LineFault
  | strayEnd
  | unknownForm
  | malformedElse
  | strayElse
  | notForGroups
deriving DecidableEq, Repr

namespace LineFault

def message : LineFault → String
  | .strayEnd => "`end` without an open block"
  | .unknownForm => "expected a directive, declaration, note, fragment or message"
  | .malformedElse => "malformed `else` header"
  | .strayElse => "`else` outside of a fragment"
  | .notForGroups =>
    "only participant declarations and nested groups may appear in a participant group"

def element (fault : LineFault) (line : List Char) : Element :=
  .error {
    kind := .unrecognizedSyntax
    text := String.ofList line
    message := fault.message }

end LineFault

namespace SyntaxFault

def unterminated (message : String) : Element :=
  .error { kind := .unterminatedBlock, text := "", message }

def unterminatedBlock (keyword : String) (line : Nat) : Element :=
  unterminated ("unterminated " ++ keyword ++ " block opened on line " ++ toString line ++
    ": missing `end`")

def unterminatedNote (kind : NoteKind) (line : Nat) : Element :=
  unterminated ("unterminated note opened on line " ++ toString line ++ ": missing `" ++
    String.ofList kind.terminator ++ "`")

end SyntaxFault

structure Assembly where
  first : UInt32
  nodes : Array Node := #[]
  /-- Open blocks, the innermost first. -/
  blocks : List OpenBlock := []
  note : Option OpenNote := none
deriving DecidableEq, Repr

namespace Assembly

def nextId (assembly : Assembly) : NodeId :=
  NodeId.offset assembly.first assembly.nodes.size

def emit (assembly : Assembly) (lineStart lineEnd : Nat) (element : Element) : Assembly :=
  { assembly with nodes := assembly.nodes.push ⟨assembly.nextId, lineStart, lineEnd, element⟩ }

def emitEntry (assembly : Assembly) (lineStart lineEnd : Nat) (element : Element) : Assembly :=
  { assembly.emit lineStart lineEnd element with
    blocks := OpenBlock.attach assembly.nextId assembly.blocks }

def openBlock (assembly : Assembly) (line : Nat) (body : BlockBody) : Assembly :=
  { assembly.emit line line body.element with
    blocks := ⟨assembly.nodes.size, line, body⟩ ::
      OpenBlock.attachBlock assembly.nextId body assembly.blocks }

def closeBlock (assembly : Assembly) (lineEnd : Nat) : Assembly :=
  match assembly.blocks with
  | [] => assembly
  | block :: blocks =>
    { assembly with
      nodes := assembly.nodes.setIfInBounds block.slot
        ⟨NodeId.offset assembly.first block.slot, block.line, lineEnd, block.body.element⟩
      blocks }

def elseLine (assembly : Assembly) (number : Nat) (line : List Char) : Assembly :=
  match assembly.blocks with
  | ⟨slot, opened, .fragment f⟩ :: blocks =>
    match ElseClause.readHead? line with
    | some clause =>
      { assembly with blocks := ⟨slot, opened, .fragment (f.addClause clause)⟩ :: blocks }
    | none => assembly.emitEntry number number (LineFault.malformedElse.element line)
  | _ => assembly.emitEntry number number (LineFault.strayElse.element line)

def endLine (assembly : Assembly) (number : Nat) (line : List Char) : Assembly :=
  match assembly.blocks with
  | [] => assembly.emit number number (LineFault.strayEnd.element line)
  | _ :: _ => assembly.closeBlock number

def entryLine (assembly : Assembly) (number : Nat) (line : List Char) : Assembly :=
  if line = "end".toList then assembly.endLine number line
  else if (Text.afterKeyword? "else".toList line).isSome then assembly.elseLine number line
  else match Line.read line with
    | .blank => assembly.emitEntry number number .blankLine
    | .comment text => assembly.emitEntry number number (.comment text)
    | .directive d => assembly.emitEntry number number (.directive d)
    | .divider d => assembly.emitEntry number number (.divider d)
    | .note n =>
      if n.block then { assembly with note := some ⟨number, n, []⟩ }
      else assembly.emitEntry number number (.note n)
    | .fragment f => assembly.openBlock number (.fragment f)
    | .group g => assembly.openBlock number (.group g)
    | .participant p => assembly.emitEntry number number (.participant p)
    | .message m => assembly.emitEntry number number (.message m)
    | .unrecognized => assembly.emitEntry number number (LineFault.unknownForm.element line)

def addMember (key : String) : List OpenBlock → List OpenBlock
  | ⟨slot, opened, .group g⟩ :: blocks =>
    ⟨slot, opened, .group { g with participants := g.participants ++ [key] }⟩ :: blocks
  | blocks => blocks

/-- A line directly inside a participant group. Blank lines and comments leave no node. -/
def groupLine (assembly : Assembly) (number : Nat) (line : List Char) : Assembly :=
  if line = "end".toList then assembly.closeBlock number
  else match Line.read line with
    | .blank | .comment _ => assembly
    | .group g => assembly.openBlock number (.group g)
    | .participant p =>
      { assembly.emit number number (.participant p) with
        blocks := addMember p.key assembly.blocks }
    | .directive _ | .divider _ | .note _ | .fragment _ | .message _ | .unrecognized =>
      assembly.emitEntry number number (LineFault.notForGroups.element line)

def closeNote (assembly : Assembly) (note : OpenNote) (lineEnd : Nat) : Assembly :=
  { assembly with note := none }.emitEntry note.line lineEnd
    (.note { note.head with text := String.ofList (Text.join ['\n'] note.text.reverse) })

def noteLine (assembly : Assembly) (note : OpenNote) (number : Nat) (line : List Char) :
    Assembly :=
  if line = note.head.kind.terminator then assembly.closeNote note number
  else { assembly with note := some { note with text := line :: note.text } }

def inGroup (assembly : Assembly) : Bool :=
  match assembly.blocks with
  | ⟨_, _, .group _⟩ :: _ => true
  | _ => false

def step (assembly : Assembly) (number : Nat) (line : List Char) : Assembly :=
  match assembly.note with
  | some note => assembly.noteLine note number line
  | none =>
    if assembly.inGroup then assembly.groupLine number line else assembly.entryLine number line

/-- Closes an open note block at the last line and reports it. -/
def abandonNote (assembly : Assembly) (last : Nat) : Assembly :=
  match assembly.note with
  | none => assembly
  | some note =>
    (assembly.closeNote note last).emitEntry last last
      (SyntaxFault.unterminatedNote note.head.kind note.line)

/-- Closes the innermost open block at the last line and reports it to the blocks around it. -/
def abandonBlock (assembly : Assembly) (last : Nat) : Assembly :=
  match assembly.blocks with
  | [] => assembly
  | block :: _ =>
    (assembly.closeBlock last).emitEntry last last
      (SyntaxFault.unterminatedBlock block.body.keyword block.line)

def abandonBlocks (last : Nat) : Nat → Assembly → Assembly
  | 0, assembly => assembly
  | count + 1, assembly => abandonBlocks last count (assembly.abandonBlock last)

def finish (assembly : Assembly) (last : Nat) : Assembly :=
  let settled := assembly.abandonNote last
  abandonBlocks last settled.blocks.length settled

end Assembly

end SequenceDiagram
