import SequenceDiagram.Diagram.Outline
import SequenceDiagram.Line.Line
import SequenceDiagram.Script.Reader

set_option autoImplicit false

namespace SequenceDiagram

/-- One written line, without its line feed. An empty line is not indented. -/
def indented (depth : Nat) (line : List Char) : List Char :=
  if line = [] then [] else List.replicate (2 * depth) ' ' ++ line

namespace SyntaxFault

def write (fault : SyntaxFault) : List Char :=
  if fault.text = "" then "// ".toList ++ fault.message.toList else "//".toList ++ fault.text.toList

end SyntaxFault

namespace Element

/-- The first line of an element, and its only one unless it is a block. -/
def writeHead : Element → List Char
  | .participant p => p.write
  | .message m => m.write
  | .fragment f => f.writeHead
  | .group g => g.writeHead
  | .note n => n.writeHead
  | .divider d => d.write
  | .comment text => "//".toList ++ text.toList
  | .blankLine => []
  | .directive d => d.write
  | .error fault => fault.write

/-- The text lines of a note block; empty text has none. -/
def writeBlockText : Element → List (List Char)
  | .note n =>
    if n.block && n.text ≠ "" then (Text.split '\n' n.text.toList).map Text.trim else []
  | _ => []

def writeEnd? : Element → Option (List Char)
  | .fragment _ => some "end".toList
  | .group _ => some "end".toList
  | .note n => if n.block then some n.kind.terminator else none
  | _ => none

end Element

namespace OutlineItem

def writeHead : OutlineItem → List Char
  | .node _ n => n.element.writeHead
  | .undeclared key => Directive.writeWith "participant" key.toList

def writeBlockText : OutlineItem → List (List Char)
  | .node _ n => n.element.writeBlockText
  | .undeclared _ => []

def writeEnd? : OutlineItem → Option (List Char)
  | .node _ n => n.element.writeEnd?
  | .undeclared _ => none

end OutlineItem

namespace Outline

/-- The lines of a row that stands `depth` levels deep. An else clause that divides the row is
written one level further out. -/
def lines (depth : Nat) : Outline → List (List Char)
  | .nil => []
  | .tree item body next =>
    indented depth item.writeHead :: (item.writeBlockText.map (indented (depth + 1)) ++
      lines (depth + 1) body ++ item.writeEnd?.toList.map (indented depth) ++ lines depth next)
  | .mark clause next => indented (depth - 1) clause.writeHead :: lines depth next

def toText (outline : Outline) : String :=
  String.ofList ((lines 0 outline).flatMap fun line => line ++ ['\n'])

end Outline

namespace Document

/-- The canonical text of a document; `none` when its containers hold one another in a circle. -/
def write? (document : Document) : Option String :=
  document.outline?.map Outline.toText

/-- The canonical form of a text. Containers that were read never hold one another in a circle,
so the empty text is never resorted to. -/
def format (text : String) : String :=
  (read text).write?.getD ""

end Document

end SequenceDiagram
