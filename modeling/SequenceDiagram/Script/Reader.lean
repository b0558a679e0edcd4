import SequenceDiagram.Script.Assembly

set_option autoImplicit false

namespace SequenceDiagram

namespace Text

/-- The trimmed lines of a text with their numbers, counted from one. -/
def numberedLines (text : List Char) : List (List Char × Nat) :=
  ((lines text).map trim).zipIdx 1

end Text

namespace Assembly

def run (assembly : Assembly) (lines : List (List Char × Nat)) : Assembly :=
  lines.foldl (fun state line => state.step line.2 line.1) assembly

end Assembly

namespace Document

/-- Reads a text, numbering its nodes from `first` on. -/
def readFrom (first : UInt32) (text : String) : Document :=
  let lines := Text.numberedLines text.toList
  ⟨((Assembly.run { first } lines).finish lines.length).nodes.toList⟩

def read (text : String) : Document :=
  readFrom 0 text

end Document

end SequenceDiagram
