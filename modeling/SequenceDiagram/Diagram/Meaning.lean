import SequenceDiagram.Diagram.Document
import SequenceDiagram.Diagram.Forest

set_option autoImplicit false

namespace SequenceDiagram

inductive GroupMember
  | declared (participant : Participant)
  | undeclared (key : String)
deriving DecidableEq, Repr

/-- An element that holds nothing, or the head of one that does. -/
inductive MeaningHead
  | leaf (element : Element)
  | fragment (header : Fragment)
  | group (header : ParticipantGroup) (members : List GroupMember)
deriving DecidableEq, Repr

/-- In a fragment's body every else section is opened by a mark. -/
abbrev Meaning := Forest MeaningHead Unit

namespace Document

def groupMember (document : Document) (key : String) : GroupMember :=
  match document.participant? key with
  | some participant => .declared participant
  | none => .undeclared key

/-- A row of elements; an error and what could not be resolved have no tree. -/
def meaningRow? (tree? : Element → Option (Option (MeaningHead × Meaning))) :
    List Node → Option Meaning
  | [] => some .nil
  | node :: nodes => do
    let tree ← tree? node.element
    let next ← meaningRow? tree? nodes
    match tree with
    | some (head, body) => some (.tree head body next)
    | none => some next

def meaningSection? (document : Document)
    (tree? : Element → Option (Option (MeaningHead × Meaning))) (ids : List NodeId) :
    Option Meaning :=
  meaningRow? tree? ((ids.filterMap document.get?).filter fun node => !document.isGroupMember node)

def meaningClauses? (document : Document)
    (tree? : Element → Option (Option (MeaningHead × Meaning))) :
    List ElseClause → Option Meaning
  | [] => some .nil
  | clause :: clauses => do
    let entries ← document.meaningSection? tree? clause.entries
    let next ← document.meaningClauses? tree? clauses
    some (.mark () (entries.append next))

/-- The tree of an element, down to `depth` further containers; an error has none. -/
def meaningTree? (document : Document) :
    Nat → Element → Option (Option (MeaningHead × Meaning))
  | depth + 1, .fragment f => do
    let entries ← document.meaningSection? (document.meaningTree? depth) f.entries
    let clauses ← document.meaningClauses? (document.meaningTree? depth) f.elseClauses
    some (some (.fragment f.header, entries.append clauses))
  | depth + 1, .group g => do
    let nested ←
      meaningRow? (document.meaningTree? depth) (g.nestedGroups.filterMap document.get?)
    some (some (.group g.header (g.participants.map document.groupMember), nested))
  | 0, .fragment _ => none
  | 0, .group _ => none
  | _, .error _ => some none
  | _, .participant p => some (some (.leaf (.participant p), .nil))
  | _, .message m => some (some (.leaf (.message m), .nil))
  | _, .note n => some (some (.leaf (.note n), .nil))
  | _, .divider d => some (some (.leaf (.divider d), .nil))
  | _, .comment text => some (some (.leaf (.comment text), .nil))
  | _, .blankLine => some (some (.leaf .blankLine, .nil))
  | _, .directive d => some (some (.leaf (.directive d), .nil))

/-- The meaning of the whole document; `none` when containers hold one another in a circle. -/
def meaning? (document : Document) : Option Meaning :=
  meaningRow? (document.meaningTree? document.nodes.length) document.topLevel

end Document

end SequenceDiagram
