import SequenceDiagram.Diagram.Document
import SequenceDiagram.Diagram.Forest

set_option autoImplicit false

namespace SequenceDiagram

inductive OutlineItem
  /-- A node with its arena position. -/
  | node (slot : Nat) (node : Node)
  | undeclared (key : String)
deriving DecidableEq, Repr

abbrev Outline := Forest OutlineItem ElseClause

namespace Document

def entry? (document : Document) (id : NodeId) : Option (Nat × Node) := do
  let slot ← document.slot? id
  let node ← document.nodes[slot]?
  some (slot, node)

/-- The nodes of a section. Identifiers without a node are passed over, and so are declarations
that a group writes. -/
def sectionEntries (document : Document) (ids : List NodeId) : List (Nat × Node) :=
  (ids.filterMap document.entry?).filter fun entry => !document.isGroupMember entry.2

/-- The members of a group with the source line that each is ordered by. -/
def groupMembers (document : Document) (group : ParticipantGroup) :
    List (Option Nat × OutlineItem) :=
  (group.participants.map fun key =>
    match document.declaration? key with
    | some (node, _) =>
      (some node.lineStart, .node (document.nodes.findIdx (· = node)) node)
    | none => (none, .undeclared key)) ++
  ((group.nestedGroups.filterMap document.entry?).map fun entry =>
    (some entry.2.lineStart, .node entry.1 entry.2))

/-- Lines in ascending order, no line after all of them. -/
def lineLE : Option Nat → Option Nat → Bool
  | some a, some b => a ≤ b
  | some _, none => true
  | none, some _ => false
  | none, none => true

def orderedMembers (document : Document) (group : ParticipantGroup) : List OutlineItem :=
  ((document.groupMembers group).mergeSort fun a b => lineLE a.1 b.1).map Prod.snd

def outlineRow? (body? : OutlineItem → Option Outline) : List OutlineItem → Option Outline
  | [] => some .nil
  | item :: items => do
    let body ← body? item
    let next ← outlineRow? body? items
    some (.tree item body next)

def outlineSection? (document : Document) (body? : OutlineItem → Option Outline)
    (ids : List NodeId) : Option Outline :=
  outlineRow? body? ((document.sectionEntries ids).map fun entry => .node entry.1 entry.2)

def outlineClauses? (document : Document) (body? : OutlineItem → Option Outline) :
    List ElseClause → Option Outline
  | [] => some .nil
  | clause :: clauses => do
    let entries ← document.outlineSection? body? clause.entries
    let next ← document.outlineClauses? body? clauses
    some (.mark clause (entries.append next))

/-- What stands under an item, down to `depth` further containers. -/
def outlineBody? (document : Document) : Nat → OutlineItem → Option Outline
  | depth, .node _ node =>
    match node.element, depth with
    | .fragment f, depth + 1 => do
      let entries ← document.outlineSection? (document.outlineBody? depth) f.entries
      let clauses ← document.outlineClauses? (document.outlineBody? depth) f.elseClauses
      some (entries.append clauses)
    | .group g, depth + 1 =>
      outlineRow? (document.outlineBody? depth) (document.orderedMembers g)
    | .fragment _, 0 => none
    | .group _, 0 => none
    | _, _ => some .nil
  | _, .undeclared _ => some .nil

/-- The outline of the whole document; `none` when containers hold one another in a circle. -/
def outline? (document : Document) : Option Outline :=
  outlineRow? (document.outlineBody? document.nodes.length)
    ((document.nodes.zipIdx.filter fun entry => document.isTopLevel entry.1).map fun entry =>
      .node entry.2 entry.1)

end Document

end SequenceDiagram
