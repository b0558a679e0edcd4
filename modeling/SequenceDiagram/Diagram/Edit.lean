import SequenceDiagram.Diagram.Document

set_option autoImplicit false

namespace SequenceDiagram

inductive EditError
  | noSuchNode
  | notAFragment
  | notAGroup
deriving DecidableEq, Repr

namespace EditError

def message : EditError → String
  | .noSuchNode => "no such node"
  | .notAFragment => "not a fragment"
  | .notAGroup => "not a group"

end EditError

namespace Fragment

/-- Gives the main section and the else clauses new entries; a clause for which there are none
gets an empty list. -/
def withSections (fragment : Fragment) (entries : List NodeId) (others : List (List NodeId)) :
    Fragment :=
  { fragment with
    entries
    elseClauses := fragment.elseClauses.mapIdx fun i clause =>
      { clause with entries := others.getD i [] } }

end Fragment

namespace ParticipantGroup

def withMembers (group : ParticipantGroup) (participants : List String)
    (nestedGroups : List NodeId) : ParticipantGroup :=
  { group with participants, nestedGroups }

end ParticipantGroup

namespace Document

def withElement (document : Document) (id : NodeId) (element : Element) :
    Except DocumentError Document :=
  match document.get? id with
  | some node => document.withNode { node with element }
  | none => .error (.missingNode id)

def set (document : Document) (node : Node) (element : Element) : Except EditError Document :=
  (document.withNode { node with element }).mapError fun _ => .noSuchNode

def editFragment (document : Document) (id : NodeId) (edit : Fragment → Fragment) :
    Except EditError Document :=
  match document.get? id with
  | none => .error .noSuchNode
  | some node =>
    match node.element with
    | .fragment f => document.set node (.fragment (edit f))
    | _ => .error .notAFragment

def editGroup (document : Document) (id : NodeId) (edit : ParticipantGroup → ParticipantGroup) :
    Except EditError Document :=
  match document.get? id with
  | none => .error .noSuchNode
  | some node =>
    match node.element with
    | .group g => document.set node (.group (edit g))
    | _ => .error .notAGroup

def append (document other : Document) : Document :=
  ⟨document.nodes ++ other.nodes⟩

/-- The nodes with the given identifiers, in the given order; unknown ones are passed over. -/
def keep (document : Document) (ids : List NodeId) : Document :=
  ⟨ids.filterMap document.get?⟩

end Document

end SequenceDiagram
