import SequenceDiagram.Diagram.Element

set_option autoImplicit false

/-!
# Documents

A document is its nodes in source order. Containers name their children by identifier, and the
children stand in the same list. Documents put together by hand may repeat identifiers: a
look-up then finds the last node, and `validate` tells whether every reference has a target and
every child one owner.
-/
namespace SequenceDiagram

structure Node where
  id : NodeId
  /-- First and last source line, counted from one. -/
  lineStart : Nat
  lineEnd : Nat
  element : Element
deriving DecidableEq, Repr

inductive DocumentError
  | missingNode (id : NodeId)
  | danglingReference (owner child : NodeId)
  | selfReference (id : NodeId)
  | multipleOwners (child first second : NodeId)
deriving DecidableEq, Repr

namespace DocumentError

def message : DocumentError → String
  | .missingNode id => "no node with id " ++ id.toText ++ " in document"
  | .danglingReference owner child =>
    "container " ++ owner.toText ++ " references missing node " ++ child.toText
  | .selfReference id => "container " ++ id.toText ++ " references itself"
  | .multipleOwners child first second =>
    "node " ++ child.toText ++ " is owned by both " ++ first.toText ++ " and " ++ second.toText

end DocumentError

structure Document where
  nodes : List Node
deriving DecidableEq, Repr

namespace Document

/-- The arena position that an identifier names: the last one that bears it. -/
def slot? (document : Document) (id : NodeId) : Option Nat :=
  (document.nodes.reverse.findIdx? fun node => node.id = id).map fun i =>
    document.nodes.length - 1 - i

def get? (document : Document) (id : NodeId) : Option Node :=
  document.nodes.reverse.find? fun node => node.id = id

def contains (document : Document) (id : NodeId) : Bool :=
  document.nodes.any fun node => node.id = id

def errors (document : Document) : List Node :=
  document.nodes.filter fun node => node.element.isError

def hasErrors (document : Document) : Bool :=
  document.nodes.any fun node => node.element.isError

/-- The declaration that an alias stands for: the first one in the document. -/
def declaration? (document : Document) (key : String) : Option (Node × Participant) :=
  document.nodes.findSome? fun node =>
    match node.element with
    | .participant p => if p.key = key then some (node, p) else none
    | .message _ | .fragment _ | .group _ | .note _ | .divider _ | .comment _ | .blankLine
    | .directive _ | .error _ => none

def participant? (document : Document) (key : String) : Option Participant :=
  (document.declaration? key).map Prod.snd

/-- Every reference from a container to a child, in arena and list order. -/
def references (document : Document) : List (NodeId × NodeId) :=
  document.nodes.flatMap fun node => node.element.children.map fun child => (node.id, child)

def isOwned (document : Document) (id : NodeId) : Bool :=
  document.references.any fun reference => reference.2 = id

def groupedAliases (document : Document) : List String :=
  document.nodes.flatMap fun node => node.element.groupAliases

def isGrouped (document : Document) (key : String) : Bool :=
  document.groupedAliases.contains key

/-- A declaration that some participant group writes in its own place. -/
def isGroupMember (document : Document) (node : Node) : Bool :=
  match node.element with
  | .participant p => document.isGrouped p.key
  | .message _ | .fragment _ | .group _ | .note _ | .divider _ | .comment _ | .blankLine
  | .directive _ | .error _ => false

def isTopLevel (document : Document) (node : Node) : Bool :=
  !document.isOwned node.id && !document.isGroupMember node

/-- The nodes that no container writes. -/
def topLevel (document : Document) : List Node :=
  document.nodes.filter document.isTopLevel

/-- Checks references one after the other, given the owners found so far. -/
def checkReferences (document : Document) (owners : List (NodeId × NodeId)) :
    List (NodeId × NodeId) → Except DocumentError Unit
  | [] => .ok ()
  | (owner, child) :: references =>
    if !document.contains child then .error (.danglingReference owner child)
    else if child = owner then .error (.selfReference child)
    else match owners.lookup child with
      | some first => .error (.multipleOwners child first owner)
      | none => document.checkReferences ((child, owner) :: owners) references

/-- Every reference names a node, no container names itself, and no node has two owners. -/
def validate (document : Document) : Except DocumentError Unit :=
  document.checkReferences [] document.references

/-- Replaces the node that a look-up of its identifier finds. -/
def withNode (document : Document) (node : Node) : Except DocumentError Document :=
  match document.slot? node.id with
  | some i => .ok ⟨document.nodes.set i node⟩
  | none => .error (.missingNode node.id)

end Document

end SequenceDiagram
