import SequenceDiagram.Diagram.Document
import SequenceDiagram.Diagram.Forest

set_option autoImplicit false

/-!
# Tours

A tour goes through nodes in depth-first order and visits no identifier twice, so it comes to an
end in every document, even when containers hold one another in a circle. Which children are
gone through is up to the purpose of the tour. The children of a node stand in sections, and a
mark opens each section after the first.

A branch of the tour that is as deep as there are nodes has visited all of them, so nothing is
left out by the bound on the depth.
-/
namespace SequenceDiagram

abbrev Tour := Forest Node Unit

/-- The sections of an element that a tour goes through. -/
abbrev Route := Element → List (List NodeId)

namespace Route

def fragments : Route
  | .fragment f => f.sections
  | _ => []

def openFragments : Route
  | .fragment f => if f.isCollapsed then [] else f.sections
  | _ => []

def nestedGroups : Route
  | .group g => [g.nestedGroups]
  | _ => []

end Route

namespace Document

abbrev Visit := List NodeId → Tour × List NodeId

/-- Visits the nodes of a row that were not visited before. -/
def tourRow (body : Node → Visit) : List Node → Visit
  | [], visited => (.nil, visited)
  | node :: nodes, visited =>
    if visited.contains node.id then tourRow body nodes visited
    else
      let (under, visited) := body node (node.id :: visited)
      let (next, visited) := tourRow body nodes visited
      (.tree node under next, visited)

def tourSection (document : Document) (body : Node → Visit) (ids : List NodeId) : Visit :=
  tourRow body (ids.filterMap document.get?)

/-- Visits the sections after the first one, each behind a mark. -/
def tourMarked (document : Document) (body : Node → Visit) : List (List NodeId) → Visit
  | [], visited => (.nil, visited)
  | ids :: sections, visited =>
    let (row, visited) := document.tourSection body ids visited
    let (next, visited) := document.tourMarked body sections visited
    (.mark () (row.append next), visited)

def tourSections (document : Document) (body : Node → Visit) : List (List NodeId) → Visit
  | [], visited => (.nil, visited)
  | ids :: sections, visited =>
    let (row, visited) := document.tourSection body ids visited
    let (next, visited) := document.tourMarked body sections visited
    (row.append next, visited)

/-- Visits what is under a node, down to `depth` levels. -/
def tourBody (document : Document) (route : Route) : Nat → Node → Visit
  | 0, _, visited => (.nil, visited)
  | depth + 1, node, visited =>
    document.tourSections (document.tourBody route depth) (route node.element) visited

def tour (document : Document) (route : Route) : Tour :=
  (tourRow (document.tourBody route document.nodes.length) document.topLevel []).1

/-- The tour of what is under one node, which may itself turn up again in a circle. -/
def tourUnder (document : Document) (route : Route) (node : Node) : Tour :=
  (document.tourBody route document.nodes.length node []).1

end Document

namespace Tour

/-- How many levels of containers, as told by `test`, stand inside one another. -/
def nesting (test : Element → Bool) : Tour → Nat
  | .nil => 0
  | .tree node body next =>
    max (if test node.element then 1 + nesting test body else 0) (nesting test next)
  | .mark _ next => nesting test next

end Tour

end SequenceDiagram
