import SequenceDiagram.Diagram.Document

set_option autoImplicit false

namespace SequenceDiagram

/-- Definitions, the latest first. -/
structure StyleSheet where
  named : List (String × Style) := []
  typed : List (StyleTarget × Style) := []
deriving DecidableEq, Repr

namespace StyleSheet

def define (sheet : StyleSheet) (node : Node) : StyleSheet :=
  match node.element with
  | .directive (.namedStyle name style) => { sheet with named := (name, style) :: sheet.named }
  | .directive (.typeStyle target style) => { sheet with typed := (target, style) :: sheet.typed }
  | _ => sheet

def ofDocument (document : Document) : StyleSheet :=
  document.nodes.foldl define {}

def named? (sheet : StyleSheet) (name : String) : Option Style :=
  sheet.named.lookup name

def typed? (sheet : StyleSheet) (target : StyleTarget) : Option Style :=
  sheet.typed.lookup target

/-- The style of something written with `inline`; fields unset everywhere stay unset. -/
def resolve (sheet : StyleSheet) (target : StyleTarget) (inline : Option Style) : Style :=
  let base := (sheet.typed? target).getD .empty
  match inline with
  | none => base
  | some style =>
    match style.styleName.bind sheet.named? with
    | some named => style.mergedOver (named.mergedOver base)
    | none => style.mergedOver base

/-- The style of a drawn element. A group's color counts as an inline fill. -/
def resolveElement? (sheet : StyleSheet) : Element → Option Style
  | .participant p => some (sheet.resolve .participant p.style)
  | .message m => some (sheet.resolve .message m.style)
  | .note n => some (sheet.resolve n.kind.styleTarget n.style)
  | .divider d => some (sheet.resolve .divider d.style)
  | .fragment f => some (sheet.resolve .fragment f.style)
  | .group g => some (sheet.resolve .participantGroup (some { fill := g.color }))
  | .comment _ | .blankLine | .directive _ | .error _ => none

end StyleSheet

end SequenceDiagram
