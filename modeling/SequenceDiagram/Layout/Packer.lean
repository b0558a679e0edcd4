import SequenceDiagram.Layout.Geometry

set_option autoImplicit false

namespace SequenceDiagram.Layout

structure Level (α : Type) where
  top : α
  /-- Bottom of the tallest slot. -/
  bottom : α
  /-- Spans in use, the latest first. -/
  claimed : List (Span α)
deriving DecidableEq, Repr

structure Packer (α : Type) where
  level : Option (Level α) := none
deriving DecidableEq, Repr

namespace Packer
variable {α : Type} [Scalar α]

def isOpen (packer : Packer α) : Bool :=
  packer.level.isSome

def bottom? (packer : Packer α) : Option α :=
  packer.level.map Level.bottom

/-- The top of the open level when a span has room on it; none when a new level is needed. -/
def place? (packer : Packer α) (span : Span α) : Option α :=
  match packer.level with
  | some level =>
    if level.claimed.any fun claimed => claimed.overlaps span then none else some level.top
  | none => none

def claim (packer : Packer α) (span : Span α) (top bottom : α) : Packer α :=
  match packer.level with
  | some level =>
    if Scalar.same level.top top then
      ⟨some { level with
        claimed := span :: level.claimed
        bottom := Scalar.max level.bottom bottom }⟩
    else ⟨some ⟨top, bottom, [span]⟩⟩
  | none => ⟨some ⟨top, bottom, [span]⟩⟩

def close (_ : Packer α) : Packer α :=
  ⟨none⟩

end Packer

end SequenceDiagram.Layout
