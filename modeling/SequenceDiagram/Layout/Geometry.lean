import SequenceDiagram.Number.Scalar

set_option autoImplicit false

namespace SequenceDiagram.Layout

structure Rect (α : Type) where
  x : α
  y : α
  width : α
  height : α
deriving DecidableEq, Repr

namespace Rect
variable {α : Type} [Scalar α]

def right (rect : Rect α) : α :=
  rect.x + rect.width

def bottom (rect : Rect α) : α :=
  rect.y + rect.height

def centerX (rect : Rect α) : α :=
  rect.x + Scalar.half rect.width

def shiftX (rect : Rect α) (dx : α) : Rect α :=
  { rect with x := rect.x + dx }

end Rect

structure Span (α : Type) where
  left : α
  right : α
deriving DecidableEq, Repr

namespace Span
variable {α : Type} [Scalar α]

def between (a b : α) : Span α :=
  ⟨Scalar.min a b, Scalar.max a b⟩

/-- Spans that merely touch do not overlap. -/
def overlaps (a b : Span α) : Bool :=
  decide (a.left < b.right) && decide (b.left < a.right)

/-- The least span that covers two. -/
def union (a b : Span α) : Span α :=
  ⟨Scalar.min a.left b.left, Scalar.max a.right b.right⟩

def cover? (spans : List (Span α)) : Option (Span α) :=
  match spans with
  | [] => none
  | span :: spans => some (spans.foldl union span)

end Span

/-- An arrow leaves the sender's lifeline at `y` and reaches the receiver's at `endY`. -/
structure MessageGeometry (α : Type) where
  y : α
  endY : α
  fromX : α
  toX : α
  /-- Vertical slot of the message, label included; it ends at `endY`. -/
  height : α
  number : Option UInt32
deriving DecidableEq, Repr

namespace MessageGeometry
variable {α : Type} [Scalar α]

def span (message : MessageGeometry α) : Span α :=
  .between message.fromX message.toX

def shiftX (message : MessageGeometry α) (dx : α) : MessageGeometry α :=
  { message with fromX := message.fromX + dx, toX := message.toX + dx }

end MessageGeometry

structure FragmentGeometry (α : Type) where
  rect : Rect α
  /-- Where each else section starts. -/
  elseYs : List α
deriving DecidableEq, Repr

inductive Geometry (α : Type)
  | box (rect : Rect α)
  | message (message : MessageGeometry α)
  | fragment (fragment : FragmentGeometry α)
deriving DecidableEq, Repr

namespace Geometry
variable {α : Type} [Scalar α]

def rect? : Geometry α → Option (Rect α)
  | .box r => some r
  | .fragment f => some f.rect
  | .message _ => none

def message? : Geometry α → Option (MessageGeometry α)
  | .message m => some m
  | .box _ | .fragment _ => none

def fragment? : Geometry α → Option (FragmentGeometry α)
  | .fragment f => some f
  | .box _ | .message _ => none

def leftX : Geometry α → α
  | .box r => r.x
  | .fragment f => f.rect.x
  | .message m => m.span.left

def rightX : Geometry α → α
  | .box r => r.right
  | .fragment f => f.rect.right
  | .message m => m.span.right

def shiftX (dx : α) : Geometry α → Geometry α
  | .box r => .box (r.shiftX dx)
  | .fragment f => .fragment { f with rect := f.rect.shiftX dx }
  | .message m => .message (m.shiftX dx)

end Geometry

/-- A time in which a participant is active. -/
structure ActivationBar (α : Type) where
  participant : String
  startY : α
  endY : α
  /-- How many bars of the same participant it stands on. -/
  depth : Nat
  x : α
  width : α
  color : Option String
deriving DecidableEq, Repr

namespace ActivationBar
variable {α : Type} [Scalar α]

/-- The other bar begins and ends while this one lasts. -/
def contains (bar inner : ActivationBar α) : Bool :=
  decide (bar.startY ≤ inner.startY) && decide (inner.endY ≤ bar.endY)

end ActivationBar

inductive LifelineEnd
  /-- Runs down to the end of the diagram. -/
  | bottom
  | destroyed
  /-- Ends without a mark. -/
  | silent
deriving DecidableEq, Repr

namespace LifelineEnd

def name : LifelineEnd → String
  | .bottom => "bottom"
  | .destroyed => "destroyed"
  | .silent => "silent"

end LifelineEnd

structure Lifeline (α : Type) where
  participant : String
  x : α
  startY : α
  endY : α
  endKind : LifelineEnd
deriving DecidableEq, Repr

end SequenceDiagram.Layout
