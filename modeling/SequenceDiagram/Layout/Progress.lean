import SequenceDiagram.Layout.Activation
import SequenceDiagram.Layout.Columns
import SequenceDiagram.Layout.Packer

set_option autoImplicit false

/-!
# The state of a layout in progress

Nodes are placed from the top down. The cursor is where the next row goes; it only moves up for
a negative `space`, which is why the deepest point is kept besides.
-/
namespace SequenceDiagram.Layout

structure Setting (α : Type) where
  document : Document
  config : Config α
  columns : Columns α
  /-- Where the first row goes. -/
  bodyTop : α

structure Ending (α : Type) where
  y : α
  kind : LifelineEnd
deriving DecidableEq, Repr

abbrev GeometryMap (α : Type) := List (NodeId × Geometry α)

namespace GeometryMap
variable {α : Type}

def insert (map : GeometryMap α) (id : NodeId) (geometry : Geometry α) : GeometryMap α :=
  (id, geometry) :: map.filter fun entry => entry.1 ≠ id

def get? (map : GeometryMap α) (id : NodeId) : Option (Geometry α) :=
  map.lookup id

theorem get?_insert_self (map : GeometryMap α) (id : NodeId) (geometry : Geometry α) :
    (map.insert id geometry).get? id = some geometry := by
  simp [insert, get?]

end GeometryMap

structure Progress (α : Type) where
  cursor : α
  /-- Lowest cursor before a step back up. -/
  deepest : α
  entrySpacing : α
  counter : Option UInt32 := none
  linear : Bool := false
  parallel : Bool := false
  packer : Packer α := {}
  activations : ActivationTracker α := {}
  geometry : GeometryMap α := []
  /-- Boxes of participants that a message created, where that message put them. -/
  created : List (String × Rect α) := []
  endings : List (String × Ending α) := []
  /-- Participants to be destroyed by their next message. -/
  doomed : List String := []
  frames : List NodeId := []
  bottomParticipants : Bool := false

namespace Progress
variable {α : Type}

def start [Scalar α] (bodyTop : α) : Progress α where
  cursor := bodyTop
  deepest := bodyTop
  entrySpacing := Scalar.ofNat 1

def closeLevel (progress : Progress α) : Progress α :=
  { progress with packer := progress.packer.close }

def draw (progress : Progress α) (id : NodeId) (geometry : Geometry α) : Progress α :=
  { progress with geometry := progress.geometry.insert id geometry }

variable [Scalar α]

def isPacking (progress : Progress α) : Bool :=
  progress.linear || progress.parallel

def advance (progress : Progress α) (height : α) : Progress α :=
  { progress with cursor := progress.cursor + height }

/-- Takes a row below everything placed so far; the row starts at the former cursor. -/
def stack (progress : Progress α) (height : α) : Progress α :=
  progress.closeLevel.advance height

/-- Where a message slot starts: on the open level if packing finds room there, else at the
cursor. -/
def slotTop (progress : Progress α) (span : Span α) : α :=
  if progress.isPacking then (progress.packer.place? span).getD progress.cursor
  else progress.cursor

/-- Takes the slot that starts at `slotTop`. -/
def reserve (progress : Progress α) (span : Span α) (height : α) : Progress α :=
  if progress.isPacking then
    let top := progress.slotTop span
    let packer := progress.packer.claim span top (top + height)
    { progress with
      packer
      cursor := match packer.bottom? with
        | some bottom => Scalar.max progress.cursor bottom
        | none => progress.cursor }
  else progress.stack height

/-- Ends a lifeline, unless it has ended before, and every activation on it. -/
def endLifeline (progress : Progress α) (key : String) (y : α) (kind : LifelineEnd) :
    Progress α :=
  { progress with
    activations := progress.activations.deactivateAll key y
    endings :=
      if (progress.endings.lookup key).isSome then progress.endings
      else (key, ⟨y, kind⟩) :: progress.endings }

def destroyDoomed (progress : Progress α) (y : α) (key : String) : Progress α :=
  if progress.doomed.contains key then
    { progress with doomed := progress.doomed.filter (· ≠ key) }.endLifeline key y .destroyed
  else progress

end Progress

end SequenceDiagram.Layout
