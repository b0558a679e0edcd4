import SequenceDiagram.Layout.Geometry

set_option autoImplicit false

namespace SequenceDiagram.Layout

structure OpenActivation (α : Type) where
  participant : String
  startY : α
  color : Option String
deriving DecidableEq, Repr

structure ActivationInterval (α : Type) where
  participant : String
  startY : α
  endY : α
  depth : Nat
  color : Option String
deriving DecidableEq, Repr

/-- A call that opened an activation by itself. -/
structure ImplicitCall where
  caller : String
  callee : String
deriving DecidableEq, Repr

structure ActivationTracker (α : Type) where
  /-- Open activations of all participants, the latest first. -/
  active : List (OpenActivation α) := []
  automatic : Bool := false
  /-- Unanswered implicit calls, the latest first. -/
  calls : List ImplicitCall := []
  color : Option String := none
  /-- Closed activations, the latest first. -/
  finished : List (ActivationInterval α) := []
deriving DecidableEq, Repr

namespace ActivationTracker
variable {α : Type}

def setAutomatic (tracker : ActivationTracker α) (on : Bool) : ActivationTracker α :=
  { tracker with automatic := on }

/-- The color of activations that name none. -/
def setColor (tracker : ActivationTracker α) (color : String) : ActivationTracker α :=
  { tracker with color := some color }

def isOf (participant : String) (activation : OpenActivation α) : Bool :=
  activation.participant = participant

def depth (tracker : ActivationTracker α) (participant : String) : Nat :=
  tracker.active.countP (isOf participant)

def activate (tracker : ActivationTracker α) (participant : String) (y : α)
    (color : Option String) : ActivationTracker α :=
  { tracker with active := ⟨participant, y, color.or tracker.color⟩ :: tracker.active }

variable [Scalar α]

def interval (activation : OpenActivation α) (y : α) (depth : Nat) : ActivationInterval α where
  participant := activation.participant
  startY := activation.startY
  endY := Scalar.max y activation.startY
  depth := depth
  color := activation.color

/-- Closes the innermost activation of a participant; none when nothing is open. -/
def deactivate? (tracker : ActivationTracker α) (participant : String) (y : α) :
    Option (ActivationTracker α) :=
  match tracker.active.find? (isOf participant) with
  | none => none
  | some activation =>
    let active := tracker.active.eraseP (isOf participant)
    some { tracker with
      active
      finished :=
        interval activation y (active.countP (isOf participant)) :: tracker.finished }

def deactivate (tracker : ActivationTracker α) (participant : String) (y : α) :
    ActivationTracker α :=
  (tracker.deactivate? participant y).getD tracker

/-- Closes so many activations of a participant, the innermost first. -/
def deactivateTimes (participant : String) (y : α) :
    Nat → ActivationTracker α → ActivationTracker α
  | 0, tracker => tracker
  | count + 1, tracker => deactivateTimes participant y count (tracker.deactivate participant y)

def involves (participant : String) (call : ImplicitCall) : Bool :=
  call.caller = participant || call.callee = participant

/-- Closes every activation of a participant and forgets the calls that it takes part in. -/
def deactivateAll (tracker : ActivationTracker α) (participant : String) (y : α) :
    ActivationTracker α :=
  let closed := deactivateTimes participant y (tracker.depth participant) tracker
  { closed with calls := closed.calls.filter fun call => !involves participant call }

/-- A message that answers an implicit call closes an activation of its sender. Any other one
activates a receiver that has nothing open, if activation is automatic. -/
def onMessage (tracker : ActivationTracker α) (sender receiver : String) (sendY arriveY : α) :
    ActivationTracker α :=
  let answered : ImplicitCall := ⟨receiver, sender⟩
  if tracker.calls.contains answered then
    { tracker with calls := tracker.calls.erase answered }.deactivate sender sendY
  else if tracker.automatic && sender ≠ receiver && tracker.depth receiver = 0 then
    let opened := tracker.activate receiver arriveY none
    { opened with calls := ⟨sender, receiver⟩ :: opened.calls }
  else tracker

/-- The intervals of activations that are all closed at `endY`, the latest opened first. -/
def closing (endY : α) : List (OpenActivation α) → List (ActivationInterval α)
  | [] => []
  | activation :: rest =>
    interval activation endY (rest.countP (isOf activation.participant)) :: closing endY rest

/-- Order of finished intervals: participant, start, depth. -/
def before (a b : ActivationInterval α) : Bool :=
  ((compare a.participant b.participant).then
    ((Scalar.order a.startY b.startY).then (compare a.depth b.depth))).isLE

def finish (tracker : ActivationTracker α) (endY : α) : List (ActivationInterval α) :=
  (tracker.finished.reverse ++ closing endY tracker.active).mergeSort before

end ActivationTracker

end SequenceDiagram.Layout
