import SequenceDiagram.Diagram.Style
import SequenceDiagram.Number.Magnitude

set_option autoImplicit false

namespace SequenceDiagram

inductive ParticipantSpacing
  | equal
  | gap (amount : Magnitude)
deriving DecidableEq, Repr

inductive Directive
  | title (text : String)
  | entrySpacing (factor : Magnitude)
  /-- Numbers messages from `start` on, or stops numbering. -/
  | autonumber (start : Option UInt32)
  | space (steps : Int32)
  | participantSpacing (spacing : ParticipantSpacing)
  | lifelineStyle (participant : Option String) (style : Style)
  | linear (on : Bool)
  | parallel (on : Bool)
  | bottomParticipants
  | fontFamily (family : String)
  | frame (label : String) (style : Option Style)
  | destroy (participant : String)
  | destroyAfter (participant : String)
  | destroySilent (participant : String)
  | activate (participant : String) (color : Option String)
  | deactivate (participant : String)
  | deactivateAfter (participant : String)
  | autoActivation (on : Bool)
  | activeColor (color : String)
  | namedStyle (name : String) (style : Style)
  | typeStyle (target : StyleTarget) (style : Style)
deriving DecidableEq, Repr

namespace Directive

/-- The participant that a directive brings into the diagram. -/
def mention? : Directive → Option String
  | .activate participant _ => some participant
  | .deactivate participant => some participant
  | .deactivateAfter participant => some participant
  | .destroy participant => some participant
  | .destroyAfter participant => some participant
  | .destroySilent participant => some participant
  | .lifelineStyle participant _ => participant
  | .title _ | .entrySpacing _ | .autonumber _ | .space _ | .participantSpacing _ | .linear _
  | .parallel _ | .bottomParticipants | .fontFamily _ | .frame _ _ | .autoActivation _
  | .activeColor _ | .namedStyle _ _ | .typeStyle _ _ => none

end Directive

end SequenceDiagram
