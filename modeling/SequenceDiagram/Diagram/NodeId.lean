import SequenceDiagram.Text.Integer

set_option autoImplicit false

namespace SequenceDiagram

structure NodeId where
  number : UInt32
deriving DecidableEq, Repr

inductive NodeIdError
  | missingMarker
  | invalidNumber
deriving DecidableEq, Repr

namespace NodeIdError

def message : NodeIdError → String
  | .missingMarker => "node id must start with 'n'"
  | .invalidNumber => "node id must be 'n' followed by a number"

end NodeIdError

namespace NodeId

def offset (first : UInt32) (count : Nat) : NodeId :=
  ⟨first + UInt32.ofNat count⟩

def toText (id : NodeId) : String :=
  "n" ++ toString id.number.toNat

def ofText (text : String) : Except NodeIdError NodeId :=
  match text.toList with
  | 'n' :: digits =>
    match Text.readUInt32? digits with
    | some number => .ok ⟨number⟩
    | none => .error .invalidNumber
  | _ => .error .missingMarker

end NodeId

end SequenceDiagram
