set_option autoImplicit false

namespace SequenceDiagram

inductive Json
  | null
  | bool (value : Bool)
  | int (value : Int)
  | float (value : Float)
  | str (value : String)
  | arr (items : List Json)
  | obj (fields : List (String × Json))

namespace Json

def nat (n : Nat) : Json := .int n

def word (n : UInt32) : Json := .int n.toNat

def option {α : Type} (encode : α → Json) : Option α → Json
  | some a => encode a
  | none => .null

def field? {α : Type} (name : String) (encode : α → Json) : Option α → List (String × Json)
  | some a => [(name, encode a)]
  | none => []

def get? (key : String) : Json → Option Json
  | .obj fields => fields.lookup key
  | _ => none

/-- The double nearest to a whole number of at most 64 bits. -/
def floatOfInt (n : Int) : Float :=
  if n < 0 then -n.natAbs.toUInt64.toFloat else n.natAbs.toUInt64.toFloat

def toFloat? : Json → Option Float
  | .int n => some (floatOfInt n)
  | .float x => some x
  | _ => none

end Json

end SequenceDiagram
