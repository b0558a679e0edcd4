import SequenceDiagram.Number.Magnitude

set_option autoImplicit false

/-!
# Coordinates

Layout is written once over a type of coordinates. It is run on doubles, where every operation
rounds and a NaN may appear, and it is reasoned about on rational numbers, where the same
formulas are exact.
-/
namespace SequenceDiagram

class Scalar (α : Type) extends Add α, Sub α, Mul α, Div α, LT α, LE α where
  ofNat : Nat → α
  ofInt : Int → α
  ofMagnitude : Magnitude → α
  /-- Numeric equality: a NaN equals nothing, the two zeros are equal. -/
  same : α → α → Bool
  isFinite : α → Bool
  /-- A total order in which the two zeros differ and every NaN has a place. -/
  order : α → α → Ordering
  decidableLT : DecidableLT α
  decidableLE : DecidableLE α

namespace Scalar
variable {α : Type} [Scalar α]

instance (priority := low) : DecidableLT α := Scalar.decidableLT

instance (priority := low) : DecidableLE α := Scalar.decidableLE

/-- The greater of two numbers; a NaN gives way to the other one. -/
def max (x y : α) : α :=
  if same x x then (if x < y then y else x) else y

/-- The lesser of two numbers; a NaN gives way to the other one. -/
def min (x y : α) : α :=
  if same x x then (if y < x then y else x) else y

def twice (x : α) : α :=
  ofNat 2 * x

def half (x : α) : α :=
  x / ofNat 2

end Scalar

def signBit : Nat := 0x8000000000000000

/-- A key that orders doubles from `-NaN` through `-∞`, the negative and the positive numbers to
`NaN`. -/
def floatKey (x : Float) : Int :=
  let bits := x.toBits.toNat
  if bits < signBit then bits else signBit - 1 - (bits : Int)

instance : Scalar Float where
  toLT := instLTFloat
  toLE := instLEFloat
  ofNat := Float.ofNat
  ofInt := Float.ofInt
  ofMagnitude m := Float.ofBits m.toBits
  same x y := x == y
  isFinite := Float.isFinite
  order x y := compare (floatKey x) (floatKey y)
  decidableLT := Float.decLt
  decidableLE := Float.decLe

instance : Scalar Rat where
  toAdd := Rat.instAdd
  toSub := Rat.instSub
  toMul := Rat.instMul
  toDiv := Rat.instDiv
  toLT := Rat.instLT
  toLE := Rat.instLE
  ofNat n := (n : Rat)
  ofInt n := (n : Rat)
  ofMagnitude := Magnitude.toRat
  same x y := decide (x = y)
  isFinite _ := true
  order x y := if x < y then .lt else if x = y then .eq else .gt
  decidableLT := Rat.instDecidableLt
  decidableLE := Rat.instDecidableLe

theorem Scalar.same_rat (x y : Rat) : Scalar.same x y = decide (x = y) := rfl

theorem Scalar.max_rat (x y : Rat) : Scalar.max x y = if x < y then y else x := by
  simp [Scalar.max, Scalar.same_rat]

theorem Scalar.min_rat (x y : Rat) : Scalar.min x y = if y < x then y else x := by
  simp [Scalar.min, Scalar.same_rat]

end SequenceDiagram
