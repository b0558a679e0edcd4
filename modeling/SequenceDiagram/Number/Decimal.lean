import SequenceDiagram.Number.Magnitude
import SequenceDiagram.Text.Word
import SequenceDiagram.Text.Integer

set_option autoImplicit false

namespace SequenceDiagram

structure Decimal where
  digits : Nat
  exponent : Int
deriving DecidableEq, Repr

/-- What becomes of a value midway between two shortest decimals. -/
inductive TieRule
  | away
  | toEven
deriving DecidableEq, Repr

namespace Decimal

def toRat (d : Decimal) : Rat :=
  (d.digits : Rat) * (10 : Rat) ^ d.exponent

/-- The same number without trailing zero digits. -/
def reduce (digits : Nat) (exponent : Int) : Decimal :=
  if digits = 0 ∨ digits % 10 ≠ 0 then ⟨digits, exponent⟩
  else reduce (digits / 10) (exponent + 1)
termination_by digits
decreasing_by omega

/-- The nearest double. Numbers of `1e309` and more overflow and numbers below `1e-324` vanish,
which is settled before any large power is computed. -/
def magnitude? (d : Decimal) : Option Magnitude :=
  if d.digits = 0 then none
  else
    let order := (Nat.toDigits 10 d.digits).length + d.exponent
    if order < -324 ∨ 310 < order then none else Magnitude.ofRat? d.toRat

/-- The number of digits before the point of `numerator / denominator`, negative when zeros
follow the point. -/
def integerDigits (numerator denominator : Nat) : Int :=
  let estimate : Int :=
    (Nat.toDigits 10 numerator).length - (Nat.toDigits 10 denominator).length
  if numerator * Nat.pow 10 (-estimate).toNat < denominator * Nat.pow 10 estimate.toNat then
    estimate
  else estimate + 1

/-- The decimal with the given number of digits that is nearest to `m`, among those that round
to `m`. -/
def onGrid? (tie : TieRule) (m : Magnitude) (count : Nat) : Option Decimal :=
  let numerator := m.toRat.num.toNat
  let denominator := m.toRat.den
  let unit := integerDigits numerator denominator - count
  let scaledNumerator := numerator * Nat.pow 10 (-unit).toNat
  let scaledDenominator := denominator * Nat.pow 10 unit.toNat
  let below := scaledNumerator / scaledDenominator
  let twice := 2 * (scaledNumerator % scaledDenominator)
  let lower : Decimal := reduce below unit
  let upper : Decimal := reduce (below + 1) unit
  let upperNearer := scaledDenominator < twice ∨
    (twice = scaledDenominator ∧ (tie = .away ∨ below % 2 = 1))
  if lower.magnitude? = some m then
    if upper.magnitude? = some m ∧ upperNearer then some upper else some lower
  else if upper.magnitude? = some m then some upper
  else none

def exact (m : Magnitude) : Decimal :=
  if 0 ≤ m.exponent then ⟨m.significand <<< m.exponent.toNat, 0⟩
  else ⟨m.significand * Nat.pow 5 (-m.exponent).toNat, m.exponent⟩

/-- The fewest digits that round to `m`. Seventeen are enough for every double. -/
def shortest (tie : TieRule) (m : Magnitude) : Decimal :=
  ((List.range 17).findSome? fun i => onGrid? tie m (i + 1)).getD (exact m)

/-- Plain text: never an exponent, a point only before a fraction. -/
def write (d : Decimal) : List Char :=
  let digits := Text.writeNat d.digits
  match d.exponent with
  | .ofNat zeros => digits ++ List.replicate zeros '0'
  | .negSucc places =>
    let places := places + 1
    if places < digits.length then
      digits.take (digits.length - places) ++ '.' :: digits.drop (digits.length - places)
    else '0' :: '.' :: (List.replicate (places - digits.length) '0' ++ digits)

/-- Reads digits with at most one point and at least one digit. -/
def readMantissa? (text : List Char) : Option Decimal :=
  match Text.cut? '.' text with
  | none => (Text.readNat? text).map fun n => ⟨n, 0⟩
  | some (whole, fraction) =>
    (Text.readNat? (whole ++ fraction)).map fun n => ⟨n, -(fraction.length : Int)⟩

def readExponent? (text : List Char) : Option Int :=
  match text with
  | '-' :: digits => (Text.readNat? digits).map fun n => -(n : Int)
  | '+' :: digits => (Text.readNat? digits).map fun n => (n : Int)
  | digits => (Text.readNat? digits).map fun n => (n : Int)

/-- Reads an unsigned decimal, or one with a plus sign. -/
def read? (text : List Char) : Option Decimal :=
  let unsigned := match text with
    | '+' :: rest => rest
    | rest => rest
  let mantissa := unsigned.takeWhile fun c => c ≠ 'e' && c ≠ 'E'
  match unsigned.dropWhile fun c => c ≠ 'e' && c ≠ 'E' with
  | [] => readMantissa? mantissa
  | _ :: exponent => do
    let d ← readMantissa? mantissa
    let e ← readExponent? exponent
    some ⟨d.digits, d.exponent + e⟩

end Decimal

namespace Magnitude

def write (m : Magnitude) : List Char :=
  (Decimal.shortest .away m).write

def read? (text : List Char) : Option Magnitude :=
  (Decimal.read? text).bind Decimal.magnitude?

end Magnitude

end SequenceDiagram
