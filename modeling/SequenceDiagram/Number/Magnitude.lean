set_option autoImplicit false

/-!
# Positive finite doubles

A `Magnitude` is one positive finite double, kept as `significand · 2 ^ exponent` in its only
normal form. `ofRat?` rounds a rational number to the nearest double, ties to the even
significand, and refuses what rounds to zero or overflows. Spacing amounts are stored this way,
so that what is written and what is read back can be compared exactly.
-/
namespace SequenceDiagram

/-- The leading bit of a full significand, worth `2 ^ 52`. -/
def leadingBit : Nat := 0x10000000000000

/-- A significand of 53 bits, or a shorter one at the least exponent. -/
def IsNormalForm (significand : Nat) (exponent : Int) : Prop :=
  (leadingBit ≤ significand ∧ significand < 2 * leadingBit ∧ -1074 ≤ exponent ∧
    exponent ≤ 971) ∨
  (0 < significand ∧ significand < leadingBit ∧ exponent = -1074)

instance (significand : Nat) (exponent : Int) : Decidable (IsNormalForm significand exponent) :=
  inferInstanceAs (Decidable (_ ∨ _))

structure Magnitude where
  significand : Nat
  exponent : Int
  normal : IsNormalForm significand exponent
deriving DecidableEq, Repr

namespace Magnitude

def toRat (m : Magnitude) : Rat :=
  (m.significand : Rat) * (2 : Rat) ^ m.exponent

/-- Bits of the double: the exponent field counts from `-1074`. -/
def toBits (m : Magnitude) : UInt64 :=
  UInt64.ofNat ((m.exponent + 1074).toNat * leadingBit + m.significand)

def ofParts? (significand : Nat) (exponent : Int) : Option Magnitude :=
  if h : IsNormalForm significand exponent then some ⟨significand, exponent, h⟩ else none

/-- The value of the sign-free part of a double's bits; `none` for zero, infinity and NaN. -/
def ofBits? (bits : UInt64) : Option Magnitude :=
  let field : Nat := bits.toNat / leadingBit % 2048
  let fraction : Nat := bits.toNat % leadingBit
  if field = 2047 then none
  else if field = 0 then ofParts? fraction (-1074)
  else ofParts? (fraction + leadingBit) ((field : Int) - 1075)

/-- The quotient rounded to the nearest integer, a half to the even neighbour. -/
def roundHalfEven (numerator denominator : Nat) : Nat :=
  let quotient := numerator / denominator
  let twice := 2 * (numerator % denominator)
  if denominator < twice ∨ (twice = denominator ∧ quotient % 2 = 1) then quotient + 1
  else quotient

/-- The exponent at which `numerator / denominator` has 53 bits before the point. -/
def fullExponent (numerator denominator : Nat) : Int :=
  let estimate := (numerator.log2 : Int) - denominator.log2
  if numerator <<< (-estimate).toNat < denominator <<< estimate.toNat then estimate - 53
  else estimate - 52

/-- The nearest double of a fraction, ties to even. -/
def ofFraction? (numerator denominator : Nat) : Option Magnitude :=
  let exponent := max (fullExponent numerator denominator) (-1074)
  let significand :=
    roundHalfEven (numerator <<< (-exponent).toNat) (denominator <<< exponent.toNat)
  if significand = 2 * leadingBit then ofParts? leadingBit (exponent + 1)
  else ofParts? significand exponent

def ofRat? (value : Rat) : Option Magnitude :=
  if value.num ≤ 0 then none else ofFraction? value.num.toNat value.den

def one : Magnitude :=
  ⟨leadingBit, -52, by decide⟩

end Magnitude

end SequenceDiagram
