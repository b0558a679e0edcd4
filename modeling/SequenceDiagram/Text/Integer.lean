set_option autoImplicit false

namespace SequenceDiagram.Text

def writeNat (n : Nat) : List Char :=
  Nat.toDigits 10 n

def readNat? (text : List Char) : Option Nat :=
  if text ≠ [] ∧ text.all Char.isDigit then some (Nat.ofDigitChars 10 text 0) else none

theorem readNat?_writeNat (n : Nat) : readNat? (writeNat n) = some n := by
  have digits : (Nat.toDigits 10 n).all Char.isDigit = true :=
    List.all_eq_true.2 fun c hc => Nat.isDigit_of_mem_toDigits (by decide) (by decide) hc
  have nonempty : Nat.toDigits 10 n ≠ [] := Nat.toDigits_ne_nil
  simp [readNat?, writeNat, digits, nonempty, Nat.ofDigitChars_toDigits]

def writeUInt32 (n : UInt32) : List Char :=
  writeNat n.toNat

def readUInt32? (text : List Char) : Option UInt32 :=
  let digits := match text with
    | '+' :: digits => digits
    | digits => digits
  match readNat? digits with
  | some n => if n < UInt32.size then some (UInt32.ofNat n) else none
  | none => none

def writeInt32 (n : Int32) : List Char :=
  match n.toInt with
  | .ofNat m => writeNat m
  | .negSucc m => '-' :: writeNat (m + 1)

def readInt32? (text : List Char) : Option Int32 :=
  let value : Option Int := match text with
    | '-' :: digits => (readNat? digits).map fun n => -(n : Int)
    | '+' :: digits => (readNat? digits).map fun n => (n : Int)
    | digits => (readNat? digits).map fun n => (n : Int)
  match value with
  | some n =>
    if Int32.minValue.toInt ≤ n ∧ n ≤ Int32.maxValue.toInt then some (Int32.ofInt n) else none
  | none => none

end SequenceDiagram.Text
