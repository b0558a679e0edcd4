import SequenceDiagram.Text.GraphemeExtend
import SequenceDiagram.Text.Printable

set_option autoImplicit false

namespace SequenceDiagram.Text

def escapeCodePoint (c : Char) : List Char :=
  ['\\', 'u', '\x7b'] ++ Nat.toDigits 16 c.toNat ++ ['\x7d']

def quoteChar (c : Char) : List Char :=
  if c = '"' then ['\\', '"']
  else if c = '\\' then ['\\', '\\']
  else if c = '\n' then ['\\', 'n']
  else if c = '\r' then ['\\', 'r']
  else if c = '\t' then ['\\', 't']
  else if c = '\x00' then ['\\', '0']
  else if extendsGrapheme c || !isPrintable c then escapeCodePoint c
  else [c]

def quote (text : String) : String :=
  String.ofList ('"' :: (text.toList.flatMap quoteChar ++ ['"']))

/-- Of the printable ASCII characters only the quote and the backslash are written otherwise. -/
theorem quoteChar_of_ascii {c : Char} (low : 0x20 ≤ c.toNat) (high : c.toNat < 0x7F)
    (quote : c ≠ '"') (backslash : c ≠ '\\') : quoteChar c = [c] := by
  have printable := isPrintable_of_ascii low high
  have alone : extendsGrapheme c = false := extendsGrapheme_eq_false (by omega)
  have control (d : Char) (h : d.toNat < 0x20) : c ≠ d := by
    intro e
    rw [e] at low
    omega
  simp [quoteChar, quote, backslash, printable, alone, control '\n' (by decide),
    control '\r' (by decide), control '\t' (by decide), control '\x00' (by decide)]

end SequenceDiagram.Text
