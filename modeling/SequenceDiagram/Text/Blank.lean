import SequenceDiagram.Text.CharClass

set_option autoImplicit false

/-!
# Blank characters

A character is blank when it has the Unicode property `White_Space`. The words of a line, the
trimming of its ends and the test whether an alias is one word all use this one class.
-/
namespace SequenceDiagram.Text

/-- Code point ranges of the property `White_Space`, ends included. -/
def blank : CharClass :=
  [(0x0009, 0x000D), (0x0020, 0x0020), (0x0085, 0x0085), (0x00A0, 0x00A0), (0x1680, 0x1680),
   (0x2000, 0x200A), (0x2028, 0x2029), (0x202F, 0x202F), (0x205F, 0x205F), (0x3000, 0x3000)]

def isBlank (c : Char) : Bool :=
  blank.has c

def trimStart (text : List Char) : List Char :=
  text.dropWhile isBlank

def trimEnd (text : List Char) : List Char :=
  (text.reverse.dropWhile isBlank).reverse

def trim (text : List Char) : List Char :=
  trimEnd (trimStart text)

theorem trimStart_eq_self {c : Char} {text : List Char} (h : isBlank c = false) :
    trimStart (c :: text) = c :: text := by
  simp [trimStart, h]

theorem length_trimStart_le (text : List Char) : (trimStart text).length ≤ text.length :=
  (List.dropWhile_sublist isBlank).length_le

end SequenceDiagram.Text
