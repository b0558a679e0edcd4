import SequenceDiagram.Text.Word

set_option autoImplicit false

namespace SequenceDiagram

namespace Color

/-- A color is `#` with letters and digits. -/
def isValid : List Char → Bool
  | '#' :: name => !name.isEmpty && name.all Char.isAlphanum
  | _ => false

def read? (word : List Char) : Option String :=
  if isValid word then some (String.ofList word) else none

end Color

namespace StyleName

def isNameChar (c : Char) : Bool :=
  c.isAlphanum || c = '_' || c = '-'

def isValid (name : List Char) : Bool :=
  !name.isEmpty && name.all isNameChar

end StyleName

namespace StyleRun

def looksLikeStyle : List Char → Bool
  | '#' :: '#' :: name => StyleName.isValid name
  | ';' :: _ => true
  | word => Color.isValid (word.takeWhile (· ≠ ';'))

def splitWhile (test : List Char → Bool) (text : List Char) : List (List Char) × List Char :=
  match _h : Text.nextWord? text with
  | none => ([], [])
  | some (word, rest) =>
    if test word then
      let (run, rest) := splitWhile test rest
      (word :: run, rest)
    else ([], Text.trimStart text)
termination_by text.length
decreasing_by exact Text.length_lt_of_nextWord? _h

def splitLeading (text : List Char) : List (List Char) × List Char :=
  splitWhile looksLikeStyle text

def splitTrailing (text : List Char) : List Char × List (List Char) :=
  let (run, rest) := splitWhile (fun word => looksLikeStyle word.reverse) text.reverse
  (rest.reverse, (run.map List.reverse).reverse)

end StyleRun

end SequenceDiagram
