import SequenceDiagram.Text.Word

set_option autoImplicit false

namespace SequenceDiagram

inductive AliasError
  | empty
  | containsWhitespace
  | startsWithMarker (marker : Char)
  | reservedChar (reserved : Char)
deriving DecidableEq, Repr

namespace AliasError

def message : AliasError → String
  | .empty => "must not be empty"
  | .containsWhitespace => "must not contain whitespace"
  | .startsWithMarker marker => "must not start with '" ++ marker.toString ++ "'"
  | .reservedChar reserved => "contains reserved character: '" ++ reserved.toString ++ "'"

end AliasError

namespace Alias

def markers : List Char := ['#', '-', '=']

def reserved : List Char := [':', ',', '[', ']', '(', ')', '*', '"', '<', '>', ';']

def check (text : List Char) : Except AliasError Unit :=
  match text with
  | [] => .error .empty
  | first :: _ =>
    if text.any Text.isBlank then .error .containsWhitespace
    else if markers.contains first then .error (.startsWithMarker first)
    else match text.find? reserved.contains with
      | some c => .error (.reservedChar c)
      | none => .ok ()

def isValid (text : List Char) : Bool :=
  match check text with
  | .ok () => true
  | .error _ => false

def read? (text : List Char) : Option String :=
  if isValid text then some (String.ofList text) else none

def readOnly? (text : List Char) : Option String :=
  match Text.nextWord? text with
  | some (word, []) => read? word
  | _ => none

end Alias

end SequenceDiagram
