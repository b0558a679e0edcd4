import SequenceDiagram.Line.BlockLine
import SequenceDiagram.Line.DirectiveLine
import SequenceDiagram.Line.MessageLine
import SequenceDiagram.Line.NoteLine
import SequenceDiagram.Line.ParticipantLine

set_option autoImplicit false

namespace SequenceDiagram

inductive Line
  | blank
  | comment (text : String)
  | directive (directive : Directive)
  | divider (divider : Divider)
  | note (note : Note)
  | fragment (head : Fragment)
  | group (head : ParticipantGroup)
  | participant (participant : Participant)
  | message (message : Message)
  | unrecognized
deriving DecidableEq, Repr

namespace Line

def readComment? (line : List Char) : Option String :=
  match line with
  | '/' :: '/' :: text => some (String.ofList text)
  | '#' :: text => some (String.ofList text)
  | _ => none

def read (line : List Char) : Line :=
  if line = [] then blank
  else if let some text := readComment? line then comment text
  else if let some d := Directive.read? line then directive d
  else if let some d := Divider.read? line then divider d
  else if let some n := Note.read? line then note n
  else if let some f := Fragment.readHead? line then fragment f
  else if let some g := ParticipantGroup.readHead? line then group g
  else if let some p := Participant.read? line then participant p
  else if let some m := Message.read? line then message m
  else unrecognized

end Line

end SequenceDiagram
