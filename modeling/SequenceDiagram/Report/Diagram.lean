import SequenceDiagram.Diagram.Document
import SequenceDiagram.Json.Value
import SequenceDiagram.Number.Scalar

set_option autoImplicit false

namespace SequenceDiagram

namespace NodeId

def toJson (id : NodeId) : Json := .word id.number

def listToJson (ids : List NodeId) : Json := .arr (ids.map toJson)

end NodeId

namespace Style

def toJson (style : Style) : Json :=
  .obj (
    Json.field? "fill" .str style.fill ++
    Json.field? "border" .str style.border ++
    Json.field? "border_width" .word style.borderWidth ++
    Json.field? "border_style" (fun s => .str s.keyword) style.borderStyle ++
    Json.field? "operator_color" .str style.operatorColor ++
    Json.field? "text_markup" .str style.textMarkup ++
    Json.field? "style_name" .str style.styleName)

def optionToJson (style : Option Style) : Json :=
  Json.option toJson style

end Style

def Magnitude.toJson (m : Magnitude) : Json :=
  .float (Scalar.ofMagnitude m)

namespace ParticipantType

def toJson : ParticipantType → Json
  | .shape known => .obj [("kind", .str known.keyword)]
  | .icon set code =>
    .obj [("kind", .str "icon"), ("set", .str set.keyword), ("code", .str code)]
  | .image data => .obj [("kind", .str "image"), ("data", .str data)]

end ParticipantType

namespace Participant

def toJson (participant : Participant) : Json :=
  .obj [
    ("participant_type", participant.type.toJson),
    ("alias", .str participant.key),
    ("display_name", .str participant.displayName),
    ("style", Style.optionToJson participant.style)]

end Participant

namespace Message

def toJson (message : Message) : Json :=
  .obj [
    ("from", .str message.source),
    ("to", .str message.target),
    ("arrow", .str message.arrow.name),
    ("delay", Json.option .word message.delay),
    ("is_create", .bool message.isCreate),
    ("style", Style.optionToJson message.style),
    ("label", .str message.label)]

end Message

namespace ElseClause

def toJson (clause : ElseClause) : Json :=
  .obj [
    ("condition", .str clause.condition),
    ("style", Style.optionToJson clause.style),
    ("entries", NodeId.listToJson clause.entries)]

end ElseClause

namespace Fragment

def toJson (fragment : Fragment) : Json :=
  .obj [
    ("fragment_type", .str fragment.type.keyword),
    ("condition", .str fragment.condition),
    ("style", Style.optionToJson fragment.style),
    ("entries", NodeId.listToJson fragment.entries),
    ("else_clauses", .arr (fragment.elseClauses.map ElseClause.toJson)),
    ("collapsed", Json.option .bool fragment.collapsed)]

end Fragment

namespace ParticipantGroup

def toJson (group : ParticipantGroup) : Json :=
  .obj [
    ("color", Json.option .str group.color),
    ("label", .str group.label),
    ("participants", .arr (group.participants.map .str)),
    ("nested_groups", NodeId.listToJson group.nestedGroups)]

end ParticipantGroup

namespace Note

def toJson (note : Note) : Json :=
  .obj [
    ("kind", .str note.kind.keyword),
    ("position", .str note.position.name),
    ("participants", .arr (note.participants.map .str)),
    ("style", Style.optionToJson note.style),
    ("text", .str note.text),
    ("block", .bool note.block)]

end Note

namespace ParticipantSpacing

def toJson : ParticipantSpacing → Json
  | .equal => .obj [("mode", .str "equal")]
  | .gap amount => .obj [("mode", .str "gap"), ("value", amount.toJson)]

end ParticipantSpacing

namespace Directive

def named (name : String) (value : Json) : Json :=
  .obj [("directive", .str name), ("value", value)]

def toJson : Directive → Json
  | .title text => named "title" (.str text)
  | .entrySpacing factor => named "entry_spacing" factor.toJson
  | .autonumber start => named "autonumber" (Json.option .word start)
  | .space steps => named "space" (.int steps.toInt)
  | .participantSpacing spacing => named "participant_spacing" spacing.toJson
  | .lifelineStyle participant style =>
    named "lifeline_style"
      (.obj [("participant", Json.option .str participant), ("style", style.toJson)])
  | .linear on => named "linear" (.bool on)
  | .parallel on => named "parallel" (.bool on)
  | .bottomParticipants => .obj [("directive", .str "bottom_participants")]
  | .fontFamily family => named "font_family" (.str family)
  | .frame label style =>
    named "frame" (.obj [("label", .str label), ("style", Style.optionToJson style)])
  | .destroy participant => named "destroy" (.str participant)
  | .destroyAfter participant => named "destroy_after" (.str participant)
  | .destroySilent participant => named "destroy_silent" (.str participant)
  | .activate participant color =>
    named "activate" (.obj [("participant", .str participant), ("color", Json.option .str color)])
  | .deactivate participant => named "deactivate" (.str participant)
  | .deactivateAfter participant => named "deactivate_after" (.str participant)
  | .autoActivation on => named "auto_activation" (.bool on)
  | .activeColor color => named "active_color" (.str color)
  | .namedStyle name style =>
    named "named_style" (.obj [("name", .str name), ("style", style.toJson)])
  | .typeStyle target style =>
    named "type_style" (.obj [("target", .str target.name), ("style", style.toJson)])

end Directive

namespace SyntaxFault

def kindName : SyntaxFaultKind → String
  | .unrecognizedSyntax => "unrecognized_syntax"
  | .unterminatedBlock => "unterminated_block"

def toJson (fault : SyntaxFault) : Json :=
  .obj [
    ("kind", .str (kindName fault.kind)),
    ("text", .str fault.text),
    ("message", .str fault.message)]

end SyntaxFault

namespace Element

def tagged (type : String) (data : Json) : List (String × Json) :=
  [("type", .str type), ("data", data)]

def toFields : Element → List (String × Json)
  | .participant p => tagged "participant" p.toJson
  | .message m => tagged "message" m.toJson
  | .fragment f => tagged "fragment" f.toJson
  | .group g => tagged "participant_group" g.toJson
  | .note n => tagged "note" n.toJson
  | .divider d =>
    tagged "divider" (.obj [("text", .str d.text), ("style", Style.optionToJson d.style)])
  | .comment text => tagged "comment" (.obj [("text", .str text)])
  | .blankLine => [("type", .str "blankline")]
  | .directive d => tagged "directive" d.toJson
  | .error fault => tagged "error" fault.toJson

def toJson (element : Element) : Json :=
  .obj element.toFields

end Element

namespace Node

def toJson (node : Node) : Json :=
  .obj ([
    ("id", node.id.toJson),
    ("line_start", .nat node.lineStart),
    ("line_end", .nat node.lineEnd)] ++ node.element.toFields)

end Node

namespace Document

def toJson (document : Document) : Json :=
  .obj [("nodes", .arr (document.nodes.map Node.toJson))]

end Document

end SequenceDiagram
