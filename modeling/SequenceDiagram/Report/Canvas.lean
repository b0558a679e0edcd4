import SequenceDiagram.Json.Value
import SequenceDiagram.Layout.Canvas

set_option autoImplicit false

namespace SequenceDiagram.Layout

namespace Rect

def toFields (rect : Rect Float) : List (String × Json) :=
  [("x", .float rect.x), ("y", .float rect.y), ("width", .float rect.width),
   ("height", .float rect.height)]

def toJson (rect : Rect Float) : Json :=
  .obj rect.toFields

end Rect

namespace MessageGeometry

def toFields (message : MessageGeometry Float) : List (String × Json) :=
  [("y", .float message.y), ("end_y", .float message.endY), ("from_x", .float message.fromX),
   ("to_x", .float message.toX), ("height", .float message.height)] ++
  Json.field? "number" .word message.number

end MessageGeometry

namespace FragmentGeometry

def toFields (fragment : FragmentGeometry Float) : List (String × Json) :=
  fragment.rect.toFields ++ [("else_ys", .arr (fragment.elseYs.map .float))]

end FragmentGeometry

namespace Geometry

def toJson : Geometry Float → Json
  | .box r => .obj (("shape", .str "box") :: r.toFields)
  | .message m => .obj (("shape", .str "message") :: m.toFields)
  | .fragment f => .obj (("shape", .str "fragment") :: f.toFields)

end Geometry

namespace ActivationBar

def toJson (bar : ActivationBar Float) : Json :=
  .obj ([("participant", .str bar.participant), ("start_y", .float bar.startY),
    ("end_y", .float bar.endY), ("depth", .nat bar.depth), ("x", .float bar.x),
    ("width", .float bar.width)] ++ Json.field? "color" .str bar.color)

end ActivationBar

namespace Lifeline

def toJson (lifeline : Lifeline Float) : Json :=
  .obj [("participant", .str lifeline.participant), ("x", .float lifeline.x),
    ("start_y", .float lifeline.startY), ("end_y", .float lifeline.endY),
    ("end", .str lifeline.endKind.name)]

end Lifeline

namespace Canvas

def geometryToJson (geometry : GeometryMap Float) : Json :=
  .obj ((geometry.mergeSort fun a b => a.1.number ≤ b.1.number).map fun entry =>
    (toString entry.1.number.toNat, entry.2.toJson))

def boxesToJson (boxes : List (String × Rect Float)) : Json :=
  .obj ((boxes.mergeSort fun a b => decide (¬ b.1 < a.1)).map fun box => (box.1, box.2.toJson))

def toJson (canvas : Canvas Float) : Json :=
  .obj ([
    ("layout", geometryToJson canvas.geometry),
    ("participant_layout", boxesToJson canvas.boxes),
    ("participant_order", .arr (canvas.order.map .str))] ++
    (if canvas.footers.isEmpty then [] else [("footer_layout", boxesToJson canvas.footers)]) ++
    [("activations", .arr (canvas.bars.map ActivationBar.toJson)),
     ("lifelines", .arr (canvas.lifelines.map Lifeline.toJson))] ++
    Json.field? "frame" Rect.toJson canvas.frame ++
    [("total_height", .float canvas.height), ("total_width", .float canvas.width)])

end Canvas

end SequenceDiagram.Layout
