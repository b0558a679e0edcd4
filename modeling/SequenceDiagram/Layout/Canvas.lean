import SequenceDiagram.Layout.Placement

set_option autoImplicit false

namespace SequenceDiagram.Layout

structure Canvas (α : Type) where
  geometry : GeometryMap α
  /-- Participant boxes from left to right. -/
  boxes : List (String × Rect α)
  /-- Boxes repeated below the lifelines. -/
  footers : List (String × Rect α)
  bars : List (ActivationBar α)
  lifelines : List (Lifeline α)
  frame : Option (Rect α)
  height : α
  width : α

namespace Canvas
variable {α : Type}

def order (canvas : Canvas α) : List String :=
  canvas.boxes.map Prod.fst

def get? (canvas : Canvas α) (id : NodeId) : Option (Geometry α) :=
  canvas.geometry.get? id

def box? (canvas : Canvas α) (key : String) : Option (Rect α) :=
  canvas.boxes.lookup key

def footer? (canvas : Canvas α) (key : String) : Option (Rect α) :=
  canvas.footers.lookup key

def lifeline? (canvas : Canvas α) (key : String) : Option (Lifeline α) :=
  canvas.lifelines.find? fun lifeline => lifeline.participant = key

def barsOf (canvas : Canvas α) (key : String) : List (ActivationBar α) :=
  canvas.bars.filter fun bar => bar.participant = key

end Canvas

namespace Setting
variable {α : Type} [Scalar α]

def lifelineBottom (setting : Setting α) (progress : Progress α) : α :=
  Scalar.max progress.cursor progress.deepest + setting.config.lifelineTopGap

def finalBoxes (setting : Setting α) (progress : Progress α) : List (String × Rect α) :=
  setting.columns.boxes.map fun column =>
    (column.1, (progress.created.lookup column.1).getD column.2)

def endingOf (setting : Setting α) (progress : Progress α) (key : String) : Ending α :=
  (progress.endings.lookup key).getD ⟨setting.lifelineBottom progress, .bottom⟩

def lifelineOf (setting : Setting α) (progress : Progress α) (box : String × Rect α) :
    Lifeline α :=
  let ending := setting.endingOf progress box.1
  { participant := box.1
    x := box.2.centerX
    startY := box.2.bottom
    endY := Scalar.max ending.y box.2.bottom
    endKind := ending.kind }

def footerBoxes (setting : Setting α) (progress : Progress α) : List (String × Rect α) :=
  if progress.bottomParticipants then
    ((setting.finalBoxes progress).filter fun box =>
      (setting.endingOf progress box.1).kind = .bottom).map fun box =>
        (box.1, { box.2 with y := setting.lifelineBottom progress })
  else []

def contentBottom (setting : Setting α) (progress : Progress α) : α :=
  let bottom := setting.lifelineBottom progress
  if (setting.footerBoxes progress).isEmpty then bottom
  else bottom + setting.config.participantHeight

/-- The bar of an interval, half a width further right for each one under it. -/
def barOf (setting : Setting α) (box : Rect α) (interval : ActivationInterval α) :
    ActivationBar α :=
  let width := setting.config.activationWidth
  { participant := interval.participant
    startY := interval.startY
    endY := interval.endY
    depth := interval.depth
    x := box.centerX - Scalar.half width + Scalar.half (Scalar.ofNat interval.depth * width)
    width
    color := interval.color }

def activationBars (setting : Setting α) (progress : Progress α) : List (ActivationBar α) :=
  let boxes := setting.finalBoxes progress
  (progress.activations.finish (setting.lifelineBottom progress)).filterMap fun interval =>
    (boxes.lookup interval.participant).map fun box => setting.barOf box interval

def boxSpan (box : Rect α) : Span α :=
  ⟨box.x, box.right⟩

/-- The box around a group: its members' columns and those of the groups in it, padded for every
level of groups. A group without members has none. -/
def groupBox? (setting : Setting α) (rowTop : α) (progress : Progress α) (node : Node) :
    Option (Rect α) :=
  let boxes := setting.finalBoxes progress
  let inside := setting.document.tourUnder .nestedGroups node
  let aliases := node.element.groupAliases ++
    inside.labels.flatMap fun node => node.element.groupAliases
  let members := aliases.filterMap fun key => boxes.lookup key
  (Span.cover? (members.map boxSpan)).map fun extent =>
    let pad := setting.config.fragmentPadding * Scalar.ofNat (inside.nesting Element.isGroup + 1)
    let top := rowTop - pad
    ⟨extent.left - pad, top, extent.right - extent.left + Scalar.twice pad,
      setting.contentBottom progress + pad - top⟩

def drawParticipants (setting : Setting α) (progress : Progress α) (geometry : GeometryMap α) :
    GeometryMap α :=
  let boxes := setting.finalBoxes progress
  setting.document.nodes.foldl
    (fun geometry node =>
      match node.element with
      | .participant p =>
        match boxes.lookup p.key with
        | some box => geometry.insert node.id (.box box)
        | none => geometry
      | _ => geometry)
    geometry

def drawGroups (setting : Setting α) (rowTop : α) (progress : Progress α)
    (geometry : GeometryMap α) : GeometryMap α :=
  setting.document.nodes.foldl
    (fun geometry node =>
      if node.element.isGroup then
        match setting.groupBox? rowTop progress node with
        | some box => geometry.insert node.id (.box box)
        | none => geometry
      else geometry)
    geometry

def unshifted (setting : Setting α) (rowTop : α) (progress : Progress α) : Canvas α where
  geometry :=
    setting.drawGroups rowTop progress (setting.drawParticipants progress progress.geometry)
  boxes := setting.finalBoxes progress
  footers := setting.footerBoxes progress
  bars := setting.activationBars progress
  lifelines := (setting.finalBoxes progress).map (setting.lifelineOf progress)
  frame := none
  height := setting.contentBottom progress + setting.config.margin
  width := setting.config.margin

end Setting

namespace Canvas
variable {α : Type} [Scalar α]

def shiftX (canvas : Canvas α) (dx : α) : Canvas α :=
  let shiftBox := fun (box : String × Rect α) => (box.1, box.2.shiftX dx)
  { canvas with
    geometry := canvas.geometry.map fun entry => (entry.1, entry.2.shiftX dx)
    boxes := canvas.boxes.map shiftBox
    footers := canvas.footers.map shiftBox
    bars := canvas.bars.map fun bar => { bar with x := bar.x + dx }
    lifelines := canvas.lifelines.map fun lifeline => { lifeline with x := lifeline.x + dx } }

def leftX? (canvas : Canvas α) : Option α :=
  match canvas.geometry.map (fun entry => entry.2.leftX) ++
      canvas.boxes.map fun box => box.2.x with
  | [] => none
  | x :: xs => some (xs.foldl Scalar.min x)

/-- Moves everything right so that nothing stands left of the margin. -/
def moveIn (canvas : Canvas α) (margin : α) : Canvas α :=
  match canvas.leftX? with
  | none => canvas
  | some left =>
    if Scalar.isFinite left && decide (left < margin) then canvas.shiftX (margin - left)
    else canvas

/-- The right end of a geometry, with the loop of a message that comes back to its lifeline. -/
def reach (config : Config α) : Geometry α → α
  | .message m =>
    if Scalar.same m.fromX m.toX then m.toX + config.selfMessageWidth else m.span.right
  | .box r => r.right
  | .fragment f => f.rect.right

def rightX (canvas : Canvas α) (config : Config α) : α :=
  (canvas.geometry.map (fun entry => reach config entry.2) ++
    canvas.boxes.map fun box => box.2.right).foldl Scalar.max config.margin

def widen (canvas : Canvas α) (config : Config α) : Canvas α :=
  { canvas with width := canvas.rightX config + config.margin }

def frameRect (canvas : Canvas α) (config : Config α) : Rect α :=
  let inset := Scalar.half config.margin
  ⟨inset, inset, canvas.width - config.margin, canvas.height - config.margin⟩

/-- Draws the frame for every frame directive. -/
def drawFrame (canvas : Canvas α) (config : Config α) (frames : List NodeId) : Canvas α :=
  if frames.isEmpty then canvas
  else
    let rect := canvas.frameRect config
    { canvas with
      frame := some rect
      geometry := frames.foldl (fun map id => GeometryMap.insert map id (.box rect))
        canvas.geometry }

end Canvas

/-- The title directive that counts: the last one. -/
def title? (document : Document) : Option (NodeId × String) :=
  document.nodes.reverse.findSome? fun node =>
    match node.element with
    | .directive (.title text) => some (node.id, text)
    | _ => none

section
variable {α : Type} [Scalar α]

def rowTop (document : Document) (config : Config α) : α :=
  config.margin + if (title? document).isSome then config.titleHeight else Scalar.ofNat 0

def setting (document : Document) (config : Config α) : Setting α :=
  let top := rowTop document config
  { document
    config
    columns := Columns.ofDocument document config top
    bodyTop := top + config.participantHeight + config.lifelineTopGap }

def titleBox (setting : Setting α) (text : String) : Rect α :=
  let config := setting.config
  let columns := setting.columns
  let x := if columns.isEmpty then config.margin else columns.left
  ⟨x, config.margin, Scalar.max (columns.right - x) (paddedWidth config text),
    config.titleHeight⟩

def drawTitle (setting : Setting α) (progress : Progress α) : Progress α :=
  match title? setting.document with
  | some (id, text) => progress.draw id (.box (titleBox setting text))
  | none => progress

def placeAll (setting : Setting α) : Progress α :=
  let start := drawTitle setting (Progress.start setting.bodyTop)
  (setting.placeRow start.linear start.parallel
    (setting.document.tour .openFragments) start).1

end

end Layout

namespace Document
open Layout
variable {α : Type} [Scalar α]

def layout (document : Document) (config : Config α) : Canvas α :=
  let setting := Layout.setting document config
  let progress := placeAll setting
  (((setting.unshifted (rowTop document config) progress).moveIn config.margin).widen
    config).drawFrame config progress.frames

end Document

end SequenceDiagram
