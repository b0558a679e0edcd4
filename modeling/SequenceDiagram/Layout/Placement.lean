import SequenceDiagram.Diagram.Tour
import SequenceDiagram.Layout.Progress

set_option autoImplicit false

namespace SequenceDiagram.Layout

namespace Setting
variable {α : Type} [Scalar α]

def band (setting : Setting α) : α × α :=
  let config := setting.config
  let columns := setting.columns
  if columns.isEmpty then (config.margin, config.participantMinWidth)
  else
    let left := columns.left - config.fragmentMargin
    (left, columns.right + config.fragmentMargin - left)

def placeBand (setting : Setting α) (id : NodeId) (height : α) (progress : Progress α) :
    Progress α :=
  let band := setting.band
  (progress.stack height).draw id (.box ⟨band.1, progress.cursor, band.2, height⟩)

/-- The measures of a message before it is placed. -/
structure MessageShape (α : Type) where
  fromX : α
  toX : α
  /-- From the top of the slot to where the arrow starts. -/
  lead : α
  /-- Drop of a delayed arrow. -/
  delay : α
  /-- Drop of the loop of a message from a participant to itself. -/
  loop : α
  span : Span α

def messageShape? (setting : Setting α) (spacing : α) (message : Message) :
    Option (MessageShape α) := do
  let config := setting.config
  let fromX ← setting.columns.center? message.source
  let toX ← setting.columns.center? message.target
  let extraLines : α := Scalar.ofNat (lineCount message.label - 1)
  some {
    fromX
    toX
    lead := config.messageHeight * spacing + extraLines * config.noteLineHeight
    delay := Scalar.ofNat (message.delay.getD 0).toNat * config.delayUnit
    loop :=
      if message.isSelf then
        Scalar.max (config.selfMessageHeight - config.messageHeight) (Scalar.ofNat 0) * spacing
      else Scalar.ofNat 0
    span :=
      if message.isSelf then .between fromX (fromX + config.selfMessageWidth)
      else .between fromX toX }

/-- The box of a created participant, centered on its first creating arrow at height `y`. -/
def createdBox? (setting : Setting α) (key : String) (y : α) (progress : Progress α) :
    Option (Rect α) :=
  match progress.created.lookup key with
  | some box => some box
  | none =>
    (setting.columns.rect? key).map fun column =>
      ⟨column.x, y - Scalar.half column.height, column.width, column.height⟩

def remember (key : String) (box : Rect α) (progress : Progress α) : Progress α :=
  if (progress.created.lookup key).isSome then progress
  else { progress with created := (key, box) :: progress.created }

def boxEdge (senderX : α) (box : Rect α) : α :=
  if senderX < box.centerX then box.x else box.right

/-- Moves the receiver's box down to the message that creates it, and the arrow's end to the
box. -/
def placeCreated (setting : Setting α) (message : Message) (geometry : MessageGeometry α)
    (progress : Progress α) : MessageGeometry α × Progress α :=
  if message.isCreate && message.sender ≠ message.receiver then
    match setting.createdBox? message.receiver geometry.endY progress with
    | none => (geometry, progress)
    | some box =>
      let progress := remember message.receiver box progress
      match setting.columns.center? message.sender with
      | none => (geometry, progress)
      | some senderX =>
        let edge := boxEdge senderX box
        if message.receiver = message.target then ({ geometry with toX := edge }, progress)
        else ({ geometry with fromX := edge }, progress)
  else (geometry, progress)

/-- Gives the next number, if messages are numbered. The last number is given again and again. -/
def countMessage (progress : Progress α) : Progress α :=
  { progress with
    counter := progress.counter.map fun n =>
      if n = UInt32.ofNat (UInt32.size - 1) then n else n + 1 }

/-- A message one of whose ends has no column is not drawn. -/
def placeMessage (setting : Setting α) (id : NodeId) (message : Message)
    (progress : Progress α) : Progress α :=
  match setting.messageShape? progress.entrySpacing message with
  | none => progress
  | some shape =>
    let top := progress.slotTop shape.span
    let y := top + shape.lead
    let endY := y + shape.delay + shape.loop
    let reserved := progress.reserve shape.span (shape.lead + shape.delay + shape.loop)
    let (geometry, created) := setting.placeCreated message
      ⟨y, endY, shape.fromX, shape.toX, endY - top, progress.counter⟩ (countMessage reserved)
    let activated := { created with
      activations := created.activations.onMessage message.sender message.receiver y endY }
    ((activated.destroyDoomed endY message.source).destroyDoomed endY message.target).draw id
      (.message geometry)

/-- Moves the cursor by so many steps, but never above the first row. -/
def placeSpace (setting : Setting α) (steps : Int32) (progress : Progress α) : Progress α :=
  let moved := progress.cursor + Scalar.ofInt steps.toInt * setting.config.spaceUnit
  { progress.closeLevel with
    deepest := Scalar.max progress.deepest progress.cursor
    cursor := Scalar.max moved setting.bodyTop }

def placeDestroy (setting : Setting α) (key : String) (progress : Progress α) : Progress α :=
  (progress.closeLevel.endLifeline key progress.cursor .destroyed).advance
    setting.config.destroyHeight

def applyDirective (setting : Setting α) (id : NodeId) (directive : Directive)
    (progress : Progress α) : Progress α :=
  match directive with
  | .entrySpacing factor => { progress with entrySpacing := Scalar.ofMagnitude factor }
  | .autonumber start => { progress with counter := start }
  | .space steps => setting.placeSpace steps progress
  | .linear on => { progress.closeLevel with linear := on }
  | .parallel on => { progress.closeLevel with parallel := on }
  | .bottomParticipants => { progress with bottomParticipants := true }
  | .frame _ _ => { progress with frames := progress.frames ++ [id] }
  | .activate key color =>
    { progress with activations := progress.activations.activate key progress.cursor color }
  | .deactivate key =>
    { progress with activations := progress.activations.deactivate key progress.cursor }
  | .deactivateAfter key =>
    { progress with activations := progress.activations.deactivate key progress.cursor }
  | .destroy key => setting.placeDestroy key progress
  | .destroySilent key => progress.endLifeline key progress.cursor .silent
  | .destroyAfter key =>
    { progress with doomed := key :: progress.doomed.filter (· ≠ key) }
  | .autoActivation on =>
    { progress with activations := progress.activations.setAutomatic on }
  | .activeColor color =>
    { progress with activations := progress.activations.setColor color }
  | .title _ | .participantSpacing _ | .lifelineStyle _ _ | .fontFamily _ | .namedStyle _ _
  | .typeStyle _ _ => progress

def noteHeight (config : Config α) (text : String) : α :=
  Scalar.max config.noteMinHeight
    (Scalar.ofNat (lineCount text) * config.noteLineHeight + Scalar.twice config.fragmentPadding)

def noteWidth (config : Config α) (text : String) : α :=
  Scalar.max config.noteWidth (paddedWidth config text)

/-- Left edge and width of a note whose participants have their centers at `anchor` and
`others`. -/
def noteExtent (config : Config α) (note : Note) (anchor : α) (others : List α) : α × α :=
  let width := noteWidth config note.text
  match note.position with
  | .over =>
    let left := others.foldl Scalar.min anchor
    let right := others.foldl Scalar.max anchor
    let wide := Scalar.max width (right - left + Scalar.twice config.noteGap)
    (Scalar.half (left + right) - Scalar.half wide, wide)
  | .leftOf => (anchor - config.noteGap - width, width)
  | .rightOf => (anchor + config.noteGap, width)

/-- A note none of whose participants has a column spans all columns. -/
def placeNote (setting : Setting α) (id : NodeId) (note : Note) (progress : Progress α) :
    Progress α :=
  let height := noteHeight setting.config note.text
  match note.participants.filterMap setting.columns.center? with
  | [] => setting.placeBand id height progress
  | anchor :: others =>
    let extent := noteExtent setting.config note anchor others
    (progress.stack height).draw id (.box ⟨extent.1, progress.cursor, extent.2, height⟩)

/-- The extent of a message between its participants' boxes, with the loop of a message from a
participant to itself. -/
def messageExtents (setting : Setting α) (message : Message) : List (Span α) :=
  ([message.source, message.target].filterMap setting.columns.rect?).map fun box =>
    ⟨box.x,
      if message.isSelf then
        Scalar.max box.right (box.centerX + setting.config.selfMessageWidth)
      else box.right⟩

def elementExtents (setting : Setting α) : Element → List (Span α)
  | .message m => setting.messageExtents m
  | _ => []

def isFragment : Element → Bool
  | .fragment _ => true
  | _ => false

/-- The horizontal extent of a fragment: the participants of all messages in it, widened by a
margin for every level of fragments in it. Without such participants it spans every column. -/
def fragmentSpan (setting : Setting α) (node : Node) : Span α :=
  let config := setting.config
  let columns := setting.columns
  let inside := setting.document.tourUnder .fragments node
  let margin := config.fragmentMargin * Scalar.ofNat (inside.nesting isFragment + 1)
  match Span.cover? (inside.labels.flatMap fun node => setting.elementExtents node.element) with
  | some extent => ⟨extent.left - margin, extent.right + margin⟩
  | none =>
    if columns.isEmpty then ⟨config.margin, config.margin + config.participantMinWidth⟩
    else ⟨columns.left - margin, columns.right + margin⟩

def headerWidth (config : Config α) (fragment : Fragment) : α :=
  Scalar.ofNat (fragment.type.keyword.length + 1 + fragment.condition.length) * config.charWidth +
    Scalar.twice config.participantPadding

def drawFragment (setting : Setting α) (node : Node) (fragment : Fragment) (top : α)
    (elseYs : List α) (progress : Progress α) : Progress α :=
  let span := setting.fragmentSpan node
  let width := Scalar.max (span.right - span.left) (headerWidth setting.config fragment)
  progress.draw node.id (.fragment ⟨⟨span.left, top, width, progress.cursor - top⟩, elseYs⟩)

/-- Ends a section: no level stays open and the packing modes are those at its beginning. -/
def endSection (linear parallel : Bool) (progress : Progress α) : Progress α :=
  { progress.closeLevel with linear, parallel }

def enterFragment (setting : Setting α) (fragment : Fragment) (progress : Progress α) :
    Progress α :=
  if fragment.isCollapsed then progress.closeLevel.advance setting.config.fragmentHeader
  else progress.closeLevel.advance
    (setting.config.fragmentHeader + setting.config.fragmentPadding)

def leaveFragment (setting : Setting α) (fragment : Fragment) (progress : Progress α) :
    Progress α :=
  if fragment.isCollapsed then progress else progress.advance setting.config.fragmentPadding

def enterElse (setting : Setting α) (progress : Progress α) : Progress α :=
  progress.advance (setting.config.fragmentElseHeader + setting.config.fragmentPadding)

/-- Places a fragment, given how the sections in it are placed. Every section is entered with the
packing modes of the fragment, and these hold again after it. -/
def placeFragment (setting : Setting α) (node : Node) (fragment : Fragment)
    (sections : Progress α → Progress α × List α) (progress : Progress α) : Progress α :=
  let (inside, elseYs) := sections (setting.enterFragment fragment progress)
  setting.drawFragment node fragment progress.cursor elseYs
    (setting.leaveFragment fragment (endSection progress.linear progress.parallel inside))

def placeLeaf (setting : Setting α) (node : Node) (progress : Progress α) : Progress α :=
  match node.element with
  | .message m => setting.placeMessage node.id m progress
  | .note n => setting.placeNote node.id n progress
  | .divider _ => setting.placeBand node.id setting.config.dividerHeight progress
  | .blankLine => setting.placeBand node.id setting.config.blankHeight progress
  | .error _ => setting.placeBand node.id setting.config.errorHeight progress
  | .directive d => setting.applyDirective node.id d progress
  | .participant _ | .group _ | .comment _ | .fragment _ => progress

/-- Places a row of nodes. A mark ends a section of a fragment and begins the next one; the
heights at which sections begin are given back. -/
def placeRow (setting : Setting α) (linear parallel : Bool) :
    Tour → Progress α → Progress α × List α
  | .nil, progress => (progress, [])
  | .mark _ next, progress =>
    let ended := endSection linear parallel progress
    let (placed, elseYs) := placeRow setting linear parallel next (setting.enterElse ended)
    (placed, ended.cursor :: elseYs)
  | .tree node body next, progress =>
    let placed := match node.element with
      | .fragment f =>
        setting.placeFragment node f
          (placeRow setting progress.linear progress.parallel body) progress
      | _ => setting.placeLeaf node progress
    placeRow setting linear parallel next placed

end Setting

end SequenceDiagram.Layout
