import SequenceDiagram.Number.Scalar

set_option autoImplicit false

namespace SequenceDiagram.Layout

structure Config (α : Type) where
  margin : α
  titleHeight : α
  participantMinWidth : α
  participantHeight : α
  /-- Estimated width of one character. -/
  charWidth : α
  participantPadding : α
  participantGap : α
  lifelineTopGap : α
  messageHeight : α
  selfMessageWidth : α
  selfMessageHeight : α
  /-- Drop of an arrow for each unit of its delay. -/
  delayUnit : α
  blankHeight : α
  errorHeight : α
  dividerHeight : α
  noteWidth : α
  noteMinHeight : α
  noteLineHeight : α
  noteGap : α
  fragmentHeader : α
  fragmentElseHeader : α
  fragmentPadding : α
  fragmentMargin : α
  activationWidth : α
  /-- Height of one `space` step. -/
  spaceUnit : α
  destroyHeight : α
deriving DecidableEq, Repr

inductive ConfigFault
  | negative (field : String)
  | notPositive (field : String)
deriving DecidableEq, Repr

namespace ConfigFault

def message : ConfigFault → String
  | .negative field =>
    "invalid layout config: " ++ field ++ " must be a finite, non-negative number"
  | .notPositive field => "invalid layout config: " ++ field ++ " must be positive"

end ConfigFault

namespace Config
variable {α : Type}

def default [Scalar α] : Config α where
  margin := Scalar.ofNat 20
  titleHeight := Scalar.ofNat 40
  participantMinWidth := Scalar.ofNat 80
  participantHeight := Scalar.ofNat 40
  charWidth := Scalar.ofNat 7
  participantPadding := Scalar.ofNat 10
  participantGap := Scalar.ofNat 40
  lifelineTopGap := Scalar.ofNat 20
  messageHeight := Scalar.ofNat 36
  selfMessageWidth := Scalar.ofNat 40
  selfMessageHeight := Scalar.ofNat 50
  delayUnit := Scalar.ofNat 10
  blankHeight := Scalar.ofNat 16
  errorHeight := Scalar.ofNat 28
  dividerHeight := Scalar.ofNat 30
  noteWidth := Scalar.ofNat 100
  noteMinHeight := Scalar.ofNat 30
  noteLineHeight := Scalar.ofNat 16
  noteGap := Scalar.ofNat 10
  fragmentHeader := Scalar.ofNat 26
  fragmentElseHeader := Scalar.ofNat 22
  fragmentPadding := Scalar.ofNat 8
  fragmentMargin := Scalar.ofNat 12
  activationWidth := Scalar.ofNat 10
  spaceUnit := Scalar.ofNat 10
  destroyHeight := Scalar.ofNat 12

/-- Replaces every size by a function of its name and itself. -/
def mapNamed (f : String → α → α) (config : Config α) : Config α where
  margin := f "margin" config.margin
  titleHeight := f "title_height" config.titleHeight
  participantMinWidth := f "participant_min_width" config.participantMinWidth
  participantHeight := f "participant_height" config.participantHeight
  charWidth := f "char_width" config.charWidth
  participantPadding := f "participant_padding" config.participantPadding
  participantGap := f "participant_gap" config.participantGap
  lifelineTopGap := f "lifeline_top_gap" config.lifelineTopGap
  messageHeight := f "message_height" config.messageHeight
  selfMessageWidth := f "self_message_width" config.selfMessageWidth
  selfMessageHeight := f "self_message_height" config.selfMessageHeight
  delayUnit := f "delay_unit" config.delayUnit
  blankHeight := f "blank_height" config.blankHeight
  errorHeight := f "error_height" config.errorHeight
  dividerHeight := f "divider_height" config.dividerHeight
  noteWidth := f "note_width" config.noteWidth
  noteMinHeight := f "note_min_height" config.noteMinHeight
  noteLineHeight := f "note_line_height" config.noteLineHeight
  noteGap := f "note_gap" config.noteGap
  fragmentHeader := f "fragment_header" config.fragmentHeader
  fragmentElseHeader := f "fragment_else_header" config.fragmentElseHeader
  fragmentPadding := f "fragment_padding" config.fragmentPadding
  fragmentMargin := f "fragment_margin" config.fragmentMargin
  activationWidth := f "activation_width" config.activationWidth
  spaceUnit := f "space_unit" config.spaceUnit
  destroyHeight := f "destroy_height" config.destroyHeight

/-- The sizes with their names, in the order in which they are declared. -/
def fields (config : Config α) : List (String × α) :=
  [("margin", config.margin),
   ("title_height", config.titleHeight),
   ("participant_min_width", config.participantMinWidth),
   ("participant_height", config.participantHeight),
   ("char_width", config.charWidth),
   ("participant_padding", config.participantPadding),
   ("participant_gap", config.participantGap),
   ("lifeline_top_gap", config.lifelineTopGap),
   ("message_height", config.messageHeight),
   ("self_message_width", config.selfMessageWidth),
   ("self_message_height", config.selfMessageHeight),
   ("delay_unit", config.delayUnit),
   ("blank_height", config.blankHeight),
   ("error_height", config.errorHeight),
   ("divider_height", config.dividerHeight),
   ("note_width", config.noteWidth),
   ("note_min_height", config.noteMinHeight),
   ("note_line_height", config.noteLineHeight),
   ("note_gap", config.noteGap),
   ("fragment_header", config.fragmentHeader),
   ("fragment_else_header", config.fragmentElseHeader),
   ("fragment_padding", config.fragmentPadding),
   ("fragment_margin", config.fragmentMargin),
   ("activation_width", config.activationWidth),
   ("space_unit", config.spaceUnit),
   ("destroy_height", config.destroyHeight)]

variable [Scalar α]

def isSize (value : α) : Bool :=
  Scalar.isFinite value && !decide (value < Scalar.ofNat 0)

/-- The first fault of a configuration: sizes in declared order, then the two heights. -/
def validate (config : Config α) : Except ConfigFault Unit :=
  match config.fields.find? fun field => !isSize field.2 with
  | some (field, _) => .error (.negative field)
  | none =>
    if config.messageHeight ≤ Scalar.ofNat 0 then .error (.notPositive "message_height")
    else if config.participantHeight ≤ Scalar.ofNat 0 then
      .error (.notPositive "participant_height")
    else .ok ()

end Config

end SequenceDiagram.Layout
