set_option autoImplicit false

namespace SequenceDiagram

inductive BorderStyle
  | solid
  | dashed
  | dotted
deriving DecidableEq, Repr

namespace BorderStyle

def all : List BorderStyle := [.solid, .dashed, .dotted]

def keyword : BorderStyle → String
  | .solid => "solid"
  | .dashed => "dashed"
  | .dotted => "dotted"

def ofKeyword? (keyword : String) : Option BorderStyle :=
  all.find? fun style => style.keyword = keyword

theorem ofKeyword?_keyword (style : BorderStyle) : ofKeyword? style.keyword = some style := by
  cases style <;> decide

end BorderStyle

structure Style where
  fill : Option String := none
  border : Option String := none
  borderWidth : Option UInt32 := none
  borderStyle : Option BorderStyle := none
  operatorColor : Option String := none
  textMarkup : Option String := none
  styleName : Option String := none
deriving DecidableEq, Repr

namespace Style

def empty : Style := {}

def isEmpty (style : Style) : Bool :=
  style = empty

def hasBorder (style : Style) : Bool :=
  style.border.isSome || style.borderWidth.isSome || style.borderStyle.isSome

/-- Fields of `style`, and those of `base` where `style` sets none. -/
def mergedOver (style base : Style) : Style where
  fill := style.fill.or base.fill
  border := style.border.or base.border
  borderWidth := style.borderWidth.or base.borderWidth
  borderStyle := style.borderStyle.or base.borderStyle
  operatorColor := style.operatorColor.or base.operatorColor
  textMarkup := style.textMarkup.or base.textMarkup
  styleName := style.styleName.or base.styleName

/-- The style, unless it sets nothing. -/
def nonEmpty? (style : Style) : Option Style :=
  if style.isEmpty then none else some style

end Style

/-- What a document-wide default style can apply to. -/
inductive StyleTarget
  | participant
  | message
  | note
  | box
  | abox
  | rbox
  | ref
  | state
  | divider
  | fragment
  | participantGroup
deriving DecidableEq, Repr

namespace StyleTarget

def all : List StyleTarget :=
  [.participant, .message, .note, .box, .abox, .rbox, .ref, .state, .divider, .fragment,
   .participantGroup]

def name : StyleTarget → String
  | .participant => "participant"
  | .message => "message"
  | .note => "note"
  | .box => "box"
  | .abox => "abox"
  | .rbox => "rbox"
  | .ref => "ref"
  | .state => "state"
  | .divider => "divider"
  | .fragment => "fragment"
  | .participantGroup => "participantgroup"

/-- The directive that defines the default style of a target. -/
def keyword (target : StyleTarget) : String :=
  target.name ++ "style"

def ofKeyword? (keyword : String) : Option StyleTarget :=
  all.find? fun target => target.keyword = keyword

theorem ofKeyword?_keyword (target : StyleTarget) : ofKeyword? target.keyword = some target := by
  cases target <;> decide

end StyleTarget

end SequenceDiagram
