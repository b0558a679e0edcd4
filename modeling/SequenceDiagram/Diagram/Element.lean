import SequenceDiagram.Diagram.Arrow
import SequenceDiagram.Diagram.Directive
import SequenceDiagram.Diagram.NodeId

set_option autoImplicit false

namespace SequenceDiagram

inductive IconSet
  | materialDesignIcons
  | fontAwesome5Solid
  | fontAwesome5Regular
  | fontAwesome5Brands
  | fontAwesome6Solid
  | fontAwesome6Regular
  | fontAwesome6Brands
deriving DecidableEq, Repr

namespace IconSet

def all : List IconSet :=
  [.materialDesignIcons, .fontAwesome5Solid, .fontAwesome5Regular, .fontAwesome5Brands,
   .fontAwesome6Solid, .fontAwesome6Regular, .fontAwesome6Brands]

def keyword : IconSet → String
  | .materialDesignIcons => "materialdesignicons"
  | .fontAwesome5Solid => "fontawesome5solid"
  | .fontAwesome5Regular => "fontawesome5regular"
  | .fontAwesome5Brands => "fontawesome5brands"
  | .fontAwesome6Solid => "fontawesome6solid"
  | .fontAwesome6Regular => "fontawesome6regular"
  | .fontAwesome6Brands => "fontawesome6brands"

def ofKeyword? (keyword : String) : Option IconSet :=
  all.find? fun set => set.keyword = keyword

theorem ofKeyword?_keyword (set : IconSet) : ofKeyword? set.keyword = some set := by
  cases set <;> decide

end IconSet

/-- The drawn shapes of participants that need no further data. -/
inductive ParticipantShape
  | participant
  | actor
  | database
  | boundary
  | control
  | entity
deriving DecidableEq, Repr

namespace ParticipantShape

def all : List ParticipantShape :=
  [.participant, .actor, .database, .boundary, .control, .entity]

def keyword : ParticipantShape → String
  | .participant => "participant"
  | .actor => "actor"
  | .database => "database"
  | .boundary => "boundary"
  | .control => "control"
  | .entity => "entity"

def ofKeyword? (keyword : String) : Option ParticipantShape :=
  all.find? fun shape => shape.keyword = keyword

theorem ofKeyword?_keyword (shape : ParticipantShape) :
    ofKeyword? shape.keyword = some shape := by
  cases shape <;> decide

end ParticipantShape

inductive ParticipantType
  | shape (shape : ParticipantShape)
  | icon (set : IconSet) (code : String)
  | image (data : String)
deriving DecidableEq, Repr

structure Participant where
  type : ParticipantType
  /-- The alias: what messages, notes and directives call the participant. -/
  key : String
  displayName : String
  style : Option Style
deriving DecidableEq, Repr

structure Message where
  source : String
  target : String
  arrow : Arrow
  /-- Slope of the arrow in delay units. -/
  delay : Option UInt32
  isCreate : Bool
  style : Option Style
  label : String
deriving DecidableEq, Repr

namespace Message

def isSelf (message : Message) : Bool :=
  message.source = message.target

/-- The participant that speaks: the right end of a reversed arrow. -/
def sender (message : Message) : String :=
  if message.arrow.direction = .reversed then message.target else message.source

def receiver (message : Message) : String :=
  if message.arrow.direction = .reversed then message.source else message.target

end Message

inductive FragmentType
  | alt
  | loop
  | opt
  | par
  | break
  | critical
  | ref
  | seq
  | strict
  | neg
  | ignore
  | consider
  | assert
  | region
  | group
  | expandable
deriving DecidableEq, Repr

namespace FragmentType

def all : List FragmentType :=
  [.alt, .loop, .opt, .par, .break, .critical, .ref, .seq, .strict, .neg, .ignore, .consider,
   .assert, .region, .group, .expandable]

def keyword : FragmentType → String
  | .alt => "alt"
  | .loop => "loop"
  | .opt => "opt"
  | .par => "par"
  | .break => "break"
  | .critical => "critical"
  | .ref => "ref"
  | .seq => "seq"
  | .strict => "strict"
  | .neg => "neg"
  | .ignore => "ignore"
  | .consider => "consider"
  | .assert => "assert"
  | .region => "region"
  | .group => "group"
  | .expandable => "expandable"

def ofKeyword? (keyword : String) : Option FragmentType :=
  all.find? fun type => type.keyword = keyword

theorem ofKeyword?_keyword (type : FragmentType) : ofKeyword? type.keyword = some type := by
  cases type <;> decide

end FragmentType

structure ElseClause where
  condition : String
  style : Option Style
  entries : List NodeId
deriving DecidableEq, Repr

structure Fragment where
  type : FragmentType
  condition : String
  style : Option Style
  entries : List NodeId
  elseClauses : List ElseClause
  /-- Set for expandable fragments only. -/
  collapsed : Option Bool
deriving DecidableEq, Repr

namespace Fragment

def isCollapsed (fragment : Fragment) : Bool :=
  fragment.collapsed = some true

def sections (fragment : Fragment) : List (List NodeId) :=
  fragment.entries :: fragment.elseClauses.map ElseClause.entries

def allEntries (fragment : Fragment) : List NodeId :=
  fragment.entries ++ fragment.elseClauses.flatMap ElseClause.entries

/-- Opens or collapses an expandable fragment; leaves every other one as it is. -/
def withCollapsed (fragment : Fragment) (collapsed : Bool) : Fragment :=
  if fragment.type = .expandable then { fragment with collapsed := some collapsed } else fragment

/-- The fragment without its entries, its else clauses kept as empty ones. -/
def header (fragment : Fragment) : Fragment :=
  { fragment with
    entries := []
    elseClauses := fragment.elseClauses.map fun clause => { clause with entries := [] } }

end Fragment

structure ParticipantGroup where
  color : Option String
  label : String
  participants : List String
  nestedGroups : List NodeId
deriving DecidableEq, Repr

namespace ParticipantGroup

def header (group : ParticipantGroup) : ParticipantGroup :=
  { group with participants := [], nestedGroups := [] }

end ParticipantGroup

inductive NoteKind
  | note
  | box
  | abox
  | rbox
  | ref
  | state
deriving DecidableEq, Repr

namespace NoteKind

def all : List NoteKind := [.note, .box, .abox, .rbox, .ref, .state]

def keyword : NoteKind → String
  | .note => "note"
  | .box => "box"
  | .abox => "abox"
  | .rbox => "rbox"
  | .ref => "ref"
  | .state => "state"

def ofKeyword? (keyword : String) : Option NoteKind :=
  all.find? fun kind => kind.keyword = keyword

theorem ofKeyword?_keyword (kind : NoteKind) : ofKeyword? kind.keyword = some kind := by
  cases kind <;> decide

def styleTarget : NoteKind → StyleTarget
  | .note => .note
  | .box => .box
  | .abox => .abox
  | .rbox => .rbox
  | .ref => .ref
  | .state => .state

end NoteKind

inductive NotePosition
  | over
  | leftOf
  | rightOf
deriving DecidableEq, Repr

namespace NotePosition

def keyword : NotePosition → String
  | .over => "over"
  | .leftOf => "left of"
  | .rightOf => "right of"

def name : NotePosition → String
  | .over => "over"
  | .leftOf => "left_of"
  | .rightOf => "right_of"

end NotePosition

structure Note where
  kind : NoteKind
  position : NotePosition
  participants : List String
  style : Option Style
  text : String
  /-- Written over several lines up to `end` and the kind. -/
  block : Bool
deriving DecidableEq, Repr

structure Divider where
  text : String
  style : Option Style
deriving DecidableEq, Repr

inductive SyntaxFaultKind
  | unrecognizedSyntax
  | unterminatedBlock
deriving DecidableEq, Repr

/-- A line that could not be read, or a block that was never closed. The latter has no text. -/
structure SyntaxFault where
  kind : SyntaxFaultKind
  text : String
  message : String
deriving DecidableEq, Repr

inductive Element
  | participant (participant : Participant)
  | message (message : Message)
  | fragment (fragment : Fragment)
  | group (group : ParticipantGroup)
  | note (note : Note)
  | divider (divider : Divider)
  | comment (text : String)
  | blankLine
  | directive (directive : Directive)
  | error (fault : SyntaxFault)
deriving DecidableEq, Repr

namespace Element

def typeName : Element → String
  | .participant _ => "participant"
  | .message _ => "message"
  | .fragment _ => "fragment"
  | .group _ => "participantgroup"
  | .note _ => "note"
  | .divider _ => "divider"
  | .comment _ => "comment"
  | .blankLine => "blankline"
  | .directive _ => "directive"
  | .error _ => "error"

def isError : Element → Bool
  | .error _ => true
  | .participant _ | .message _ | .fragment _ | .group _ | .note _ | .divider _ | .comment _
  | .blankLine | .directive _ => false

def isParticipant : Element → Bool
  | .participant _ => true
  | .message _ | .fragment _ | .group _ | .note _ | .divider _ | .comment _ | .blankLine
  | .directive _ | .error _ => false

def isGroup : Element → Bool
  | .group _ => true
  | .participant _ | .message _ | .fragment _ | .note _ | .divider _ | .comment _ | .blankLine
  | .directive _ | .error _ => false

theorem exists_of_isGroup {element : Element} (h : element.isGroup = true) :
    ∃ g, element = .group g := by
  cases element with
  | group g => exact ⟨g, rfl⟩
  | _ => cases h

def groupAliases : Element → List String
  | .group g => g.participants
  | .participant _ | .message _ | .fragment _ | .note _ | .divider _ | .comment _ | .blankLine
  | .directive _ | .error _ => []

/-- The nodes that an element holds, in the order in which it names them. -/
def children : Element → List NodeId
  | .fragment f => f.allEntries
  | .group g => g.nestedGroups
  | .participant _ | .message _ | .note _ | .divider _ | .comment _ | .blankLine | .directive _
  | .error _ => []

end Element

end SequenceDiagram
