import SequenceDiagram.Diagram.Document
import SequenceDiagram.Layout.Config
import SequenceDiagram.Layout.Geometry

set_option autoImplicit false

namespace SequenceDiagram

namespace Element

/-- The aliases that an element brings into the diagram. -/
def mentions : Element → List String
  | .participant p => [p.key]
  | .message m => [m.source, m.target]
  | .note n => n.participants
  | .directive d => d.mention?.toList
  | .fragment _ | .group _ | .divider _ | .comment _ | .blankLine | .error _ => []

end Element

namespace Layout

/-- The items of a list without repetition, in order of their first occurrence. -/
def distinct : List String → List String
  | [] => []
  | item :: items => item :: (distinct items).filter (· ≠ item)

end Layout

namespace Document
open Layout

def roster (document : Document) : List String :=
  distinct (document.nodes.flatMap fun node => node.element.mentions)

def displayName (document : Document) (key : String) : String :=
  match document.participant? key with
  | some participant => participant.displayName
  | none => key

def participantSpacing? (document : Document) : Option ParticipantSpacing :=
  document.nodes.reverse.findSome? fun node =>
    match node.element with
    | .directive (.participantSpacing spacing) => some spacing
    | _ => none

def messages (document : Document) : List Message :=
  document.nodes.filterMap fun node =>
    match node.element with
    | .message m => some m
    | _ => none

end Document

namespace Layout

/-- The lines of a label. A line ends at a line feed and at the two characters `\n`. -/
def labelLines : List Char → List (List Char)
  | [] => [[]]
  | '\\' :: 'n' :: text => [] :: labelLines text
  | c :: text =>
    if c = '\n' then [] :: labelLines text
    else match labelLines text with
      | [] => [[c]]
      | line :: lines => (c :: line) :: lines

def lineCount (text : String) : Nat :=
  (labelLines text.toList).length

def widestLine (text : String) : Nat :=
  ((labelLines text.toList).map List.length).foldl Nat.max 0

section
variable {α : Type} [Scalar α]

def textWidth (config : Config α) (text : String) : α :=
  Scalar.ofNat (widestLine text) * config.charWidth

def paddedWidth (config : Config α) (text : String) : α :=
  textWidth config text + Scalar.twice config.participantPadding

end

/-- Participant boxes from left to right, each with its alias. -/
structure Columns (α : Type) where
  boxes : List (String × Rect α)
deriving DecidableEq, Repr

namespace Columns
variable {α : Type} [Scalar α]

def order (columns : Columns α) : List String :=
  columns.boxes.map Prod.fst

def rect? (columns : Columns α) (key : String) : Option (Rect α) :=
  columns.boxes.lookup key

def center? (columns : Columns α) (key : String) : Option α :=
  (columns.rect? key).map Rect.centerX

def isEmpty (columns : Columns α) : Bool :=
  columns.boxes.isEmpty

def left (columns : Columns α) : α :=
  match columns.boxes.head? with
  | some box => box.2.x
  | none => Scalar.ofNat 0

def right (columns : Columns α) : α :=
  match columns.boxes.getLast? with
  | some box => box.2.right
  | none => Scalar.ofNat 0

def boxWidth (config : Config α) (name : String) : α :=
  Scalar.max (paddedWidth config name) config.participantMinWidth

/-- Box widths; equal spacing makes all of them as wide as the widest. -/
def widths (document : Document) (config : Config α) : List α :=
  let own := document.roster.map fun key => boxWidth config (document.displayName key)
  if document.participantSpacing? = some .equal then
    let widest := own.foldl Scalar.max (Scalar.ofNat 0)
    own.map fun _ => widest
  else own

def gap (document : Document) (config : Config α) : α :=
  match document.participantSpacing? with
  | some (.gap amount) => Scalar.ofMagnitude amount
  | some .equal | none => config.participantGap

/-- Distances between the centers of neighbours whose boxes stand `gap` apart. -/
def distances (gap : α) (widths : List α) : List α :=
  List.zipWith (fun left right => Scalar.half left + gap + Scalar.half right) widths
    (widths.drop 1)

/-- Adds `extra` to the distances with index from `low` to before `high`. -/
def widenBetween (low high : Nat) (extra : α) (distances : List α) : List α :=
  distances.mapIdx fun i distance =>
    if low ≤ i ∧ i < high then distance + extra else distance

/-- Makes room for the label of a message between two columns, or for the loop of a message
from a column to itself. -/
def widenFor (config : Config α) (roster : List String) (distances : List α)
    (message : Message) : List α :=
  let source := roster.idxOf message.source
  let target := roster.idxOf message.target
  let label := paddedWidth config message.label
  if source = target then
    distances.modify source fun distance => Scalar.max distance (config.selfMessageWidth + label)
  else
    let low := min source target
    let high := max source target
    let current := ((distances.drop low).take (high - low)).foldl (· + ·) (Scalar.ofNat 0)
    if current < label then
      widenBetween low high ((label - current) / Scalar.ofNat (high - low)) distances
    else distances

/-- Boxes with the given widths, the first centered at `center`. -/
def boxesFrom (config : Config α) (top : α) :
    α → List α → List (String × α) → List (String × Rect α)
  | _, _, [] => []
  | center, distances, (key, width) :: row =>
    (key, ⟨center - Scalar.half width, top, width, config.participantHeight⟩) ::
      match distances with
      | distance :: distances => boxesFrom config top (center + distance) distances row
      | [] => boxesFrom config top center [] row

def ofDocument (document : Document) (config : Config α) (top : α) : Columns α :=
  let roster := document.roster
  let widths := widths document config
  let spread := document.messages.foldl (widenFor config roster)
    (distances (gap document config) widths)
  match widths with
  | [] => ⟨[]⟩
  | width :: _ =>
    ⟨boxesFrom config top (config.margin + Scalar.half width) spread (roster.zip widths)⟩

end Columns

end Layout

end SequenceDiagram
