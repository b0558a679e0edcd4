set_option autoImplicit false

/-!
# Message arrows

Every arrow is a left head, one or two dashes and a right head. With an inline style the text
`[style]` stands after a first dash of its own, so `->` becomes `-[style]->`.
-/
namespace SequenceDiagram

inductive ArrowDirection
  | forward
  | reversed
  | bidirectional
  | lost
deriving DecidableEq, Repr

inductive Arrow
  | sync
  | async
  | dashed
  | dashedAsync
  | reversed
  | dashedReversed
  | bidirectional
  | bidirectionalAsync
  | dashedBidirectionalAsync
  | lost
  | dashedLost
deriving DecidableEq, Repr

def ArrowDirection.name : ArrowDirection → String
  | .forward => "forward"
  | .reversed => "reversed"
  | .bidirectional => "bidirectional"
  | .lost => "lost"

namespace Arrow

def all : List Arrow :=
  [.sync, .async, .dashed, .dashedAsync, .reversed, .dashedReversed, .bidirectional,
   .bidirectionalAsync, .dashedBidirectionalAsync, .lost, .dashedLost]

theorem mem_all (arrow : Arrow) : arrow ∈ all := by
  cases arrow <;> decide

def leftHead : Arrow → String
  | .reversed | .dashedReversed | .bidirectional | .bidirectionalAsync
  | .dashedBidirectionalAsync => "<"
  | .sync | .async | .dashed | .dashedAsync | .lost | .dashedLost => ""

def dashes : Arrow → String
  | .dashed | .dashedAsync | .dashedReversed | .dashedBidirectionalAsync | .dashedLost => "--"
  | .sync | .async | .reversed | .bidirectional | .bidirectionalAsync | .lost => "-"

def rightHead : Arrow → String
  | .sync | .dashed | .bidirectional => ">"
  | .async | .dashedAsync | .bidirectionalAsync | .dashedBidirectionalAsync => ">>"
  | .lost | .dashedLost => "x"
  | .reversed | .dashedReversed => ""

def token (arrow : Arrow) : String :=
  arrow.leftHead ++ arrow.dashes ++ arrow.rightHead

def ofToken? (token : String) : Option Arrow :=
  all.find? fun arrow => arrow.token = token

def beforeStyle (arrow : Arrow) : String :=
  arrow.leftHead ++ "-"

def afterStyle (arrow : Arrow) : String :=
  arrow.dashes ++ arrow.rightHead

def isDashed (arrow : Arrow) : Bool :=
  arrow.dashes = "--"

def isAsync (arrow : Arrow) : Bool :=
  arrow.rightHead = ">>"

def direction (arrow : Arrow) : ArrowDirection :=
  if arrow.rightHead = "x" then .lost
  else if arrow.leftHead = "" then .forward
  else if arrow.rightHead = "" then .reversed
  else .bidirectional

def name : Arrow → String
  | .sync => "sync"
  | .async => "async"
  | .dashed => "dashed"
  | .dashedAsync => "dashed_async"
  | .reversed => "reversed"
  | .dashedReversed => "dashed_reversed"
  | .bidirectional => "bidirectional"
  | .bidirectionalAsync => "bidirectional_async"
  | .dashedBidirectionalAsync => "dashed_bidirectional_async"
  | .lost => "lost"
  | .dashedLost => "dashed_lost"

theorem ofToken?_token (arrow : Arrow) : ofToken? arrow.token = some arrow := by
  cases arrow <;> decide

end Arrow

end SequenceDiagram
