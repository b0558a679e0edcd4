import SequenceDiagram.Diagram.Forest
import SequenceDiagram.Script.Reader

set_option autoImplicit false

/-!
# Groves

A grove is a document as the tree that its lines make: every element with the lines it spans,
containers still without the identifiers of what they hold. Planting a grove numbers its trees
in arena order and gives every container the identifiers of its children.

An error inside a participant group is no member of it. It belongs to the fragment around the
group, so a tree may hold slots that its own section does not.
-/
namespace SequenceDiagram

namespace Forest
variable {ν μ : Type}

def leaf (label : ν) : Forest ν μ :=
  tree label nil nil

def size : Forest ν μ → Nat
  | nil => 0
  | tree _ body next => 1 + body.size + next.size
  | mark _ next => next.size

def marks : Forest ν μ → List μ
  | nil => []
  | tree _ body next => body.marks ++ next.marks
  | mark label next => label :: next.marks

theorem length_labels (row : Forest ν μ) : row.labels.length = row.size := by
  induction row with
  | nil => rfl
  | tree label body next ihb ihn => simp [labels, size, ihb, ihn]; omega
  | mark label next ih => simpa [labels, size] using ih

theorem size_append (a b : Forest ν μ) : (a.append b).size = a.size + b.size := by
  induction a with
  | nil => simp [append, size]
  | tree label body next _ ih => simp only [append, size, ih]; omega
  | mark label next ih => simpa [append, size] using ih

theorem marks_append (a b : Forest ν μ) : (a.append b).marks = a.marks ++ b.marks := by
  induction a with
  | nil => rfl
  | tree label body next _ ih => simp [append, marks, ih]
  | mark label next ih => simp [append, marks, ih]

end Forest

def Fragment.bare (fragment : Fragment) : Fragment :=
  { fragment with entries := [], elseClauses := [] }

def Element.bare : Element → Element
  | .fragment f => .fragment f.bare
  | .group g => .group g.header
  | element => element

/-- An element with its lines. A container is its head: it names no children. -/
structure Seed where
  element : Element
  lineStart : Nat
  lineEnd : Nat
deriving DecidableEq, Repr

abbrev Grove := Forest Seed ElseClause

namespace Grove

/-- Slots of the errors in a group's body, which the group does not hold. -/
def straySlots : Nat → Grove → List Nat
  | _, .nil => []
  | slot, .tree seed body next =>
    (match seed.element with
      | .error _ => [slot]
      | .group _ => straySlots (slot + 1) body
      | _ => []) ++ straySlots (slot + 1 + body.size) next
  | slot, .mark _ next => straySlots slot next

/-- What a tree adds to the section it stands in: itself, and the strays of a group. -/
def sectionSlots (slot : Nat) (seed : Seed) (body : Grove) : List Nat :=
  slot :: match seed.element with
    | .group _ => straySlots (slot + 1) body
    | _ => []

variable (first : UInt32)

def addSlots (fragment : Fragment) (slots : List Nat) : Fragment :=
  slots.foldl (fun f slot => f.addEntry (NodeId.offset first slot)) fragment

def fillFragment : Fragment → Nat → Grove → Fragment
  | f, _, .nil => f
  | f, slot, .tree seed body next =>
    fillFragment (addSlots first f (sectionSlots slot seed body)) (slot + 1 + body.size) next
  | f, slot, .mark clause next => fillFragment (f.addClause clause) slot next

def addMember (group : ParticipantGroup) (slot : Nat) : Element → ParticipantGroup
  | .participant p => { group with participants := group.participants ++ [p.key] }
  | .group _ => { group with nestedGroups := group.nestedGroups ++ [NodeId.offset first slot] }
  | _ => group

def fillGroup : ParticipantGroup → Nat → Grove → ParticipantGroup
  | g, _, .nil => g
  | g, slot, .tree seed body next =>
    fillGroup (addMember first g slot seed.element) (slot + 1 + body.size) next
  | g, slot, .mark _ next => fillGroup g slot next

def fill (element : Element) (slot : Nat) (body : Grove) : Element :=
  match element with
  | .fragment f => .fragment (fillFragment first f slot body)
  | .group g => .group (fillGroup first g slot body)
  | element => element

def plant : Nat → Grove → List Node
  | _, .nil => []
  | slot, .tree seed body next =>
    ⟨NodeId.offset first slot, seed.lineStart, seed.lineEnd,
      fill first seed.element (slot + 1) body⟩ ::
      (plant (slot + 1) body ++ plant (slot + 1 + body.size) next)
  | slot, .mark _ next => plant slot next

theorem bare_addEntry (f : Fragment) (id : NodeId) : (f.addEntry id).bare = f.bare := by
  unfold Fragment.addEntry
  split <;> rfl

theorem bare_addSlots (f : Fragment) (slots : List Nat) : (addSlots first f slots).bare = f.bare := by
  induction slots generalizing f with
  | nil => rfl
  | cons slot slots ih => exact (ih _).trans (bare_addEntry f _)

theorem bare_fillFragment (f : Fragment) (slot : Nat) (body : Grove) :
    (fillFragment first f slot body).bare = f.bare := by
  induction body generalizing f slot with
  | nil => rfl
  | tree seed body next _ ih => exact (ih _ _).trans (bare_addSlots first f _)
  | mark clause next ih => exact ih _ _

theorem header_addMember (g : ParticipantGroup) (slot : Nat) (element : Element) :
    (addMember first g slot element).header = g.header := by
  cases element <;> rfl

theorem header_fillGroup (g : ParticipantGroup) (slot : Nat) (body : Grove) :
    (fillGroup first g slot body).header = g.header := by
  induction body generalizing g slot with
  | nil => rfl
  | tree seed body next _ ih => exact (ih _ _).trans (header_addMember first g slot _)
  | mark clause next ih => exact ih _ _

/-- Children do not change the head that they are filled into. -/
theorem bare_fill (element : Element) (slot : Nat) (body : Grove) :
    (fill first element slot body).bare = element.bare := by
  cases element with
  | fragment f => exact congrArg Element.fragment (bare_fillFragment first f slot body)
  | group g => exact congrArg Element.group (header_fillGroup first g slot body)
  | _ => rfl

theorem length_plant (slot : Nat) (grove : Grove) :
    (plant first slot grove).length = grove.size := by
  induction grove generalizing slot with
  | nil => rfl
  | tree seed body next ihb ihn =>
    simp only [plant, List.length_cons, List.length_append, ihb, ihn, Forest.size]
    omega
  | mark clause next ih => exact ih slot

theorem fill_nil (element : Element) (slot : Nat) : fill first element slot .nil = element := by
  cases element <;> rfl

theorem sectionSlots_nil (slot : Nat) (seed : Seed) : sectionSlots slot seed .nil = [slot] := by
  obtain ⟨element, lineStart, lineEnd⟩ := seed
  cases element <;> rfl

theorem fillFragment_leaf (f : Fragment) (slot : Nat) (seed : Seed) :
    fillFragment first f slot (.leaf seed) = f.addEntry (NodeId.offset first slot) := by
  simp only [Forest.leaf, fillFragment, sectionSlots_nil, addSlots, List.foldl_cons, List.foldl_nil]

theorem plant_leaf (slot : Nat) (seed : Seed) :
    plant first slot (.leaf seed) =
      [⟨NodeId.offset first slot, seed.lineStart, seed.lineEnd, seed.element⟩] := by
  simp [Forest.leaf, plant, fill_nil]

theorem straySlots_append (slot : Nat) (a b : Grove) :
    straySlots slot (a.append b) = straySlots slot a ++ straySlots (slot + a.size) b := by
  induction a generalizing slot with
  | nil => simp [Forest.append, straySlots, Forest.size]
  | tree seed body next _ ih =>
    simp only [Forest.append, straySlots, ih, Forest.size, List.append_assoc]
    rw [show slot + 1 + body.size + next.size = slot + (1 + body.size + next.size) by omega]
  | mark clause next ih => simpa [Forest.append, straySlots, Forest.size] using ih slot

theorem fillFragment_append (f : Fragment) (slot : Nat) (a b : Grove) :
    fillFragment first f slot (a.append b) =
      fillFragment first (fillFragment first f slot a) (slot + a.size) b := by
  induction a generalizing f slot with
  | nil => simp [Forest.append, fillFragment, Forest.size]
  | tree seed body next _ ih =>
    simp only [Forest.append, fillFragment, ih, Forest.size]
    rw [show slot + 1 + body.size + next.size = slot + (1 + body.size + next.size) by omega]
  | mark clause next ih => simpa [Forest.append, fillFragment, Forest.size] using ih _ slot

theorem fillGroup_append (g : ParticipantGroup) (slot : Nat) (a b : Grove) :
    fillGroup first g slot (a.append b) =
      fillGroup first (fillGroup first g slot a) (slot + a.size) b := by
  induction a generalizing g slot with
  | nil => simp [Forest.append, fillGroup, Forest.size]
  | tree seed body next _ ih =>
    simp only [Forest.append, fillGroup, ih, Forest.size]
    rw [show slot + 1 + body.size + next.size = slot + (1 + body.size + next.size) by omega]
  | mark clause next ih => simpa [Forest.append, fillGroup, Forest.size] using ih _ slot

theorem plant_append (slot : Nat) (a b : Grove) :
    plant first slot (a.append b) = plant first slot a ++ plant first (slot + a.size) b := by
  induction a generalizing slot with
  | nil => simp [Forest.append, plant, Forest.size]
  | tree seed body next _ ih =>
    simp only [Forest.append, plant, ih, Forest.size, List.cons_append, List.append_assoc]
    rw [show slot + 1 + body.size + next.size = slot + (1 + body.size + next.size) by omega]
  | mark clause next ih => simpa [Forest.append, plant, Forest.size] using ih slot

end Grove

end SequenceDiagram
