import SequenceDiagram.Proofs.Members

set_option autoImplicit false

/-!
# Settled outlines

The place of a member of a group is the first position in the outline at which its alias is
written; a nested group has its own position. A group is settled when its members are written in
the order of their places. That is the order in which canonical text is written the second time.
-/
namespace SequenceDiagram

namespace Forest
variable {ν μ : Type} (key? : ν → Option String) (isGroup : ν → Bool)
  (keys : List (Option String))

/-- Where the key of a label first occurs, or the label's own position when it has no key. -/
def place (label : ν) (position : Nat) : Nat :=
  match key? label with
  | some key => keys.findIdx fun other => other = some key
  | none => position

def places : Nat → Forest ν μ → List Nat
  | _, .nil => []
  | position, .tree label body next =>
    place key? keys label position :: places (position + 1 + body.size) next
  | position, .mark _ next => places position next

def Settled : Nat → Forest ν μ → Prop
  | _, .nil => True
  | position, .tree label body next =>
    (isGroup label = true → (places key? keys (position + 1) body).Pairwise (· ≤ ·)) ∧
      Settled (position + 1) body ∧ Settled (position + 1 + body.size) next
  | position, .mark _ next => Settled position next

end Forest

namespace OutlineItem

def key? : OutlineItem → Option String
  | .node _ n => n.seed.key?
  | .undeclared key => some key

def isGroup : OutlineItem → Bool
  | .node _ n => n.element.isGroup
  | .undeclared _ => false

end OutlineItem

namespace Outline

/-- Members of groups stand in the order in which their aliases first occur. -/
def IsSettled (outline : Outline) : Prop :=
  outline.Settled OutlineItem.key? OutlineItem.isGroup (outline.labels.map OutlineItem.key?) 0

end Outline

namespace Seed

def isGroup (seed : Seed) : Bool :=
  seed.element.isGroup

end Seed

namespace Outline

variable {outline : Outline} {row : Grove}

theorem key?_of_seed? {item : OutlineItem} {seed : Seed} (h : item.seed? = some seed) :
    item.key? = seed.key? ∧ item.isGroup = seed.isGroup := by
  cases item with
  | undeclared key => contradiction
  | node slot node =>
    obtain rfl := Option.some.inj h
    refine ⟨rfl, ?_⟩
    obtain ⟨id, lineStart, lineEnd, element⟩ := node
    cases element <;> rfl

theorem Shows.labels_eq (h : outline.Shows row) :
    outline.labels.map OutlineItem.seed? = row.labels.map some := by
  induction outline generalizing row with
  | nil =>
    cases row with
    | nil => rfl
    | _ => exact h.elim
  | tree item body next ihb ihn =>
    cases row with
    | tree seed body' next' =>
      obtain ⟨same, inside, behind⟩ := h
      simp only [Forest.labels, List.map_cons, List.map_append, same, ihb inside, ihn behind]
    | _ => exact h.elim
  | mark clause next ih =>
    cases row with
    | mark clause' next' => exact @ih next' h.2
    | _ => exact h.elim

theorem Shows.keys_eq (h : outline.Shows row) :
    outline.labels.map OutlineItem.key? = row.labels.map Seed.key? := by
  have same := h.labels_eq
  have lengths := congrArg List.length same
  rw [List.length_map, List.length_map] at lengths
  refine List.ext_getElem (by simpa using lengths) fun i left right => ?_
  rw [List.length_map] at left right
  have item := List.getElem_of_eq same (by simpa using left : i < _)
  rw [List.getElem_map, List.getElem_map] at item
  rw [List.getElem_map, List.getElem_map]
  exact (key?_of_seed? item).1

theorem Shows.size_eq (h : outline.Shows row) : outline.size = row.size := by
  have lengths := congrArg List.length h.labels_eq
  rwa [List.length_map, List.length_map, Forest.length_labels, Forest.length_labels] at lengths

theorem Shows.places_eq (h : outline.Shows row) (keys : List (Option String)) (position : Nat) :
    outline.places OutlineItem.key? keys position = row.places Seed.key? keys position := by
  induction outline generalizing row position with
  | nil =>
    cases row with
    | nil => rfl
    | _ => exact h.elim
  | tree item body next _ ih =>
    cases row with
    | tree seed body' next' =>
      obtain ⟨same, inside, behind⟩ := h
      rw [Forest.places, Forest.places, ih behind, inside.size_eq, Forest.place, Forest.place,
        (key?_of_seed? same).1]
    | _ => exact h.elim
  | mark clause next ih =>
    cases row with
    | mark clause' next' => exact ih h.2 position
    | _ => exact h.elim

theorem Shows.settled_iff (h : outline.Shows row) (keys : List (Option String)) (position : Nat) :
    outline.Settled OutlineItem.key? OutlineItem.isGroup keys position ↔
      row.Settled Seed.key? Seed.isGroup keys position := by
  induction outline generalizing row position with
  | nil =>
    cases row with
    | nil => exact Iff.rfl
    | _ => exact h.elim
  | tree item body next ihb ihn =>
    cases row with
    | tree seed body' next' =>
      obtain ⟨same, inside, behind⟩ := h
      rw [Forest.Settled, Forest.Settled, ihb inside, ihn behind, inside.places_eq, inside.size_eq,
        (key?_of_seed? same).2]
    | _ => exact h.elim
  | mark clause next ih =>
    cases row with
    | mark clause' next' => exact ih h.2 position
    | _ => exact h.elim

end Outline

end SequenceDiagram
