import SequenceDiagram.Proofs.Grove
import SequenceDiagram.Script.Writer

set_option autoImplicit false

/-!
# Arranged groves

A grove is written in another order than it was read in. The members of a group follow the lines
of their first declarations, declarations that some group lists are left out of the rows around
it, and the strays of a group come after it.
-/
namespace SequenceDiagram

namespace Seed

def key? (seed : Seed) : Option String :=
  match seed.element with
  | .participant p => some p.key
  | _ => none

end Seed

/-- What an arrangement has to know about the whole document. -/
structure Register where
  /-- Whether some group lists an alias. -/
  listed : String → Bool
  /-- The first declaration of an alias. -/
  declaration? : String → Option Seed

namespace Grove

def declaredKeys : Grove → List String
  | .nil => []
  | .tree seed _ next => seed.key?.toList ++ declaredKeys next
  | .mark _ next => declaredKeys next

def listedKeys : Grove → List String
  | .nil => []
  | .tree seed body next =>
    (match seed.element with
      | .group _ => declaredKeys body
      | _ => []) ++ (listedKeys body ++ listedKeys next)
  | .mark _ next => listedKeys next

def register (grove : Grove) : Register where
  listed key := grove.listedKeys.contains key
  declaration? key := grove.labels.find? fun seed => seed.key? = some key

def strays : Grove → Grove
  | .nil => .nil
  | .tree seed body next =>
    match seed.element with
    | .error _ => .tree seed .nil (strays next)
    | .group _ => (strays body).append (strays next)
    | _ => strays next
  | .mark _ next => strays next

def ordered (trees : List (Seed × Grove)) : List (Seed × Grove) :=
  trees.mergeSort fun a b => a.1.lineStart ≤ b.1.lineStart

def ofTrees : List (Seed × Grove) → Grove
  | [] => .nil
  | (seed, body) :: trees => .tree seed body (ofTrees trees)

section
variable (register : Register)

def declarations : Grove → List (Seed × Grove)
  | .nil => []
  | .tree seed _ next =>
    (seed.key?.bind register.declaration?).toList.map (fun first => (first, .nil)) ++
      declarations next
  | .mark _ next => declarations next

def groups : Grove → List (Seed × Grove)
  | .nil => []
  | .tree seed body next =>
    (match seed.element with
      | .group _ => [(seed, ofTrees (ordered (declarations register body ++ groups body)))]
      | _ => []) ++ groups next
  | .mark _ next => groups next

def members (body : Grove) : Grove :=
  ofTrees (ordered (declarations register body ++ groups register body))

def arrange : Grove → Grove
  | .nil => .nil
  | .tree seed body next =>
    match seed.element with
    | .fragment _ => .tree seed (arrange body) (arrange next)
    | .group _ => .tree seed (members register body) ((strays body).append (arrange next))
    | .participant p =>
      if register.listed p.key then arrange next else .tree seed .nil (arrange next)
    | _ => .tree seed .nil (arrange next)
  | .mark clause next => .mark clause (arrange next)

theorem arrange_participant {seed : Seed} {p : Participant} (h : seed.element = .participant p)
    (body next : Grove) :
    arrange register (.tree seed body next) =
      if register.listed p.key then arrange register next
      else .tree seed .nil (arrange register next) := by
  simp only [arrange, h]

end

def arranged (grove : Grove) : Grove :=
  arrange grove.register grove

def lines (depth : Nat) : Grove → List (List Char)
  | .nil => []
  | .tree seed body next =>
    indented depth seed.element.writeHead ::
      (seed.element.writeBlockText.map (indented (depth + 1)) ++ lines (depth + 1) body ++
        seed.element.writeEnd?.toList.map (indented depth) ++ lines depth next)
  | .mark clause next => indented (depth - 1) clause.writeHead :: lines depth next

end Grove

namespace Node

def seed (node : Node) : Seed :=
  ⟨node.element.bare, node.lineStart, node.lineEnd⟩

end Node

namespace OutlineItem

def seed? : OutlineItem → Option Seed
  | .node _ n => some n.seed
  | .undeclared _ => none

end OutlineItem

namespace Outline

def Shows : Outline → Grove → Prop
  | .nil, .nil => True
  | .tree item body next, .tree seed body' next' =>
    item.seed? = some seed ∧ Shows body body' ∧ Shows next next'
  | .mark clause next, .mark clause' next' =>
    { clause with entries := [] } = clause' ∧ Shows next next'
  | _, _ => False

theorem Shows.append {a b : Outline} {a' b' : Grove} (ha : a.Shows a') (hb : b.Shows b') :
    Shows (a.append b) (a'.append b') := by
  induction a generalizing a' with
  | nil =>
    cases a' with
    | nil => exact hb
    | _ => exact ha.elim
  | tree item body next _ ih =>
    cases a' with
    | tree seed body' next' => exact ⟨ha.1, ha.2.1, ih ha.2.2⟩
    | _ => exact ha.elim
  | mark clause next ih =>
    cases a' with
    | mark clause' next' => exact ⟨ha.1, ih ha.2⟩
    | _ => exact ha.elim

/-- What is written does not depend on identifiers. -/
theorem Shows.lines_eq {a : Outline} {a' : Grove} (h : a.Shows a') (depth : Nat) :
    a.lines depth = a'.lines depth := by
  induction a generalizing a' depth with
  | nil =>
    cases a' with
    | nil => rfl
    | _ => exact h.elim
  | tree item body next ihb ihn =>
    cases a' with
    | tree seed body' next' =>
      obtain ⟨same, inside, behind⟩ := h
      rw [lines, Grove.lines, ihb inside, ihn behind]
      cases item with
      | undeclared key => exact absurd same nofun
      | node slot node =>
        obtain rfl : node.seed = seed := Option.some.inj same
        obtain ⟨id, lineStart, lineEnd, element⟩ := node
        cases element <;> rfl
    | _ => exact h.elim
  | mark clause next ih =>
    cases a' with
    | mark clause' next' =>
      obtain ⟨rfl, behind⟩ := h
      rw [lines, Grove.lines, ih behind]
      rfl
    | _ => exact h.elim

end Outline

end SequenceDiagram
