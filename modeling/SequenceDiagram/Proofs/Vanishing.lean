import Mathlib.Data.Set.Finite.Basic
import Mathlib.Order.WellFounded
import SequenceDiagram.Proofs.Turning
import SequenceDiagram.Proofs.Written

set_option autoImplicit false

/-!
# What is not written

Checking a document rules out that a container holds itself, but not that containers hold one
another in a circle. Going up from a node, from owner to owner, comes either to a node without
owner or to such a circle. In the first case the node is written, in the second it is not.
-/
namespace SequenceDiagram

namespace Document
variable {document : Document}

theorem isOwned_iff {node : Node} (mem : node ∈ document.nodes) :
    document.isOwned node.id = true ↔ ∃ owner, document.Holds owner node := by
  rw [isOwned, List.any_eq_true]
  constructor
  · rintro ⟨reference, listed, names⟩
    obtain ⟨owner, known, named⟩ := List.mem_flatMap.1 listed
    obtain ⟨id, child, rfl⟩ := List.mem_map.1 named
    obtain rfl : id = node.id := by simpa using names
    exact ⟨owner, known, mem, child⟩
  · rintro ⟨owner, holds⟩
    exact ⟨_, mem_references holds, by simp⟩

/-- A node is held, at any distance, by a node without owner, or is one itself. -/
def IsRooted (document : Document) (node : Node) : Prop :=
  ∃ root ∈ document.nodes, document.isOwned root.id = false ∧
    Relation.ReflTransGen document.Holds root node

/-- A node is held, at any distance, by a node that holds itself at some distance. -/
def IsCircling (document : Document) (node : Node) : Prop :=
  ∃ x, Relation.TransGen document.Holds x x ∧ Relation.TransGen document.Holds x node

section
variable (ids : (document.nodes.map Node.id).Nodup)
include ids

theorem place_of_getElem? {slot : Nat} {node : Node} (stands : document.nodes[slot]? = some node) :
    document.place node = slot := by
  obtain ⟨bound, rfl⟩ := List.getElem?_eq_some_iff.1 stands
  exact (List.Nodup.of_map _ ids).idxOf_getElem _ bound

theorem names_iff {owner child : Node} (memOwner : owner ∈ document.nodes)
    (memChild : child ∈ document.nodes) :
    document.Names (document.place owner) (document.place child) ↔
      document.Holds owner child := by
  constructor
  · rintro ⟨holder, stands, named⟩
    obtain rfl := Option.some.inj (stands.symm.trans (getElem?_place memOwner))
    obtain ⟨id, listed, found⟩ := List.mem_filterMap.1 named
    obtain ⟨other, stands', rfl⟩ := getElem?_of_slot? found
    obtain rfl := Option.some.inj (stands'.symm.trans (getElem?_place memChild))
    exact ⟨memOwner, memChild, listed⟩
  · rintro ⟨-, -, listed⟩
    exact ⟨owner, getElem?_place memOwner,
      List.mem_filterMap.2 ⟨child.id, listed, slot?_eq_place ids memChild⟩⟩

theorem lineage_iff {node : Node} (mem : node ∈ document.nodes) :
    (∃ above, document.Lineage (document.place node :: above)) ↔ document.IsRooted node := by
  constructor
  · rintro ⟨above, line⟩
    induction above generalizing node with
    | nil =>
      cases line with
      | root stands unowned =>
        obtain rfl := Option.some.inj (stands.symm.trans (getElem?_place mem))
        exact ⟨_, mem, unowned, .refl⟩
    | cons slot above ih =>
      cases line with
      | child line names =>
        have holder := names
        obtain ⟨owner, stands, -⟩ := holder
        obtain rfl := place_of_getElem? ids stands
        have known := List.mem_of_getElem? stands
        obtain ⟨root, knownRoot, unowned, path⟩ := ih known line
        exact ⟨root, knownRoot, unowned, path.tail ((names_iff ids known mem).1 names)⟩
  · rintro ⟨root, knownRoot, unowned, path⟩
    induction path with
    | refl => exact ⟨[], .root (getElem?_place knownRoot) unowned⟩
    | @tail owner node _ holds ih =>
      obtain ⟨above, line⟩ := ih holds.1
      exact ⟨_, .child line ((names_iff ids holds.1 mem).2 holds)⟩

end

/-- There is no going up for ever: one end of the way is a root, the other one a circle. -/
theorem rooted_or_circling {node : Node} (mem : node ∈ document.nodes) :
    document.IsRooted node ∨ document.IsCircling node := by
  by_cases circling : document.IsCircling node
  · exact .inr circling
  refine .inl ?_
  let Above := { x : Node // x ∈ document.nodes ∧ Relation.ReflTransGen document.Holds x node }
  let Over (a b : Above) : Prop := Relation.TransGen document.Holds a.1 b.1
  have : Finite Above := ((List.finite_toSet document.nodes).subset fun _ h => h.1).to_subtype
  have : IsTrans Above Over := ⟨fun _ _ _ => Relation.TransGen.trans⟩
  have : Std.Irrefl Over := ⟨fun a circle => circling ⟨a.1, circle, circle.trans_left a.2.2⟩⟩
  obtain ⟨root, -, least⟩ := (Finite.wellFounded_of_trans_of_irrefl Over).has_min Set.univ
    ⟨⟨node, mem, .refl⟩, trivial⟩
  refine ⟨root.1, root.2.1, Bool.eq_false_iff.2 fun owned => ?_, root.2.2⟩
  obtain ⟨owner, holds⟩ := (isOwned_iff root.2.1).1 owned
  exact least ⟨owner, holds.1, .head holds root.2.2⟩ trivial (.single holds)

section
variable (ids : (document.nodes.map Node.id).Nodup) (valid : document.validate = .ok ())
include ids valid

theorem owner_unique_of_holds {a b child : Node} (ha : document.Holds a child)
    (hb : document.Holds b child) : a = b := by
  have same := owner_unique valid ((names_iff ids ha.1 ha.2.1).2 ha)
    ((names_iff ids hb.1 hb.2.1).2 hb)
  have stands := getElem?_place ha.1
  rw [same, getElem?_place hb.1] at stands
  exact (Option.some.inj stands).symm

/-- A circle above a node is above its owner as well, and so it would be above the root. -/
theorem not_circling_of_rooted {node : Node} (rooted : document.IsRooted node) :
    ¬document.IsCircling node := by
  obtain ⟨root, known, unowned, path⟩ := rooted
  induction path with
  | refl =>
    rintro ⟨x, -, above⟩
    obtain ⟨owner, holds⟩ : ∃ owner, document.Holds owner root := by
      cases above with
      | single holds => exact ⟨x, holds⟩
      | tail _ holds => exact ⟨_, holds⟩
    simp [(isOwned_iff known).2 ⟨owner, holds⟩] at unowned
  | tail _ holds ih =>
    rintro ⟨x, circle, above⟩
    refine ih ⟨x, circle, ?_⟩
    cases above with
    | single holds' => exact owner_unique_of_holds ids valid holds' holds ▸ circle
    | tail above holds' => exact owner_unique_of_holds ids valid holds' holds ▸ above

/-- In a document with one node for each identifier that passes its check, every node that no
group writes is written once or not at all: once if a node without owner is above it, and not at
all if a circle of containers is above it, and it is always one of the two. -/
theorem written_or_circling :
    ∃ outline, document.outline? = some outline ∧ document.write? = some outline.toText ∧
      ∀ node ∈ document.nodes, document.isGroupMember node = false →
        (outline.slots.count (document.place node) = 1 ↔ document.IsRooted node) ∧
        (outline.slots.count (document.place node) = 0 ↔ document.IsCircling node) ∧
        (document.IsRooted node ↔ ¬document.IsCircling node) := by
  obtain ⟨outline, drawn⟩ := endsBy_outlineTo valid
  have found := drawn _ (le_refl _)
  refine ⟨outline, by rw [outline?_eq, found], by rw [write?, outline?_eq, found]; rfl, ?_⟩
  intro node mem free
  have apart := @not_circling_of_rooted _ ids valid node
  have either := rooted_or_circling mem
  have once (rooted : document.IsRooted node) :
      outline.slots.count (document.place node) = 1 := by
    obtain ⟨above, line⟩ := (lineage_iff ids mem).2 rooted
    exact count_of_lineage found (getElem?_place mem) free valid line
  have never (circling : document.IsCircling node) :
      outline.slots.count (document.place node) = 0 := by
    refine List.count_eq_zero.2 fun written => apart ?_ circling
    exact (lineage_iff ids mem).1 (lineage_of_mem_slots found (getElem?_place mem) free written)
  refine ⟨⟨fun one => ?_, once⟩, ⟨fun zero => ?_, never⟩, apart, either.resolve_right⟩
  · refine either.resolve_right fun circling => ?_
    rw [never circling] at one
    cases one
  · refine either.resolve_left fun rooted => ?_
    rw [once rooted] at zero
    cases zero

end

/-- Two fragments hold each other, and one of them holds a comment as well: all three are lost. -/
theorem written_or_circling_of_circle :
    let fragment (entries : List NodeId) := Element.fragment ⟨.opt, "", none, entries, [], none⟩
    let document := Document.mk [⟨⟨0⟩, 1, 2, fragment [⟨1⟩]⟩, ⟨⟨1⟩, 3, 5, fragment [⟨0⟩, ⟨2⟩]⟩,
      ⟨⟨2⟩, 4, 4, .comment " lost"⟩, ⟨⟨3⟩, 6, 8, fragment [⟨4⟩]⟩, ⟨⟨4⟩, 7, 7, .comment " kept"⟩]
    (document.nodes.map Node.id).Nodup ∧ document.validate = .ok () ∧
      document.write? = some "opt\n  // kept\nend\n" ∧
      ∃ outline, document.outline? = some outline ∧ document.write? = some outline.toText ∧
        ∀ node ∈ document.nodes, document.isGroupMember node = false →
          (outline.slots.count (document.place node) = 1 ↔ document.IsRooted node) ∧
          (outline.slots.count (document.place node) = 0 ↔ document.IsCircling node) ∧
          (document.IsRooted node ↔ ¬document.IsCircling node) := by
  intro fragment document
  have ids : (document.nodes.map Node.id).Nodup := by decide
  have valid : document.validate = .ok () := by decide
  exact ⟨ids, valid, by decide +kernel, written_or_circling ids valid⟩

end Document

end SequenceDiagram
