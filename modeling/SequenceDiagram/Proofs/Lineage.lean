import Mathlib.Data.List.Perm.Subperm
import SequenceDiagram.Proofs.Touring
import SequenceDiagram.Proofs.WellOwned

set_option autoImplicit false

/-!
# Lines of descent

What `validate` leaves out may still be any graph: nodes stand in any order, some share an
identifier, and containers may hold one another in a circle. But every slot has one owner at
most. A line of descent that begins at a node without owner therefore never comes back to one of
its slots, and it has no more links than there are nodes.
-/
namespace SequenceDiagram

namespace Document
variable {document : Document}

theorem checkReferences_eq_ok_iff {references owners : List (NodeId × NodeId)}
    (once : (owners.map Prod.fst).Nodup) :
    document.checkReferences owners references = .ok () ↔
      (∀ reference ∈ references,
        document.contains reference.2 = true ∧ reference.2 ≠ reference.1) ∧
      (owners.map Prod.fst ++ references.map Prod.snd).Nodup := by
  refine ⟨fun ok => ?_, fun ⟨known, apart⟩ => document.checkReferences_eq_ok _ _ known apart⟩
  induction references generalizing owners with
  | nil => simpa using once
  | cons reference references ih =>
    obtain ⟨owner, child⟩ := reference
    simp only [checkReferences] at ok
    split at ok
    · cases ok
    · rename_i contained
      split at ok
      · cases ok
      · rename_i other
        split at ok
        · cases ok
        · rename_i fresh
          have absent : child ∉ owners.map Prod.fst := by
            intro mem
            obtain ⟨entry, known, rfl⟩ := List.mem_map.1 mem
            simpa using List.lookup_eq_none_iff.1 fresh entry known
          have once' : (((child, owner) :: owners).map Prod.fst).Nodup :=
            List.nodup_cons.2 ⟨absent, once⟩
          obtain ⟨known, apart⟩ := ih once' ok
          refine ⟨List.forall_mem_cons.2 ⟨⟨by simpa using contained, other⟩, known⟩, ?_⟩
          exact List.perm_middle.nodup_iff.2 apart

/-- Every reference has a target other than its owner, and no identifier is named twice. -/
theorem validate_eq_ok_iff :
    document.validate = .ok () ↔
      (∀ reference ∈ document.references,
        document.contains reference.2 = true ∧ reference.2 ≠ reference.1) ∧
      (document.references.map Prod.snd).Nodup :=
  checkReferences_eq_ok_iff List.nodup_nil

theorem getElem?_of_slot? {id : NodeId} {slot : Nat} (found : document.slot? id = some slot) :
    ∃ node, document.nodes[slot]? = some node ∧ node.id = id := by
  simp only [slot?, Option.map_eq_some_iff] at found
  obtain ⟨i, found, rfl⟩ := found
  obtain ⟨bound, hit, -⟩ := List.findIdx?_eq_some_iff_getElem.1 found
  rw [List.getElem_reverse] at hit
  exact ⟨_, List.getElem?_eq_getElem _, by simpa using hit⟩

theorem entry?_eq_some_iff {id : NodeId} {slot : Nat} {node : Node} :
    document.entry? id = some (slot, node) ↔
      document.slot? id = some slot ∧ document.nodes[slot]? = some node := by
  simp only [bind, entry?, Option.bind_eq_some_iff, Option.some.injEq, Prod.mk.injEq]
  constructor
  · rintro ⟨_, found, _, stands, rfl, rfl⟩
    exact ⟨found, stands⟩
  · rintro ⟨found, stands⟩
    exact ⟨slot, found, node, stands, rfl, rfl⟩

def childSlots (document : Document) (node : Node) : List Nat :=
  node.element.children.filterMap document.slot?

def Names (document : Document) (owner child : Nat) : Prop :=
  ∃ node, document.nodes[owner]? = some node ∧ child ∈ document.childSlots node

section
variable (valid : document.validate = .ok ())
include valid

theorem nodup_childSlots : (document.nodes.flatMap document.childSlots).Nodup := by
  have once := (validate_eq_ok_iff.1 valid).2
  rw [references, List.map_flatMap] at once
  have slots := once.filterMap (f := document.slot?) fun id id' slot found found' => by
    obtain ⟨node, stands, rfl⟩ := getElem?_of_slot? found
    obtain ⟨node', stands', rfl⟩ := getElem?_of_slot? found'
    rw [Option.some.inj (stands.symm.trans stands')]
  simp only [List.filterMap_flatMap, List.map_map, Function.comp_def, List.map_id'] at slots
  exact slots

theorem owner_unique {a b child : Nat} (ha : document.Names a child)
    (hb : document.Names b child) : a = b := by
  obtain ⟨p, standsA, namedA⟩ := ha
  obtain ⟨q, standsB, namedB⟩ := hb
  obtain ⟨boundA, rfl⟩ := List.getElem?_eq_some_iff.1 standsA
  obtain ⟨boundB, rfl⟩ := List.getElem?_eq_some_iff.1 standsB
  have apart := List.pairwise_iff_getElem.1 (List.nodup_flatMap.1 (nodup_childSlots valid)).2
  rcases Nat.lt_trichotomy a b with less | same | less
  · exact absurd namedB (apart a b boundA boundB less namedA)
  · exact same
  · exact absurd namedA (apart b a boundB boundA less namedB)

end

theorem isOwned_of_names {owner child : Nat} {node : Node} (names : document.Names owner child)
    (stands : document.nodes[child]? = some node) : document.isOwned node.id = true := by
  obtain ⟨holder, mem, named⟩ := names
  obtain ⟨id, listed, found⟩ := List.mem_filterMap.1 named
  obtain ⟨other, stands', rfl⟩ := getElem?_of_slot? found
  obtain rfl := Option.some.inj (stands.symm.trans stands')
  rw [isOwned, List.any_eq_true]
  exact ⟨(holder.id, node.id),
    List.mem_flatMap.2 ⟨holder, List.mem_of_getElem? mem, List.mem_map_of_mem listed⟩, by simp⟩

theorem isTopLevel_iff {node : Node} :
    document.isTopLevel node = true ↔
      document.isOwned node.id = false ∧ document.isGroupMember node = false := by
  simp [isTopLevel]

/-- Slots from one at the head up to one without owner, each named by the next in the list. -/
inductive Lineage (document : Document) : List Nat → Prop
  | root {slot : Nat} {node : Node} (stands : document.nodes[slot]? = some node)
      (unowned : document.isOwned node.id = false) : Lineage document [slot]
  | child {slot owner : Nat} {above : List Nat} (line : Lineage document (owner :: above))
      (names : document.Names owner slot) : Lineage document (slot :: owner :: above)

namespace Lineage

theorem of_append {a b : List Nat} (line : document.Lineage (a ++ b)) (ne : b ≠ []) :
    document.Lineage b := by
  induction a with
  | nil => exact line
  | cons slot a ih =>
    refine ih ?_
    cases h : a ++ b with
    | nil => exact absurd (List.append_eq_nil_iff.1 h).2 ne
    | cons owner above =>
      rw [List.cons_append, h] at line
      cases line with
      | child line _ => exact line

theorem lt_length {line : List Nat} (h : document.Lineage line) :
    ∀ slot ∈ line, slot < document.nodes.length := by
  induction h with
  | root stands _ => simpa using (List.getElem?_eq_some_iff.1 stands).1
  | child _ names ih =>
    obtain ⟨_, _, named⟩ := names
    obtain ⟨_, _, found⟩ := List.mem_filterMap.1 named
    obtain ⟨_, stands, _⟩ := getElem?_of_slot? found
    exact List.forall_mem_cons.2 ⟨(List.getElem?_eq_some_iff.1 stands).1, ih⟩

section
variable (valid : document.validate = .ok ())
include valid

theorem above_unique {slot : Nat} {above above' : List Nat}
    (line : document.Lineage (slot :: above)) (line' : document.Lineage (slot :: above')) :
    above = above' := by
  induction above generalizing slot above' with
  | nil =>
    cases line with
    | root stands unowned =>
      cases line' with
      | root _ _ => rfl
      | child _ names => simp [isOwned_of_names names stands] at unowned
  | cons owner above ih =>
    cases line with
    | child line names =>
      cases line' with
      | root stands unowned => simp [isOwned_of_names names stands] at unowned
      | child line' names' =>
        obtain rfl := owner_unique valid names names'
        rw [ih line line']

theorem nodup {line : List Nat} (h : document.Lineage line) : line.Nodup := by
  induction h with
  | root _ _ => exact List.nodup_singleton _
  | @child slot owner above line names ih =>
    refine List.nodup_cons.2 ⟨fun again => ?_, ih⟩
    -- the line up from the second time would be the line up from the first, but is shorter
    obtain ⟨front, rest, parted⟩ := List.append_of_mem again
    have upper : document.Lineage (slot :: rest) :=
      of_append (parted ▸ line) (List.cons_ne_nil _ _)
    have same := above_unique valid (.child line names) upper
    have shorter := congrArg List.length (same.symm.trans parted)
    simp only [List.length_append, List.length_cons] at shorter
    omega

theorem length_le {line : List Nat} (h : document.Lineage line) :
    line.length ≤ document.nodes.length := by
  have part := (h.nodup valid).subperm fun slot mem => List.mem_range.2 (h.lt_length slot mem)
  simpa using part.length_le

/-- What holds of a slot as soon as it holds, one level less deep, of the slots that it names
holds at the end of every line, as deep as there are nodes that the line leaves. -/
theorem descend {P : Nat → Nat → Prop}
    (step : ∀ depth slot, (∀ child, document.Names slot child → P depth child) →
      P (depth + 1) slot)
    {slot : Nat} {above : List Nat} (line : document.Lineage (slot :: above)) {depth : Nat}
    (deep : document.nodes.length ≤ above.length + depth) : P depth slot := by
  induction depth generalizing slot above with
  | zero =>
    have short := line.length_le valid
    rw [List.length_cons] at short
    omega
  | succ depth ih =>
    refine step depth slot fun child names => ih (.child line names) ?_
    rw [List.length_cons]
    omega

end

end Lineage

end Document

end SequenceDiagram
