import SequenceDiagram.Diagram.Meaning
import SequenceDiagram.Proofs.Lineage
import SequenceDiagram.Proofs.Outlining

set_option autoImplicit false

namespace SequenceDiagram

/-- Under every bound from some one on, a run comes to the same result. -/
def EndsBy {α : Type} (bound : Nat) (run : Nat → Option α) : Prop :=
  ∃ result, ∀ depth, bound ≤ depth → run depth = some result

namespace EndsBy
variable {α β γ : Type} {bound : Nat}

theorem const {run : Nat → Option α} {result : α} (same : ∀ depth, run depth = some result) :
    EndsBy bound run :=
  ⟨result, fun depth _ => same depth⟩

theorem both {first : Nat → Option α} {second : Nat → Option β} (h : EndsBy bound first)
    (h' : EndsBy bound second) (join : α → β → γ) :
    EndsBy bound fun depth =>
      (first depth).bind fun a => (second depth).bind fun b => some (join a b) := by
  obtain ⟨a, ends⟩ := h
  obtain ⟨b, ends'⟩ := h'
  refine ⟨join a b, fun depth deep => ?_⟩
  simp only [ends depth deep, ends' depth deep]
  rfl

theorem succ {run : Nat → Option α} (h : EndsBy bound fun depth => run (depth + 1)) :
    EndsBy (bound + 1) run := by
  obtain ⟨result, ends⟩ := h
  refine ⟨result, fun depth deep => ?_⟩
  obtain ⟨below, rfl⟩ : ∃ below, depth = below + 1 := ⟨depth - 1, by omega⟩
  exact ends below (by omega)

end EndsBy

namespace Document
variable {document : Document}

theorem exists_slot_iff {id : NodeId} {node : Node} :
    (∃ slot, document.entry? id = some (slot, node)) ↔ document.get? id = some node := by
  refine ⟨fun ⟨_, found⟩ => get?_of_entry found, fun found => ?_⟩
  cases named : document.slot? id with
  | some slot =>
    obtain ⟨other, stands, -⟩ := getElem?_of_slot? named
    have entered := entry?_eq_some_iff.2 ⟨named, stands⟩
    obtain rfl := Option.some.inj ((get?_of_entry entered).symm.trans found)
    exact ⟨slot, entered⟩
  | none =>
    rw [slot?, Option.map_eq_none_iff, List.findIdx?_eq_none_iff] at named
    have absent := named node (List.mem_of_find?_eq_some found)
    have same := List.find?_some found
    simp only [absent, Bool.false_eq_true] at same

theorem of_declaration? {key : String} {node : Node} {p : Participant}
    (found : document.declaration? key = some (node, p)) :
    node ∈ document.nodes ∧ node.element = .participant p ∧ p.key = key := by
  obtain ⟨other, mem, declares⟩ := List.exists_of_findSome?_eq_some found
  split at declares
  · rename_i q element
    split at declares
    · rename_i same
      obtain ⟨rfl, rfl⟩ := Prod.mk.inj (Option.some.inj declares)
      exact ⟨mem, element, same⟩
    · cases declares
  all_goals cases declares

/-- An alias stands for its declaration, or for itself when it has none. -/
theorem declaredMember_cases (key : String) :
    (document.declaredMember key).2 = .undeclared key ∨
    ∃ node p, (document.declaredMember key).2 =
        .node (document.nodes.findIdx (· = node)) node ∧
      node ∈ document.nodes ∧ node.element = .participant p ∧ p.key = key := by
  rw [declaredMember]
  split
  · rename_i node p found
    exact .inr ⟨node, p, rfl, of_declaration? found⟩
  · exact .inl rfl

def topItems (document : Document) : List OutlineItem :=
  (document.nodes.zipIdx.filter fun entry => document.isTopLevel entry.1).map fun entry =>
    .node entry.2 entry.1

def outlineTo? (document : Document) (depth : Nat) : Option Outline :=
  outlineRow? (document.outlineBody? depth) document.topItems

theorem outline?_eq : document.outline? = document.outlineTo? document.nodes.length := rfl

theorem mem_topItems {item : OutlineItem} :
    item ∈ document.topItems ↔ ∃ slot node, item = .node slot node ∧
      document.nodes[slot]? = some node ∧ document.isTopLevel node = true := by
  simp only [topItems, List.mem_map, List.mem_filter, Prod.exists, List.mk_mem_zipIdx_iff_getElem?]
  constructor
  · rintro ⟨node, slot, ⟨stands, top⟩, rfl⟩
    exact ⟨slot, node, rfl, stands, top⟩
  · rintro ⟨slot, node, rfl, stands, top⟩
    exact ⟨node, slot, ⟨stands, top⟩, rfl⟩

section
variable {depth slot : Nat} {node : Node}

theorem outlineBody?_of_fragment {f : Fragment} (element : node.element = .fragment f) :
    document.outlineBody? (depth + 1) (.node slot node) =
      (document.outlineSection? (document.outlineBody? depth) f.entries).bind fun entries =>
        (document.outlineClauses? (document.outlineBody? depth) f.elseClauses).bind fun clauses =>
          some (entries.append clauses) := by
  simp [outlineBody?, element]

theorem outlineBody?_of_group {g : ParticipantGroup} (element : node.element = .group g) :
    document.outlineBody? (depth + 1) (.node slot node) =
      outlineRow? (document.outlineBody? depth) (document.orderedMembers g) := by
  simp [outlineBody?, element]

end

section
variable {bound : Nat} {body? : Nat → OutlineItem → Option Outline}

theorem endsBy_outlineRow {items : List OutlineItem}
    (each : ∀ item ∈ items, EndsBy bound fun depth => body? depth item) :
    EndsBy bound fun depth => outlineRow? (body? depth) items := by
  induction items with
  | nil => exact .const fun _ => rfl
  | cons item items ih =>
    obtain ⟨first, rest⟩ := List.forall_mem_cons.1 each
    exact first.both (ih rest) _

theorem endsBy_outlineSection {ids : List NodeId}
    (each : ∀ id ∈ ids, ∀ slot node, document.entry? id = some (slot, node) →
      EndsBy bound fun depth => body? depth (.node slot node)) :
    EndsBy bound fun depth => document.outlineSection? (body? depth) ids := by
  refine endsBy_outlineRow fun item mem => ?_
  obtain ⟨⟨slot, node⟩, kept, rfl⟩ := List.mem_map.1 mem
  obtain ⟨id, named, found⟩ := List.mem_filterMap.1 (List.mem_filter.1 kept).1
  exact each id named slot node found

theorem endsBy_outlineClauses {clauses : List ElseClause}
    (each : ∀ id ∈ clauses.flatMap ElseClause.entries, ∀ slot node,
      document.entry? id = some (slot, node) →
      EndsBy bound fun depth => body? depth (.node slot node)) :
    EndsBy bound fun depth => document.outlineClauses? (body? depth) clauses := by
  induction clauses with
  | nil => exact .const fun _ => rfl
  | cons clause clauses ih =>
    rw [List.flatMap_cons, List.forall_mem_append] at each
    exact (endsBy_outlineSection each.1).both (ih each.2) _

end

theorem endsBy_outlineBody {bound slot : Nat} {node : Node}
    (each : ∀ id ∈ node.element.children, ∀ slot child, document.entry? id = some (slot, child) →
      EndsBy bound fun depth => document.outlineBody? depth (.node slot child)) :
    EndsBy (bound + 1) fun depth => document.outlineBody? depth (.node slot node) := by
  refine EndsBy.succ ?_
  cases element : node.element with
  | fragment f =>
    rw [element] at each
    obtain ⟨main, others⟩ := List.forall_mem_append.1 each
    simpa only [outlineBody?_of_fragment element] using
      (endsBy_outlineSection main).both (endsBy_outlineClauses others) Forest.append
  | group g =>
    rw [element] at each
    simp only [outlineBody?_of_group element]
    refine endsBy_outlineRow fun item mem => ?_
    obtain ⟨member, listed, rfl⟩ := List.mem_map.1 mem
    rw [List.mem_mergeSort, groupMembers_eq, List.mem_append] at listed
    rcases listed with declared | nested
    · obtain ⟨key, -, rfl⟩ := List.mem_map.1 declared
      obtain alone | ⟨declarer, p, stands, -, isParticipant, -⟩ := declaredMember_cases key
      · exact .const fun depth => by rw [alone, outlineBody?]
      · have leaf : IsLeaf declarer.element := by simp [isParticipant, IsLeaf]
        exact .const fun depth => by rw [stands, document.body_of_leaf leaf]
    · obtain ⟨⟨slot, child⟩, entered, rfl⟩ := List.mem_map.1 nested
      obtain ⟨id, named, found⟩ := List.mem_filterMap.1 entered
      exact each id named slot child found
  | _ =>
    have leaf : IsLeaf node.element := by simp [element, IsLeaf]
    exact .const fun depth => document.body_of_leaf leaf

def meaningTo? (document : Document) (depth : Nat) : Option Meaning :=
  meaningRow? (document.meaningTree? depth) document.topLevel

theorem meaning?_eq : document.meaning? = document.meaningTo? document.nodes.length := rfl

section
variable {bound : Nat} {tree? : Nat → Element → Option (Option (MeaningHead × Meaning))}

theorem endsBy_meaningRow {nodes : List Node}
    (each : ∀ node ∈ nodes, EndsBy bound fun depth => tree? depth node.element) :
    EndsBy bound fun depth => meaningRow? (tree? depth) nodes := by
  induction nodes with
  | nil => exact .const fun _ => rfl
  | cons node nodes ih =>
    obtain ⟨⟨tree, first⟩, rest⟩ := List.forall_mem_cons.1 each
    obtain ⟨next, behind⟩ := ih rest
    cases tree with
    | none =>
      exact ⟨next, fun depth deep => by
        simp [meaningRow?, first depth deep, behind depth deep]⟩
    | some tree =>
      exact ⟨.tree tree.1 tree.2 next, fun depth deep => by
        simp [meaningRow?, first depth deep, behind depth deep]⟩

theorem endsBy_meaningSection {ids : List NodeId}
    (each : ∀ id ∈ ids, ∀ node, document.get? id = some node →
      EndsBy bound fun depth => tree? depth node.element) :
    EndsBy bound fun depth => document.meaningSection? (tree? depth) ids := by
  refine endsBy_meaningRow fun node mem => ?_
  obtain ⟨id, named, found⟩ := List.mem_filterMap.1 (List.mem_filter.1 mem).1
  exact each id named node found

theorem endsBy_meaningClauses {clauses : List ElseClause}
    (each : ∀ id ∈ clauses.flatMap ElseClause.entries, ∀ node, document.get? id = some node →
      EndsBy bound fun depth => tree? depth node.element) :
    EndsBy bound fun depth => document.meaningClauses? (tree? depth) clauses := by
  induction clauses with
  | nil => exact .const fun _ => rfl
  | cons clause clauses ih =>
    rw [List.flatMap_cons, List.forall_mem_append] at each
    exact (endsBy_meaningSection each.1).both (ih each.2) _

end

theorem endsBy_meaningTree {bound : Nat} {element : Element}
    (each : ∀ id ∈ element.children, ∀ node, document.get? id = some node →
      EndsBy bound fun depth => document.meaningTree? depth node.element) :
    EndsBy (bound + 1) fun depth => document.meaningTree? depth element := by
  refine EndsBy.succ ?_
  cases element with
  | fragment f =>
    obtain ⟨main, others⟩ := List.forall_mem_append.1 each
    exact (endsBy_meaningSection main).both (endsBy_meaningClauses others) _
  | group g =>
    have known : ∀ node ∈ g.nestedGroups.filterMap document.get?,
        EndsBy bound fun depth => document.meaningTree? depth node.element := fun node mem => by
      obtain ⟨id, named, found⟩ := List.mem_filterMap.1 mem
      exact each id named node found
    obtain ⟨nested, ends⟩ := endsBy_meaningRow known
    exact ⟨some (.group g.header (g.participants.map document.groupMember), nested),
      fun depth deep => by simp [meaningTree?, ends depth deep]⟩
  | _ => exact .const fun _ => rfl

section
variable (valid : document.validate = .ok ())
include valid

/-- What ends one level after the same for all children ends within the number of nodes, at every
node without owner. -/
theorem endsBy_of_unowned {α : Type} (run : Nat → Node → Nat → Option α)
    (step : ∀ bound slot node, document.nodes[slot]? = some node →
      (∀ id ∈ node.element.children, ∀ slot' child, document.entry? id = some (slot', child) →
        EndsBy bound (run slot' child)) → EndsBy (bound + 1) (run slot node))
    {slot : Nat} {node : Node} (stands : document.nodes[slot]? = some node)
    (unowned : document.isOwned node.id = false) :
    EndsBy document.nodes.length (run slot node) := by
  refine (Lineage.root stands unowned).descend valid
    (P := fun bound slot => ∀ node, document.nodes[slot]? = some node →
      EndsBy bound (run slot node))
    (fun bound slot each node stands => ?_) (Nat.le_add_left _ _) node stands
  refine step bound slot node stands fun id named slot' child found => ?_
  obtain ⟨found, stands'⟩ := entry?_eq_some_iff.1 found
  exact each slot' ⟨node, stands, List.mem_filterMap.2 ⟨id, named, found⟩⟩ child stands'

theorem endsBy_outlineTo : EndsBy document.nodes.length document.outlineTo? := by
  refine endsBy_outlineRow fun item mem => ?_
  obtain ⟨slot, node, rfl, stands, top⟩ := mem_topItems.1 mem
  exact endsBy_of_unowned valid
    (fun slot node depth => document.outlineBody? depth (.node slot node))
    (fun _ _ _ _ each => endsBy_outlineBody each) stands (isTopLevel_iff.1 top).1

theorem endsBy_meaningTo : EndsBy document.nodes.length document.meaningTo? := by
  refine endsBy_meaningRow fun node mem => ?_
  obtain ⟨mem, top⟩ := List.mem_filter.1 mem
  obtain ⟨slot, stands⟩ := List.mem_iff_getElem?.1 mem
  refine endsBy_of_unowned valid (fun _ node depth => document.meaningTree? depth node.element)
    (fun bound _ _ _ each => endsBy_meaningTree fun id named child found => ?_) stands
    (isTopLevel_iff.1 top).1
  obtain ⟨slot', entered⟩ := exists_slot_iff.2 found
  exact each id named slot' child entered

end

end Document

end SequenceDiagram
