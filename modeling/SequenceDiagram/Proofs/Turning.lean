import SequenceDiagram.Layout.Canvas
import SequenceDiagram.Proofs.Holding

set_option autoImplicit false

namespace SequenceDiagram

namespace Fragment

theorem sections_withCollapsed (f : Fragment) (collapsed : Bool) :
    (f.withCollapsed collapsed).sections = f.sections := by
  unfold withCollapsed
  split <;> rfl

theorem allEntries_withCollapsed (f : Fragment) (collapsed : Bool) :
    (f.withCollapsed collapsed).allEntries = f.allEntries := by
  unfold withCollapsed
  split <;> rfl

end Fragment

namespace Node
variable {id : NodeId} {collapsed : Bool}

def turn (id : NodeId) (collapsed : Bool) (node : Node) : Node :=
  match node.element with
  | .fragment f =>
    if node.id = id then { node with element := .fragment (f.withCollapsed collapsed) } else node
  | _ => node

theorem turn_of_ne {node : Node} (apart : node.id ≠ id) : node.turn id collapsed = node := by
  unfold turn
  split
  · exact if_neg apart
  · rfl

theorem turn_of_fragment {node : Node} {f : Fragment} (element : node.element = .fragment f) :
    node.turn node.id collapsed =
      { node with element := .fragment (f.withCollapsed collapsed) } := by
  rw [turn, element]
  exact if_pos rfl

/-- A reading of nodes that is blind for the flag. -/
def Blind {β : Type} (collapsed : Bool) (read : Node → β) : Prop :=
  ∀ own lineStart lineEnd f, read ⟨own, lineStart, lineEnd, .fragment (f.withCollapsed collapsed)⟩ =
    read ⟨own, lineStart, lineEnd, .fragment f⟩

theorem read_turn {β : Type} (read : Node → β) (blind : Blind collapsed read) (node : Node) :
    read (node.turn id collapsed) = read node := by
  obtain ⟨own, lineStart, lineEnd, element⟩ := node
  cases element with
  | fragment f =>
    rw [turn]
    dsimp only
    split
    · exact blind own lineStart lineEnd f
    · rfl
  | _ => rfl

theorem id_turn (node : Node) : (node.turn id collapsed).id = node.id :=
  read_turn Node.id (fun _ _ _ _ => rfl) node

theorem children_turn (node : Node) :
    (node.turn id collapsed).element.children = node.element.children :=
  read_turn (fun node => node.element.children)
    (fun _ _ _ f => f.allEntries_withCollapsed collapsed) node

theorem group_turn {node : Node} {g : ParticipantGroup} :
    (node.turn id collapsed).element = .group g ↔ node.element = .group g :=
  iff_of_eq (read_turn (fun node => node.element = .group g)
    (fun _ _ _ _ => propext ⟨nofun, nofun⟩) node)

end Node

namespace Document
open Layout
variable (document : Document) (id : NodeId) (collapsed : Bool)

def turned : Document :=
  ⟨document.nodes.map (Node.turn id collapsed)⟩

theorem map_turned {β : Type} {read : Node → β} (blind : Node.Blind collapsed read) :
    (document.turned id collapsed).nodes.map read = document.nodes.map read := by
  rw [turned, List.map_map]
  exact List.map_congr_left fun node _ => Node.read_turn read blind node

theorem flatMap_turned {β : Type} {read : Node → List β} (blind : Node.Blind collapsed read) :
    (document.turned id collapsed).nodes.flatMap read = document.nodes.flatMap read := by
  rw [List.flatMap_def, map_turned _ _ _ blind, List.flatMap_def]

theorem filterMap_turned {β : Type} {read : Node → Option β} (blind : Node.Blind collapsed read) :
    (document.turned id collapsed).nodes.filterMap read = document.nodes.filterMap read := by
  rw [turned, List.filterMap_map]
  exact List.filterMap_congr fun node _ => Node.read_turn read blind node

theorem findSome?_turned {β : Type} {read : Node → Option β} (blind : Node.Blind collapsed read) :
    (document.turned id collapsed).nodes.findSome? read = document.nodes.findSome? read ∧
      (document.turned id collapsed).nodes.reverse.findSome? read =
        document.nodes.reverse.findSome? read := by
  simp only [← List.head?_filterMap, List.filterMap_reverse, filterMap_turned _ _ _ blind, and_self]

theorem ids_turned :
    (document.turned id collapsed).nodes.map Node.id = document.nodes.map Node.id :=
  document.map_turned id collapsed fun _ _ _ _ => rfl

theorem references_turned : (document.turned id collapsed).references = document.references :=
  document.flatMap_turned id collapsed fun own _ _ f =>
    congrArg (List.map fun child => (own, child)) (f.allEntries_withCollapsed collapsed)

theorem groupedAliases_turned :
    (document.turned id collapsed).groupedAliases = document.groupedAliases :=
  document.flatMap_turned id collapsed fun _ _ _ _ => rfl

theorem roster_turned : (document.turned id collapsed).roster = document.roster :=
  congrArg distinct (document.flatMap_turned id collapsed fun _ _ _ _ => rfl)

theorem messages_turned : (document.turned id collapsed).messages = document.messages :=
  document.filterMap_turned id collapsed fun _ _ _ _ => rfl

theorem participantSpacing?_turned :
    (document.turned id collapsed).participantSpacing? = document.participantSpacing? :=
  (document.findSome?_turned id collapsed fun _ _ _ _ => rfl).2

theorem displayName_turned (key : String) :
    (document.turned id collapsed).displayName key = document.displayName key := by
  have declared : (document.turned id collapsed).declaration? key = document.declaration? key :=
    (document.findSome?_turned id collapsed fun _ _ _ _ => rfl).1
  rw [displayName, participant?, declared, displayName, participant?]

theorem title?_turned : title? (document.turned id collapsed) = title? document :=
  (document.findSome?_turned id collapsed fun _ _ _ _ => rfl).2

theorem rowTop_turned {α : Type} [Scalar α] (config : Config α) :
    rowTop (document.turned id collapsed) config = rowTop document config := by
  rw [rowTop, title?_turned, rowTop]

/-- The flag has no part in what stays fixed while nodes are placed. -/
theorem setting_turned {α : Type} [Scalar α] (config : Config α) :
    setting (document.turned id collapsed) config =
      { setting document config with document := document.turned id collapsed } := by
  have columns (top : α) : Columns.ofDocument (document.turned id collapsed) config top =
      Columns.ofDocument document config top := by
    simp only [Columns.ofDocument, Columns.widths, Columns.gap, roster_turned, messages_turned,
      participantSpacing?_turned, displayName_turned]
  simp only [setting, rowTop_turned, columns]

theorem get?_turned (key : NodeId) :
    (document.turned id collapsed).get? key = (document.get? key).map (Node.turn id collapsed) := by
  have same : (fun node : Node => decide (node.id = key)) ∘ Node.turn id collapsed =
      fun node => decide (node.id = key) :=
    funext (Node.read_turn (fun node => decide (node.id = key)) fun _ _ _ _ => rfl)
  rw [get?, turned, ← List.map_reverse, List.find?_map, same, get?]

theorem topLevel_turned :
    (document.turned id collapsed).topLevel = document.topLevel.map (Node.turn id collapsed) := by
  have same : (document.turned id collapsed).isTopLevel ∘ Node.turn id collapsed =
      document.isTopLevel := by
    funext node
    have grouped : (document.turned id collapsed).isGroupMember (node.turn id collapsed) =
        (document.turned id collapsed).isGroupMember node :=
      Node.read_turn _ (fun _ _ _ _ => rfl) node
    rw [Function.comp_apply, isTopLevel, grouped, Node.id_turn, isOwned, references_turned,
      isTopLevel, isOwned]
    simp only [isGroupMember, isGrouped, groupedAliases_turned]
  rw [topLevel, turned, List.filter_map, topLevel]
  exact congrArg (fun test => List.map _ (List.filter test document.nodes)) same

theorem mem_turned {node : Node} (mem : node ∈ document.nodes) :
    node.turn id collapsed ∈ (document.turned id collapsed).nodes :=
  List.mem_map_of_mem mem

theorem holds_turned_iff {owner child : Node} (memOwner : owner ∈ document.nodes)
    (memChild : child ∈ document.nodes) :
    (document.turned id collapsed).Holds (owner.turn id collapsed) (child.turn id collapsed) ↔
      document.Holds owner child := by
  rw [Holds, Holds, Node.children_turn, Node.id_turn]
  have memOwner' := document.mem_turned id collapsed memOwner
  have memChild' := document.mem_turned id collapsed memChild
  exact ⟨fun holds => ⟨memOwner, memChild, holds.2.2⟩,
    fun holds => ⟨memOwner', memChild', holds.2.2⟩⟩

theorem exists_of_mem_turned {node : Node} (mem : node ∈ (document.turned id collapsed).nodes) :
    ∃ before ∈ document.nodes, node = before.turn id collapsed := by
  obtain ⟨before, known, rfl⟩ := List.mem_map.1 mem
  exact ⟨before, known, rfl⟩

theorem place_turned (ids : (document.nodes.map Node.id).Nodup) {node : Node}
    (mem : node ∈ document.nodes) :
    (document.turned id collapsed).place (node.turn id collapsed) = document.place node := by
  have once : (document.turned id collapsed).nodes.Nodup :=
    List.Nodup.of_map Node.id (document.ids_turned id collapsed ▸ ids)
  have bound := place_lt mem
  have bound' : document.place node < (document.turned id collapsed).nodes.length := by
    rwa [turned, List.length_map]
  have here : (document.turned id collapsed).nodes[document.place node] =
      node.turn id collapsed := by
    simp only [turned, List.getElem_map]
    exact congrArg _ (List.getElem_idxOf bound)
  rw [place, ← here]
  exact once.idxOf_getElem _ bound'

theorem IsForest.turned {document : Document} (forest : document.IsForest) (id : NodeId)
    (collapsed : Bool) : (document.turned id collapsed).IsForest := by
  refine ⟨document.ids_turned id collapsed ▸ forest.ids,
    document.references_turned id collapsed ▸ forest.once, fun owner child holds => ?_,
    fun owner child g holds group => ?_⟩ <;>
    obtain ⟨owner, memOwner, rfl⟩ := document.exists_of_mem_turned id collapsed holds.1 <;>
    obtain ⟨child, memChild, rfl⟩ := document.exists_of_mem_turned id collapsed holds.2.1 <;>
    rw [holds_turned_iff _ _ _ memOwner memChild] at holds
  · rw [place_turned _ _ _ forest.ids memOwner, place_turned _ _ _ forest.ids memChild]
    exact forest.later owner child holds
  · obtain ⟨g', group'⟩ := forest.groups owner child g holds (Node.group_turn.1 group)
    exact ⟨g', Node.group_turn.2 group'⟩

/-- Nodes stand in the order of their places. -/
theorem pairwise_place {document : Document} (ids : (document.nodes.map Node.id).Nodup) :
    document.nodes.Pairwise fun p q => document.place p < document.place q := by
  have once := List.Nodup.of_map Node.id ids
  refine List.pairwise_iff_getElem.2 fun i j hi hj less => ?_
  rwa [place, place, once.idxOf_getElem, once.idxOf_getElem]

/-- A look-up finds the place of a node. -/
theorem slot?_eq_place {document : Document} (ids : (document.nodes.map Node.id).Nodup)
    {node : Node} (mem : node ∈ document.nodes) :
    document.slot? node.id = some (document.place node) := by
  have bound := place_lt mem
  have here : document.nodes[document.place node] = node := List.getElem_idxOf bound
  have found := @findIdx?_reverse _ (fun other => other.id = node.id) _ bound (by simp [here])
    fun j hj later => ?_
  · rw [slot?, found, Option.map_some]
    congr 1
    omega
  · have once := List.pairwise_iff_getElem.1 (List.pairwise_map.1 ids) _ j bound hj later
    rw [here] at once
    exact decide_eq_false (Ne.symm once)

/-- Replacing a fragment by itself with its flag set turns it. -/
theorem withNode_withCollapsed (ids : (document.nodes.map Node.id).Nodup) {node : Node}
    (mem : node ∈ document.nodes) {f : Fragment} (element : node.element = .fragment f) :
    document.withNode { node with element := .fragment (f.withCollapsed collapsed) } =
      .ok (document.turned node.id collapsed) := by
  have bound := place_lt mem
  have here : document.nodes[document.place node] = node := List.getElem_idxOf bound
  rw [withNode, slot?_eq_place ids mem, ← Node.turn_of_fragment element, turned]
  refine congrArg (fun nodes => Except.ok (Document.mk nodes)) (List.ext_getElem (by simp) ?_)
  intro i hi hi'
  rw [List.getElem_set, List.getElem_map]
  split
  · rename_i same
    subst same
    rw [here]
  · rename_i apart
    rw [List.length_map] at hi'
    refine (Node.turn_of_ne fun same => apart ?_).symm
    have equal := eq_of_id ids (List.getElem_mem hi') mem same
    rw [← equal]
    exact (List.Nodup.of_map _ ids).idxOf_getElem _ hi'

end Document

end SequenceDiagram
