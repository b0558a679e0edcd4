import Mathlib.Logic.Relation
import SequenceDiagram.Proofs.Canonical

set_option autoImplicit false

namespace SequenceDiagram

namespace Document

def Holds (document : Document) (owner child : Node) : Prop :=
  owner ∈ document.nodes ∧ child ∈ document.nodes ∧ child.id ∈ owner.element.children

def place (document : Document) (node : Node) : Nat :=
  document.nodes.idxOf node

structure IsForest (document : Document) : Prop where
  ids : (document.nodes.map Node.id).Nodup
  once : (document.references.map Prod.snd).Nodup
  later : ∀ owner child, document.Holds owner child → document.place owner < document.place child
  groups : ∀ owner child g, document.Holds owner child → owner.element = .group g →
    ∃ g', child.element = .group g'

variable {document : Document}

theorem mem_references {owner child : Node} (h : document.Holds owner child) :
    (owner.id, child.id) ∈ document.references :=
  List.mem_flatMap.2 ⟨owner, h.1, List.mem_map_of_mem h.2.2⟩

theorem place_lt {node : Node} (mem : node ∈ document.nodes) :
    document.place node < document.nodes.length :=
  List.idxOf_lt_length_of_mem mem

section
variable (ids : (document.nodes.map Node.id).Nodup)
include ids

theorem eq_of_id {p q : Node} (hp : p ∈ document.nodes) (hq : q ∈ document.nodes)
    (same : p.id = q.id) : p = q :=
  List.inj_on_of_nodup_map ids hp hq same

theorem get?_eq {node : Node} (mem : node ∈ document.nodes) :
    document.get? node.id = some node := by
  cases found : document.get? node.id with
  | none =>
    have absent := List.find?_eq_none.1 found node (List.mem_reverse.2 mem)
    simp at absent
  | some other =>
    have same : other.id = node.id := by simpa using List.find?_some found
    have known := List.mem_reverse.1 (List.mem_of_find?_eq_some found)
    rw [eq_of_id ids known mem same]

theorem get?_eq_some_iff {id : NodeId} {node : Node} :
    document.get? id = some node ↔ node ∈ document.nodes ∧ node.id = id := by
  constructor
  · intro found
    exact ⟨List.mem_reverse.1 (List.mem_of_find?_eq_some found),
      by simpa using List.find?_some found⟩
  · rintro ⟨mem, rfl⟩
    exact get?_eq ids mem

end

namespace IsForest

theorem eq_of_id (forest : document.IsForest) {p q : Node} (hp : p ∈ document.nodes)
    (hq : q ∈ document.nodes) (same : p.id = q.id) : p = q :=
  Document.eq_of_id forest.ids hp hq same

theorem get?_eq_some_iff (forest : document.IsForest) {id : NodeId} {node : Node} :
    document.get? id = some node ↔ node ∈ document.nodes ∧ node.id = id :=
  Document.get?_eq_some_iff forest.ids

/-- A node has one owner at most. -/
theorem owner_unique (forest : document.IsForest) {a b child : Node} (ha : document.Holds a child)
    (hb : document.Holds b child) : a = b := by
  have same := List.inj_on_of_nodup_map forest.once (mem_references ha) (mem_references hb) rfl
  exact forest.eq_of_id ha.1 hb.1 (congrArg Prod.fst same)

theorem nodup_children (forest : document.IsForest) {node : Node} (mem : node ∈ document.nodes) :
    node.element.children.Nodup := by
  have once := forest.once
  rw [references, List.map_flatMap] at once
  simpa [Function.comp_def] using (List.nodup_flatMap.1 once).1 node mem

/-- An owner at any distance stands before what it holds. -/
theorem place_lt_of_transGen (forest : document.IsForest) {owner child : Node}
    (h : Relation.TransGen document.Holds owner child) :
    document.place owner < document.place child := by
  induction h with
  | single holds => exact forest.later _ _ holds
  | tail _ holds ih => exact ih.trans (forest.later _ _ holds)

/-- What holds of a node as soon as it holds of all its children holds of every node. -/
theorem induction_up (forest : document.IsForest) {P : Node → Prop}
    (step : ∀ node ∈ document.nodes, (∀ child, document.Holds node child → P child) → P node) :
    ∀ node ∈ document.nodes, P node := by
  have bounded : ∀ height, ∀ node ∈ document.nodes,
      document.nodes.length - document.place node ≤ height → P node := by
    intro height
    induction height with
    | zero =>
      intro node mem low
      have := place_lt mem
      omega
    | succ height ih =>
      intro node mem low
      refine step node mem fun child holds => ih child holds.2.1 ?_
      have := forest.later node child holds
      have := place_lt mem
      omega
  exact fun node mem => bounded _ node mem (le_refl _)

/-- What holds of a node as soon as it holds of its owner holds of every node. -/
theorem induction_down (forest : document.IsForest) {P : Node → Prop}
    (step : ∀ node ∈ document.nodes, (∀ owner, document.Holds owner node → P owner) → P node) :
    ∀ node ∈ document.nodes, P node := by
  have bounded : ∀ depth, ∀ node ∈ document.nodes, document.place node < depth → P node := by
    intro depth
    induction depth with
    | zero => exact fun _ _ less => absurd less (Nat.not_lt_zero _)
    | succ depth ih =>
      intro node mem less
      refine step node mem fun owner holds => ih owner holds.1 ?_
      have := forest.later owner node holds
      omega
  exact fun node mem => bounded _ node mem (Nat.lt_succ_self _)

end IsForest

end Document

namespace Grove

variable (first : UInt32)

theorem exists_nested {row : Grove} {slot j : Nat} (h : j ∈ nestedSlots slot row) :
    ∃ node g, (node, j) ∈ numbered first slot row ∧ node.element = .group g := by
  induction row generalizing slot with
  | nil => simp [nestedSlots] at h
  | tree seed body next _ ih =>
    rw [numbered_tree]
    rw [nestedSlots, List.mem_append] at h
    rcases h with h | h
    · obtain ⟨element, lineStart, lineEnd⟩ := seed
      cases element with
      | group g =>
        obtain rfl : j = slot := by simpa using h
        exact ⟨_, fillGroup first g (j + 1) body, List.mem_cons_self, rfl⟩
      | _ => simp at h
    · obtain ⟨node, g, mem, element⟩ := ih h
      exact ⟨node, g, by simp [mem], element⟩
  | mark clause next ih => exact ih h

theorem exists_group_of_mem_children {place : Place} {grove : Grove} {slot : Nat}
    (proper : grove.Proper place) {node : Node} {i : Nat}
    (mem : (node, i) ∈ numbered first slot grove) {g : ParticipantGroup}
    (element : node.element = .group g) {id : NodeId} (child : id ∈ node.element.children) :
    ∃ other j g', (other, j) ∈ numbered first slot grove ∧ other.id = id ∧
      other.element = .group g' := by
  induction grove generalizing place slot with
  | nil => simp [numbered, plant] at mem
  | tree seed body next ihb ihn =>
    have named := children_fill first proper (slot + 1)
    rw [numbered_tree] at mem ⊢
    rw [List.mem_cons, List.mem_append] at mem
    rcases mem with same | mem | mem
    · obtain ⟨rfl, rfl⟩ := Prod.mk.inj same
      rw [named] at child
      obtain ⟨seedElement, lineStart, lineEnd⟩ := seed
      cases seedElement with
      | group g =>
        obtain ⟨j, nested, rfl⟩ := List.mem_map.1 child
        obtain ⟨other, g', mem, other_group⟩ := exists_nested first nested
        exact ⟨other, j, g', by simp [mem], id_of_mem_numbered first mem, other_group⟩
      | _ => cases element
    · obtain ⟨place', proper'⟩ := exists_proper_body proper
      obtain ⟨other, j, g', mem, found⟩ := ihb proper' mem
      exact ⟨other, j, g', by simp [mem], found⟩
    · obtain ⟨other, j, g', mem, found⟩ := ihn proper.2 mem
      exact ⟨other, j, g', by simp [mem], found⟩
  | mark clause next ih => exact ih proper.2.2 mem

end Grove

namespace Document

theorem getElem?_place {document : Document} {node : Node} (mem : node ∈ document.nodes) :
    document.nodes[document.place node]? = some node := by
  rw [List.getElem?_eq_getElem (place_lt mem)]
  exact congrArg some (List.getElem_idxOf _)

/-- The nodes of a document that is read form a forest, as long as they have identifiers of their
own. -/
theorem isForest_readFrom (first : UInt32) (text : String)
    (fits : (readFrom first text).nodes.length ≤ 2 ^ 32) : (readFrom first text).IsForest := by
  obtain ⟨grove, proper, spans, -, planted⟩ := readFrom_eq_plant first text
  have size := fits
  rw [planted, Grove.length_plant] at size
  have owned : (readFrom first text).IsWellOwned first :=
    planted ▸ Grove.isWellOwned_plant first proper spans size
  have numbered : (readFrom first text).IsNumbered first := ⟨owned.ids, fits⟩
  have unique : ∀ p ∈ (readFrom first text).nodes, ∀ q ∈ (readFrom first text).nodes,
      p.id = q.id → p = q := by
    intro p hp q hq same
    have places := index_eq_of_id first text fits (getElem?_place hp) (getElem?_place hq) same
    exact Option.some.inj ((getElem?_place hp).symm.trans (places ▸ getElem?_place hq))
  refine ⟨(nodup_nodes_readFrom first text fits).map_on unique, ?_, ?_, ?_⟩
  · rw [planted]
    exact Grove.nodup_referred_plant first proper size
  · rintro owner child ⟨memOwner, memChild, names⟩
    obtain ⟨slots, named, -, found⟩ := owned.children _ owner (getElem?_place memOwner)
    have slot : (readFrom first text).slot? child.id ∈ slots.map some :=
      named ▸ List.mem_map_of_mem names
    rw [owned.ids _ child (getElem?_place memChild), numbered.slot?_eq (place_lt memChild)] at slot
    exact (found _ (by simpa using slot)).1
  · rintro owner child g ⟨memOwner, memChild, names⟩ element
    have entry := getElem?_place memOwner
    rw [planted] at entry
    obtain ⟨other, j, g', mem, same, element'⟩ := Grove.exists_group_of_mem_children first proper
      (List.mk_mem_zipIdx_iff_getElem?.2 entry) element names
    have known : other ∈ (readFrom first text).nodes := by
      rw [planted]
      exact List.mem_of_getElem? (List.mk_mem_zipIdx_iff_getElem?.1 mem)
    exact ⟨g', unique other known child memChild same ▸ element'⟩

end Document

end SequenceDiagram
