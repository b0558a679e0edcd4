import SequenceDiagram.Proofs.Holding
import SequenceDiagram.Proofs.Touring

set_option autoImplicit false

/-!
# Tours of a forest forget nothing

In a forest no node stands under two others, so a tour never meets a node again, and its memory
and its bound on the depth take nothing out of it: what it finds under a node is the same wherever
the node stands and can be told from what it finds under the node's children.
-/
namespace SequenceDiagram

namespace Route

def IsDown (route : Route) : Prop :=
  ∀ element, (route element).flatten.Sublist element.children

theorem IsInward.isDown {route : Route} (inward : route.IsInward) : route.IsDown := by
  intro element
  have entries := inward element
  cases element with
  | fragment f => exact entries
  | _ => exact entries.trans (List.nil_sublist _)

theorem isDown_fragments : fragments.IsDown :=
  isInward_fragments.isDown

theorem isDown_openFragments : openFragments.IsDown :=
  isInward_openFragments.isDown

theorem isDown_nestedGroups : nestedGroups.IsDown := by
  intro element
  cases element with
  | group g => simp [nestedGroups, Element.children]
  | _ => exact List.nil_sublist _

end Route

namespace Document
variable (document : Document)

def rowOf (body : Node → Tour) : List Node → Tour
  | [] => .nil
  | node :: nodes => .tree node (body node) (rowOf body nodes)

def sectionOf (body : Node → Tour) (ids : List NodeId) : Tour :=
  rowOf body (ids.filterMap document.get?)

def markedOf (body : Node → Tour) : List (List NodeId) → Tour
  | [] => .nil
  | ids :: sections => .mark () ((document.sectionOf body ids).append (markedOf body sections))

def sectionsOf (body : Node → Tour) : List (List NodeId) → Tour
  | [] => .nil
  | ids :: sections => (document.sectionOf body ids).append (document.markedOf body sections)

def unfold (route : Route) : Nat → Node → Tour
  | 0, _ => .nil
  | depth + 1, node => document.sectionsOf (unfold route depth) (route node.element)

section
variable {body body' : Node → Tour}

theorem labels_sectionsOf (sections : List (List NodeId)) :
    (document.sectionsOf body sections).labels =
      (rowOf body (sections.flatten.filterMap document.get?)).labels := by
  have row (a b : List Node) :
      (rowOf body (a ++ b)).labels = (rowOf body a).labels ++ (rowOf body b).labels := by
    induction a with
    | nil => rfl
    | cons node a ih => simp [rowOf, Forest.labels, ih]
  have marked (sections : List (List NodeId)) : (document.markedOf body sections).labels =
      (rowOf body (sections.flatten.filterMap document.get?)).labels := by
    induction sections with
    | nil => rfl
    | cons ids sections ih =>
      rw [markedOf, Forest.labels, Forest.labels_append, ih, List.flatten_cons,
        List.filterMap_append, row]
      rfl
  cases sections with
  | nil => rfl
  | cons ids sections =>
    rw [sectionsOf, Forest.labels_append, marked, List.flatten_cons, List.filterMap_append, row]
    rfl

theorem rowOf_congr {row : List Node} (same : ∀ node ∈ row, body node = body' node) :
    rowOf body row = rowOf body' row := by
  induction row with
  | nil => rfl
  | cons node row ih =>
    rw [rowOf, rowOf, same node List.mem_cons_self,
      ih fun other mem => same other (List.mem_cons_of_mem _ mem)]

theorem sectionsOf_congr {sections : List (List NodeId)}
    (same : ∀ node ∈ sections.flatten.filterMap document.get?, body node = body' node) :
    document.sectionsOf body sections = document.sectionsOf body' sections := by
  have split {ids : List NodeId} {sections : List (List NodeId)}
      (same : ∀ node ∈ (ids :: sections).flatten.filterMap document.get?, body node = body' node) :
      document.sectionOf body ids = document.sectionOf body' ids ∧
        ∀ node ∈ sections.flatten.filterMap document.get?, body node = body' node := by
    rw [List.flatten_cons, List.filterMap_append] at same
    exact ⟨rowOf_congr fun node mem => same node (List.mem_append_left _ mem),
      fun node mem => same node (List.mem_append_right _ mem)⟩
  have marked : ∀ sections : List (List NodeId),
      (∀ node ∈ sections.flatten.filterMap document.get?, body node = body' node) →
        document.markedOf body sections = document.markedOf body' sections := by
    intro sections same
    induction sections with
    | nil => rfl
    | cons ids sections ih =>
      obtain ⟨head, rest⟩ := split same
      rw [markedOf, markedOf, head, ih rest]
  cases sections with
  | nil => rfl
  | cons ids sections =>
    obtain ⟨head, rest⟩ := split same
    rw [sectionsOf, sectionsOf, head, marked _ rest]

end

theorem labels_rowOf_unfold (route : Route) (depth : Nat) (row : List Node) :
    (rowOf (document.unfold route depth) row).labels = document.spread route depth row := by
  have rows {depth : Nat}
      (under : ∀ node, (document.unfold route depth node).labels = document.under route depth node)
      (row : List Node) :
      (rowOf (document.unfold route depth) row).labels = document.spread route depth row := by
    induction row with
    | nil => rfl
    | cons node row ih => rw [rowOf, Forest.labels, under, ih, spread_cons]
  refine rows (fun node => ?_) row
  induction depth generalizing node with
  | zero => rfl
  | succ depth ih => rw [unfold, labels_sectionsOf, rows ih, under_succ]

theorem labels_unfold (route : Route) (depth : Nat) (node : Node) :
    (document.unfold route depth node).labels = document.under route depth node := by
  have row := document.labels_rowOf_unfold route depth [node]
  simpa [rowOf, Forest.labels, spread_cons, spread] using row

/-- The identifiers of a tour, the last first, as they are remembered. -/
def memory (tour : Tour) : List NodeId :=
  (tour.labels.map Node.id).reverse

theorem memory_append (a b : Tour) : memory (a.append b) = memory b ++ memory a := by
  simp [memory, Forest.labels_append]

theorem memory_tree (node : Node) (body next : Tour) :
    memory (.tree node body next) = memory next ++ (memory body ++ [node.id]) := by
  simp [memory, Forest.labels]

section
variable {document : Document} {body : Node → Visit} {plain : Node → Tour}
  (inside : ∀ node visited, (memory (plain node) ++ visited).Nodup →
    body node visited = (plain node, memory (plain node) ++ visited))
include inside

theorem tourRow_eq (row : List Node) (visited : List NodeId)
    (fresh : (memory (rowOf plain row) ++ visited).Nodup) :
    tourRow body row visited = (rowOf plain row, memory (rowOf plain row) ++ visited) := by
  induction row generalizing visited with
  | nil => rfl
  | cons node row ih =>
    rw [rowOf, memory_tree, List.append_assoc, List.append_assoc, List.singleton_append] at fresh
    obtain ⟨-, below, -⟩ := List.nodup_append.1 fresh
    obtain ⟨-, here, -⟩ := List.nodup_append.1 below
    rw [tourRow, if_neg (by simpa using (List.nodup_cons.1 here).1), inside node _ below, rowOf,
      memory_tree]
    simp only [ih _ fresh, List.append_assoc, List.singleton_append]

theorem tourMarked_eq (sections : List (List NodeId)) (visited : List NodeId)
    (fresh : (memory (document.markedOf plain sections) ++ visited).Nodup) :
    document.tourMarked body sections visited =
      (document.markedOf plain sections,
        memory (document.markedOf plain sections) ++ visited) := by
  induction sections generalizing visited with
  | nil => rfl
  | cons ids sections ih =>
    have parts : memory (document.markedOf plain (ids :: sections)) =
        memory (document.markedOf plain sections) ++ memory (document.sectionOf plain ids) :=
      memory_append _ _
    rw [parts, List.append_assoc] at fresh ⊢
    obtain ⟨-, first, -⟩ := List.nodup_append.1 fresh
    rw [tourMarked, tourSection, tourRow_eq inside _ visited first]
    simp only [← sectionOf.eq_def, ih _ fresh]
    rfl

theorem tourSections_eq (sections : List (List NodeId)) (visited : List NodeId)
    (fresh : (memory (document.sectionsOf plain sections) ++ visited).Nodup) :
    document.tourSections body sections visited =
      (document.sectionsOf plain sections,
        memory (document.sectionsOf plain sections) ++ visited) := by
  cases sections with
  | nil => rfl
  | cons ids sections =>
    rw [sectionsOf, memory_append, List.append_assoc] at fresh ⊢
    obtain ⟨-, first, -⟩ := List.nodup_append.1 fresh
    rw [tourSections, tourSection, tourRow_eq inside _ visited first]
    simp only [← sectionOf.eq_def, tourMarked_eq inside _ _ fresh]

end

theorem tourBody_eq (route : Route) (depth : Nat) (node : Node) (visited : List NodeId)
    (fresh : (memory (document.unfold route depth node) ++ visited).Nodup) :
    document.tourBody route depth node visited =
      (document.unfold route depth node,
        memory (document.unfold route depth node) ++ visited) := by
  induction depth generalizing node visited with
  | zero => rfl
  | succ depth ih => exact tourSections_eq ih _ visited fresh

def stops (route : Route) (node : Node) : List Node :=
  (route node.element).flatten.filterMap document.get?

variable {document} {route : Route}

theorem mem_under_succ {depth : Nat} {node x : Node} :
    x ∈ document.under route (depth + 1) node ↔
      ∃ child ∈ document.stops route node, x = child ∨ x ∈ document.under route depth child := by
  rw [under_succ, spread, List.mem_flatMap]
  exact exists_congr fun child => and_congr_right fun _ => List.mem_cons

theorem known_topLevel : ∀ node ∈ document.topLevel, node ∈ document.nodes :=
  fun _ top => (List.mem_filter.1 top).1

theorem not_holds_of_topLevel {node : Node} (top : node ∈ document.topLevel) (owner : Node) :
    ¬document.Holds owner node := by
  intro holds
  have free := (List.mem_filter.1 top).2
  have owned : document.isOwned node.id = true :=
    List.any_eq_true.2 ⟨_, mem_references holds, by simp⟩
  simp [isTopLevel, owned] at free

namespace IsForest
variable (forest : document.IsForest) (down : route.IsDown)
include forest down

theorem holds_of_mem_stops {node child : Node} (mem : node ∈ document.nodes)
    (stop : child ∈ document.stops route node) : document.Holds node child := by
  obtain ⟨id, leads, found⟩ := List.mem_filterMap.1 stop
  obtain ⟨known, rfl⟩ := forest.get?_eq_some_iff.1 found
  exact ⟨mem, known, (down node.element).subset leads⟩

theorem nodup_stops {node : Node} (mem : node ∈ document.nodes) :
    (document.stops route node).Nodup := by
  refine List.Nodup.filterMap ?_ ((forest.nodup_children mem).sublist (down node.element))
  intro a b child found found'
  exact ((forest.get?_eq_some_iff.1 found).2).symm.trans (forest.get?_eq_some_iff.1 found').2

theorem transGen_of_mem_under {depth : Nat} {node x : Node} (mem : node ∈ document.nodes)
    (h : x ∈ document.under route depth node) : Relation.TransGen document.Holds node x := by
  induction depth generalizing node with
  | zero => exact absurd h List.not_mem_nil
  | succ depth ih =>
    obtain ⟨child, stop, rfl | below⟩ := mem_under_succ.1 h
    · exact .single (forest.holds_of_mem_stops down mem stop)
    · have holds := forest.holds_of_mem_stops down mem stop
      exact .head holds (ih holds.2.1 below)

omit down in
/-- Of two nodes that have a node under them, one is under the other. -/
theorem above_or_above {a b x : Node} (ha : Relation.ReflTransGen document.Holds a x)
    (hb : Relation.ReflTransGen document.Holds b x) (other : a ≠ b) :
    Relation.TransGen document.Holds a b ∨ Relation.TransGen document.Holds b a := by
  have unique : Relator.RightUnique (Function.swap document.Holds) :=
    fun _ _ _ ha hb => forest.owner_unique ha hb
  have chain := Relation.ReflTransGen.total_of_right_unique unique
    (Relation.reflTransGen_swap.2 ha) (Relation.reflTransGen_swap.2 hb)
  simp only [Relation.reflTransGen_iff_eq_or_transGen] at chain
  rcases chain with (rfl | above) | (rfl | above)
  · exact absurd rfl other
  · exact Or.inr (Relation.transGen_swap.1 above)
  · exact absurd rfl other
  · exact Or.inl (Relation.transGen_swap.1 above)

/-- Nodes of a row none of which is under another one have nothing under them in common. -/
theorem nodup_spread {depth : Nat} {row : List Node} (known : ∀ node ∈ row, node ∈ document.nodes)
    (nodup : row.Nodup)
    (apart : ∀ a ∈ row, ∀ b ∈ row, ¬Relation.TransGen document.Holds a b)
    (inside : ∀ node ∈ row, (document.under route depth node).Nodup) :
    (document.spread route depth row).Nodup := by
  have above {a x : Node} (ha : a ∈ row) (hx : x ∈ a :: document.under route depth a) :
      Relation.ReflTransGen document.Holds a x := by
    rcases List.mem_cons.1 hx with rfl | below
    · exact .refl
    · exact (forest.transGen_of_mem_under down (known a ha) below).to_reflTransGen
  refine List.nodup_flatMap.2
    ⟨fun node mem => List.nodup_cons.2 ⟨fun below => ?_, inside node mem⟩,
      nodup.imp_of_mem fun {a b} ha hb other x hx hx' => ?_⟩
  · exact apart node mem node mem (forest.transGen_of_mem_under down (known node mem) below)
  · rcases forest.above_or_above (above ha hx) (above hb hx') other with less | less
    · exact apart a ha b hb less
    · exact apart b hb a ha less

omit down in
theorem not_transGen_self (node : Node) : ¬Relation.TransGen document.Holds node node :=
  fun circle => absurd (forest.place_lt_of_transGen circle) (lt_irrefl _)

theorem nodup_under (depth : Nat) {node : Node} (mem : node ∈ document.nodes) :
    (document.under route depth node).Nodup := by
  induction depth generalizing node with
  | zero => exact List.nodup_nil
  | succ depth ih =>
    have holds {child : Node} (stop : child ∈ document.stops route node) :=
      forest.holds_of_mem_stops down mem stop
    refine forest.nodup_spread down (fun child stop => (holds stop).2.1)
      (forest.nodup_stops down mem) (fun a ha b hb above => ?_)
      fun child stop => ih (holds stop).2.1
    -- the owner of the lower one is the node itself, which would stand under the upper one
    obtain ⟨last, steps, owns⟩ := Relation.TransGen.tail'_iff.1 above
    obtain rfl := forest.owner_unique owns (holds hb)
    exact forest.not_transGen_self _ (.head' (holds ha) steps)

theorem nodup_spread_topLevel (depth : Nat) :
    (document.spread route depth document.topLevel).Nodup := by
  refine forest.nodup_spread down known_topLevel (forest.ids.of_map.filter _)
    (fun a _ b hb above => ?_)
    fun node top => forest.nodup_under down depth (known_topLevel node top)
  obtain ⟨last, -, owns⟩ := Relation.TransGen.tail'_iff.1 above
  exact not_holds_of_topLevel hb last owns

omit down in
theorem nodup_memory {tour : Tour} (known : ∀ node ∈ tour.labels, node ∈ document.nodes)
    (nodup : tour.labels.Nodup) : (memory tour ++ []).Nodup := by
  rw [List.append_nil]
  exact List.nodup_reverse.2 (nodup.map_on fun _ ha _ hb same =>
    forest.eq_of_id (known _ ha) (known _ hb) same)

/-- As many levels as there are nodes behind a node are enough to find all that is under it. -/
theorem unfold_eq {depth depth' : Nat} {node : Node} (mem : node ∈ document.nodes)
    (deep : document.nodes.length - document.place node ≤ depth)
    (deep' : document.nodes.length - document.place node ≤ depth') :
    document.unfold route depth node = document.unfold route depth' node := by
  have bound := place_lt mem
  induction depth generalizing depth' node with
  | zero => omega
  | succ depth ih =>
    cases depth' with
    | zero => omega
    | succ depth' =>
      refine document.sectionsOf_congr fun child stop => ?_
      have holds := forest.holds_of_mem_stops down mem stop
      have later := forest.later _ _ holds
      exact ih holds.2.1 (by omega) (by omega) (place_lt holds.2.1)

theorem tourUnder_eq_unfold {node : Node} (mem : node ∈ document.nodes) :
    document.tourUnder route node = document.unfold route document.nodes.length node := by
  have fresh : (memory (document.unfold route document.nodes.length node) ++ []).Nodup := by
    refine forest.nodup_memory (fun x below => ?_) ?_
    · rw [labels_unfold] at below
      obtain ⟨last, -, owns⟩ :=
        Relation.TransGen.tail'_iff.1 (forest.transGen_of_mem_under down mem below)
      exact owns.2.1
    · rw [labels_unfold]
      exact forest.nodup_under down _ mem
  rw [tourUnder, tourBody_eq document route _ node [] fresh]

/-- The tour of what is under a node is made of those of what is under its children. -/
theorem tourUnder_eq {node : Node} (mem : node ∈ document.nodes) :
    document.tourUnder route node =
      document.sectionsOf (document.tourUnder route) (route node.element) := by
  have bound := place_lt mem
  obtain ⟨depth, length⟩ : ∃ depth, document.nodes.length = depth + 1 :=
    ⟨document.nodes.length - 1, by omega⟩
  rw [forest.tourUnder_eq_unfold down mem]
  conv_lhs => rw [length, unfold]
  refine document.sectionsOf_congr fun child stop => ?_
  have holds := forest.holds_of_mem_stops down mem stop
  have later := forest.later _ _ holds
  rw [forest.tourUnder_eq_unfold down holds.2.1]
  exact forest.unfold_eq down holds.2.1 (by omega) (by omega)

theorem tour_eq_unfold :
    document.tour route =
      rowOf (document.unfold route document.nodes.length) document.topLevel := by
  have labels := document.labels_rowOf_unfold route document.nodes.length document.topLevel
  have fresh : (memory (rowOf (document.unfold route document.nodes.length)
      document.topLevel) ++ []).Nodup := by
    refine forest.nodup_memory (fun x mem => ?_) ?_
    · rw [labels] at mem
      exact mem_nodes_of_spread known_topLevel mem
    · rw [labels]
      exact forest.nodup_spread_topLevel down _
  rw [tour, tourRow_eq (document.tourBody_eq route document.nodes.length) _ [] fresh]

/-- The tour of a document finds under every node of the top row what a tour from there finds. -/
theorem tour_eq :
    document.tour route = rowOf (document.tourUnder route) document.topLevel := by
  rw [forest.tour_eq_unfold down]
  exact rowOf_congr fun node top => (forest.tourUnder_eq_unfold down (known_topLevel node top)).symm

/-- No tour comes by a node twice. -/
theorem nodup_tour : (document.tour route).labels.Nodup := by
  rw [forest.tour_eq_unfold down, labels_rowOf_unfold]
  exact forest.nodup_spread_topLevel down _

/-- Neither does it come back to the node that it starts from. -/
theorem nodup_cons_tourUnder {node : Node} (mem : node ∈ document.nodes) :
    (node :: (document.tourUnder route node).labels).Nodup := by
  rw [forest.tourUnder_eq_unfold down mem, labels_unfold]
  refine List.nodup_cons.2 ⟨fun below => ?_, forest.nodup_under down _ mem⟩
  exact forest.not_transGen_self node (forest.transGen_of_mem_under down mem below)

theorem mem_nodes_of_tourUnder {node x : Node} (mem : node ∈ document.nodes)
    (inside : x ∈ node :: (document.tourUnder route node).labels) : x ∈ document.nodes := by
  rcases List.mem_cons.1 inside with rfl | below
  · exact mem
  · rw [forest.tourUnder_eq_unfold down mem, labels_unfold] at below
    obtain ⟨last, -, owns⟩ :=
      Relation.TransGen.tail'_iff.1 (forest.transGen_of_mem_under down mem below)
    exact owns.2.1

end IsForest

theorem mem_labels_rowOf {body : Node → Tour} {row : List Node} {x : Node} :
    x ∈ (rowOf body row).labels ↔ ∃ node ∈ row, x = node ∨ x ∈ (body node).labels := by
  induction row with
  | nil => simp [rowOf, Forest.labels]
  | cons node row ih => simp [rowOf, Forest.labels, ih, or_assoc]

def Enters (document : Document) (route : Route) (node child : Node) : Prop :=
  node ∈ document.nodes ∧ child ∈ document.stops route node

namespace IsForest
variable (forest : document.IsForest) (down : route.IsDown)
include forest down

theorem mem_tourUnder_iff_exists {node x : Node} (mem : node ∈ document.nodes) :
    x ∈ (document.tourUnder route node).labels ↔
      ∃ child ∈ document.stops route node, x = child ∨
        x ∈ (document.tourUnder route child).labels := by
  rw [forest.tourUnder_eq down mem, labels_sectionsOf, mem_labels_rowOf]
  rfl

/-- A tour finds exactly what its route goes to. -/
theorem mem_tourUnder_iff {node x : Node} (mem : node ∈ document.nodes) :
    x ∈ (document.tourUnder route node).labels ↔
      Relation.TransGen (document.Enters route) node x := by
  refine forest.induction_up (P := fun node => x ∈ (document.tourUnder route node).labels ↔
    Relation.TransGen (document.Enters route) node x) (fun node mem ih => ?_) node mem
  rw [forest.mem_tourUnder_iff_exists down mem, Relation.TransGen.head'_iff]
  constructor
  · rintro ⟨child, stop, rfl | below⟩
    · exact ⟨_, ⟨mem, stop⟩, .refl⟩
    · have holds := forest.holds_of_mem_stops down mem stop
      exact ⟨child, ⟨mem, stop⟩, ((ih child holds).1 below).to_reflTransGen⟩
  · rintro ⟨child, ⟨-, stop⟩, steps⟩
    refine ⟨child, stop, ?_⟩
    have holds := forest.holds_of_mem_stops down mem stop
    rcases Relation.reflTransGen_iff_eq_or_transGen.1 steps with rfl | steps
    · exact Or.inl rfl
    · exact Or.inr ((ih child holds).2 steps)

end IsForest

end Document

end SequenceDiagram
