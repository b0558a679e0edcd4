import SequenceDiagram.Proofs.Placing
import SequenceDiagram.Proofs.Slots
import SequenceDiagram.Proofs.Unfolding

set_option autoImplicit false

namespace SequenceDiagram

namespace Element

def isEntry : Element → Bool
  | .participant _ | .group _ => false
  | .message _ | .fragment _ | .note _ | .divider _ | .comment _ | .blankLine | .directive _
  | .error _ => true

end Element

namespace Document
variable {document : Document}

def IsHidden (document : Document) (node : Node) : Prop :=
  ∃ owner f, Relation.TransGen document.Holds owner node ∧ owner.element = .fragment f ∧
    f.isCollapsed = true

theorem IsHidden.below {node child : Node} (hidden : document.IsHidden node)
    (holds : document.Holds node child) : document.IsHidden child :=
  let ⟨owner, f, above, fragment, collapsed⟩ := hidden
  ⟨owner, f, above.tail holds, fragment, collapsed⟩

theorem mem_topLevel_iff {node : Node} (free : node.element.isParticipant = false) :
    node ∈ document.topLevel ↔ node ∈ document.nodes ∧ ∀ owner, ¬document.Holds owner node := by
  constructor
  · exact fun top => ⟨known_topLevel node top, not_holds_of_topLevel top⟩
  · rintro ⟨mem, unowned⟩
    have loose : document.isOwned node.id = false := by
      rw [isOwned, List.any_eq_false]
      rintro ⟨owner, child⟩ reference names
      obtain ⟨other, mem', named⟩ := List.mem_flatMap.1 reference
      obtain ⟨id, child', same⟩ := List.mem_map.1 named
      obtain ⟨rfl, rfl⟩ := Prod.mk.inj same
      obtain rfl : id = node.id := by simpa using names
      exact unowned other ⟨mem', mem, child'⟩
    have single : document.isGroupMember node = false := by
      unfold isGroupMember
      unfold Element.isParticipant at free
      split <;> simp_all
    exact List.mem_filter.2 ⟨mem, by simp [isTopLevel, loose, single]⟩

section
variable (ids : (document.nodes.map Node.id).Nodup)
include ids

theorem mem_stops_iff {route : Route} {node child : Node} :
    child ∈ document.stops route node ↔
      child ∈ document.nodes ∧ child.id ∈ (route node.element).flatten := by
  rw [stops, List.mem_filterMap]
  constructor
  · rintro ⟨id, leads, found⟩
    obtain ⟨mem, rfl⟩ := (get?_eq_some_iff ids).1 found
    exact ⟨mem, leads⟩
  · rintro ⟨mem, leads⟩
    exact ⟨child.id, leads, get?_eq ids mem⟩

theorem enters_openFragments_iff {node child : Node} :
    document.Enters .openFragments node child ↔
      document.Holds node child ∧ ∃ f, node.element = .fragment f ∧ f.isCollapsed = false := by
  rw [Enters, mem_stops_iff ids, Holds]
  obtain ⟨id, lineStart, lineEnd, element⟩ := node
  cases element with
  | fragment f =>
    cases collapsed : f.isCollapsed <;>
      simp [Route.openFragments, Element.children, Fragment.flatten_sections, collapsed]
  | _ => simp [Route.openFragments]

end

namespace IsForest
variable (forest : document.IsForest)
include forest

theorem mem_stops_iff {route : Route} {node child : Node} :
    child ∈ document.stops route node ↔
      child ∈ document.nodes ∧ child.id ∈ (route node.element).flatten :=
  Document.mem_stops_iff forest.ids

theorem enters_openFragments_iff {node child : Node} :
    document.Enters .openFragments node child ↔
      document.Holds node child ∧ ∃ f, node.element = .fragment f ∧ f.isCollapsed = false :=
  Document.enters_openFragments_iff forest.ids

theorem enters_fragments_iff {node child : Node} :
    document.Enters .fragments node child ↔
      document.Holds node child ∧ ∃ f, node.element = .fragment f := by
  rw [Enters, forest.mem_stops_iff, Holds]
  obtain ⟨id, lineStart, lineEnd, element⟩ := node
  cases element with
  | fragment f => simp [Route.fragments, Element.children, Fragment.flatten_sections]
  | _ => simp [Route.fragments]

theorem enters_nestedGroups_iff {node child : Node} :
    document.Enters .nestedGroups node child ↔
      document.Holds node child ∧ ∃ g, node.element = .group g := by
  rw [Enters, forest.mem_stops_iff, Holds]
  obtain ⟨id, lineStart, lineEnd, element⟩ := node
  cases element with
  | group g => simp [Route.nestedGroups, Element.children]
  | _ => simp [Route.nestedGroups]

theorem mem_tour_iff {route : Route} (down : route.IsDown) {x : Node} :
    x ∈ (document.tour route).labels ↔
      ∃ root ∈ document.topLevel, Relation.ReflTransGen (document.Enters route) root x := by
  rw [forest.tour_eq down, mem_labels_rowOf]
  refine exists_congr fun root => and_congr_right fun top => ?_
  rw [forest.mem_tourUnder_iff down (known_topLevel root top),
    Relation.reflTransGen_iff_eq_or_transGen]

theorem enters_fragments_of_holds {owner node : Node} (holds : document.Holds owner node)
    (entry : node.element.isEntry = true) : document.Enters .fragments owner node := by
  rw [forest.enters_fragments_iff]
  obtain ⟨id, lineStart, lineEnd, element⟩ := owner
  cases element with
  | fragment f => exact ⟨holds, f, rfl⟩
  | group g =>
    obtain ⟨g', element⟩ := forest.groups _ node g holds rfl
    rw [element] at entry
    exact absurd entry nofun
  | _ => exact absurd holds.2.2 List.not_mem_nil

theorem exists_open_of_holds {owner node : Node} (holds : document.Holds owner node)
    (entry : node.element.isEntry = true) (shown : ¬document.IsHidden node) :
    document.Enters .openFragments owner node ∧ owner.element.isEntry = true := by
  obtain ⟨-, f, element⟩ :=
    forest.enters_fragments_iff.1 (forest.enters_fragments_of_holds holds entry)
  rw [forest.enters_openFragments_iff]
  refine ⟨⟨holds, f, element, ?_⟩, by rw [element]; rfl⟩
  by_contra collapsed
  exact shown ⟨_, f, .single holds, element, by simpa using collapsed⟩

/-- Everything around a node that is not hidden is open. -/
theorem transGen_enters {owner node : Node} (above : Relation.TransGen document.Holds owner node)
    (entry : node.element.isEntry = true) (shown : ¬document.IsHidden node) :
    Relation.TransGen (document.Enters .openFragments) owner node := by
  induction above with
  | single holds => exact .single (forest.exists_open_of_holds holds entry shown).1
  | tail _ holds ih =>
    obtain ⟨enters, entry'⟩ := forest.exists_open_of_holds holds entry shown
    exact (ih entry' fun hidden => shown (hidden.below holds)).tail enters

/-- The tour that is placed comes by the entries that are not hidden. -/
theorem mem_tour_iff_not_hidden {node : Node} (mem : node ∈ document.nodes)
    (entry : node.element.isEntry = true) :
    node ∈ (document.tour .openFragments).labels ↔ ¬document.IsHidden node := by
  rw [forest.mem_tour_iff Route.isDown_openFragments]
  constructor
  · rintro ⟨root, top, steps⟩
    clear mem entry
    induction steps with
    | refl =>
      rintro ⟨owner, f, above, -⟩
      obtain ⟨last, -, holds⟩ := Relation.TransGen.tail'_iff.1 above
      exact not_holds_of_topLevel top last holds
    | tail _ enters ih =>
      rintro ⟨owner, f, above, fragment, collapsed⟩
      obtain ⟨holds, f', fragment', opened⟩ := forest.enters_openFragments_iff.1 enters
      obtain ⟨last, steps, holds'⟩ := Relation.TransGen.tail'_iff.1 above
      obtain rfl := forest.owner_unique holds holds'
      rcases Relation.reflTransGen_iff_eq_or_transGen.1 steps with rfl | further
      · rw [fragment'] at fragment
        cases fragment
        exact absurd collapsed (by simp [opened])
      · exact ih ⟨owner, f, further, fragment, collapsed⟩
  · refine forest.induction_down (P := fun node => node.element.isEntry = true →
      ¬document.IsHidden node → ∃ root ∈ document.topLevel,
        Relation.ReflTransGen (document.Enters .openFragments) root node)
      (fun node mem ih entry shown => ?_) node mem entry
    by_cases owned : ∃ owner, document.Holds owner node
    · obtain ⟨owner, holds⟩ := owned
      obtain ⟨enters, entry'⟩ := forest.exists_open_of_holds holds entry shown
      obtain ⟨root, top, steps⟩ := ih owner holds entry' fun hidden => shown (hidden.below holds)
      exact ⟨root, top, steps.tail enters⟩
    · have free : node.element.isParticipant = false := by
        unfold Element.isEntry at entry
        unfold Element.isParticipant
        split <;> simp_all
      exact ⟨node, (mem_topLevel_iff free).2 ⟨mem, fun owner holds => owned ⟨owner, holds⟩⟩, .refl⟩

/-- Whatever stands around an entry is a fragment. -/
theorem transGen_fragments_iff {owner node : Node} (entry : node.element.isEntry = true) :
    Relation.TransGen (document.Enters .fragments) owner node ↔
      Relation.TransGen document.Holds owner node := by
  constructor
  · have holds : document.Enters .fragments ≤ document.Holds :=
      fun _ _ enters => (forest.enters_fragments_iff.1 enters).1
    exact Relation.TransGen.mono holds owner node
  · intro steps
    induction steps with
    | single holds => exact .single (forest.enters_fragments_of_holds holds entry)
    | tail _ holds ih =>
      have enters := forest.enters_fragments_of_holds holds entry
      obtain ⟨-, f, element⟩ := forest.enters_fragments_iff.1 enters
      exact (ih (by rw [element]; rfl)).tail enters

/-- A group holds groups only. -/
theorem transGen_nestedGroups_iff {node inner : Node} {g : ParticipantGroup}
    (group : node.element = .group g) :
    Relation.TransGen (document.Enters .nestedGroups) node inner ↔
      Relation.TransGen document.Holds node inner := by
  constructor
  · have holds : document.Enters .nestedGroups ≤ document.Holds :=
      fun _ _ enters => (forest.enters_nestedGroups_iff.1 enters).1
    exact Relation.TransGen.mono holds node inner
  · intro steps
    have both : Relation.TransGen (document.Enters .nestedGroups) node inner ∧
        ∃ g', inner.element = .group g' := by
      induction steps with
      | single holds =>
        exact ⟨.single (forest.enters_nestedGroups_iff.2 ⟨holds, g, group⟩),
          forest.groups _ _ g holds group⟩
      | tail _ holds ih =>
        obtain ⟨steps, g', group'⟩ := ih
        exact ⟨steps.tail (forest.enters_nestedGroups_iff.2 ⟨holds, g', group'⟩),
          forest.groups _ _ g' holds group'⟩
    exact both.1

end IsForest

theorem trees_append (a b : Tour) : Tour.trees (a.append b) = a.trees ++ b.trees := by
  induction a with
  | nil => rfl
  | tree node body next _ ih => simp [Forest.append, Tour.trees, ih]
  | mark _ next ih => exact ih

theorem mem_trees_rowOf {body : Node → Tour} {row : List Node} {node : Node} (mem : node ∈ row) :
    (node, body node) ∈ (rowOf body row).trees := by
  induction row with
  | nil => exact absurd mem List.not_mem_nil
  | cons first row ih =>
    rw [rowOf, Tour.trees]
    rcases List.mem_cons.1 mem with rfl | mem
    · exact List.mem_cons_self
    · exact List.mem_cons_of_mem _ (List.mem_append_right _ (ih mem))

theorem mem_trees_sectionsOf {body : Node → Tour} {sections : List (List NodeId)} {node : Node}
    (mem : node ∈ sections.flatten.filterMap document.get?) :
    (node, body node) ∈ (document.sectionsOf body sections).trees := by
  have marked : ∀ sections : List (List NodeId),
      node ∈ sections.flatten.filterMap document.get? →
        (node, body node) ∈ (document.markedOf body sections).trees := by
    intro sections mem
    induction sections with
    | nil => exact absurd mem List.not_mem_nil
    | cons ids sections ih =>
      rw [markedOf, Tour.trees, trees_append, List.mem_append]
      rw [List.flatten_cons, List.filterMap_append, List.mem_append] at mem
      exact mem.imp mem_trees_rowOf ih
  cases sections with
  | nil => exact absurd mem List.not_mem_nil
  | cons ids sections =>
    rw [sectionsOf, trees_append, List.mem_append]
    rw [List.flatten_cons, List.filterMap_append, List.mem_append] at mem
    exact mem.imp mem_trees_rowOf (marked sections)

theorem trees_subset {tour body : Tour} {node : Node} {f : Fragment}
    (element : node.element = .fragment f) (mem : (node, body) ∈ tour.trees) :
    body.trees ⊆ tour.trees := by
  induction tour with
  | nil => exact absurd mem List.not_mem_nil
  | mark _ next ih => exact ih mem
  | tree first inside next ihb ihn =>
    rw [Tour.trees] at mem ⊢
    rcases List.mem_cons.1 mem with same | mem
    · obtain ⟨rfl, rfl⟩ := Prod.mk.inj same
      rw [element]
      exact fun _ mem => List.mem_cons_of_mem _ (List.mem_append_left _ mem)
    · rcases List.mem_append.1 mem with mem | mem
      · split at mem
        · exact fun _ deep => List.mem_cons_of_mem _ (List.mem_append_left _ (ihb mem deep))
        · exact absurd mem List.not_mem_nil
      · exact fun _ deep => List.mem_cons_of_mem _ (List.mem_append_right _ (ihn mem deep))

section
variable (forest : document.IsForest) {route : Route} (down : route.IsDown)
include forest down

theorem IsForest.mem_trees_of_enters {node child : Node}
    (enters : document.Enters route node child) :
    (child, document.tourUnder route child) ∈ (document.tourUnder route node).trees := by
  rw [forest.tourUnder_eq down enters.1]
  exact mem_trees_sectionsOf enters.2

/-- A tour that goes into fragments only holds under every node what a tour from there finds. -/
theorem IsForest.mem_trees_of_transGen
    (only : ∀ p q, document.Enters route p q → ∃ f, p.element = .fragment f) {node x : Node}
    (steps : Relation.TransGen (document.Enters route) node x) :
    (x, document.tourUnder route x) ∈ (document.tourUnder route node).trees := by
  induction steps with
  | single enters => exact forest.mem_trees_of_enters down enters
  | tail _ enters ih =>
    obtain ⟨f, element⟩ := only _ _ enters
    exact trees_subset element ih (forest.mem_trees_of_enters down enters)

end

/-- The tour that is placed holds under every node what a tour from there finds. -/
theorem IsForest.mem_trees (forest : document.IsForest) {node : Node}
    (mem : node ∈ (document.tour .openFragments).labels) :
    (node, document.tourUnder .openFragments node) ∈ (document.tour .openFragments).trees := by
  obtain ⟨root, top, steps⟩ := (forest.mem_tour_iff Route.isDown_openFragments).1 mem
  clear mem
  induction steps with
  | refl =>
    rw [forest.tour_eq Route.isDown_openFragments]
    exact mem_trees_rowOf top
  | tail _ enters ih =>
    obtain ⟨-, f, element, -⟩ := forest.enters_openFragments_iff.1 enters
    exact trees_subset element ih
      (forest.mem_trees_of_enters Route.isDown_openFragments enters)

section
open Layout
variable {α : Type} [Scalar α]

theorem reaches_placeAll (document : Document) (config : Config α) :
    (setting document config).Reaches (document.tour .openFragments).labels
      (document.beginning config) (placeAll (setting document config)) :=
  Setting.reaches_placeRow _ _ _ _

theorem IsForest.exists_moment (forest : document.IsForest) (config : Config α) {node : Node}
    (mem : node ∈ (document.tour .openFragments).labels) :
    ∃ before, ⟨node, before⟩ ∈ document.arrivals config ∧
      (setting document config).Reaches (document.tour .openFragments).labels
        (document.beginning config) before ∧
      (setting document config).Reaches (document.tour .openFragments).labels
        ((setting document config).placeTree node (document.tourUnder .openFragments node) before)
        (placeAll (setting document config)) ∧
      ∀ x ∈ node :: (document.tourUnder .openFragments node).labels,
        before.geometry.get? x.id = (document.beginning config).geometry.get? x.id ∧
        (placeAll (setting document config)).geometry.get? x.id =
          ((setting document config).placeTree node (document.tourUnder .openFragments node)
            before).geometry.get? x.id := by
  have nodup : ((document.tour .openFragments).labels.map Node.id).Nodup :=
    (forest.nodup_tour Route.isDown_openFragments).map_on fun p hp q hq =>
      forest.eq_of_id (mem_nodes_of_tour hp) (mem_nodes_of_tour hq)
  obtain ⟨before, moment⟩ := (setting document config).exists_moment
    (document.beginning config).linear (document.beginning config).parallel
    (document.beginning config) nodup (forest.mem_trees mem)
  exact ⟨before, moment.arrives, moment.early, moment.late, moment.drawn⟩

end

end Document

end SequenceDiagram
