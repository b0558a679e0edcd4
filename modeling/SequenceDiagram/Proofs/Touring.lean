import Mathlib.Data.List.Flatten
import SequenceDiagram.Diagram.Tour
import SequenceDiagram.Proofs.Canonical

set_option autoImplicit false

namespace SequenceDiagram

namespace Fragment

theorem flatten_sections (f : Fragment) : f.sections.flatten = f.allEntries := by
  simp [sections, allEntries, List.flatMap_def]

end Fragment

def Route.IsInward (route : Route) : Prop :=
  ∀ element, (route element).flatten.Sublist
    (match element with
      | .fragment f => f.allEntries
      | _ => [])

namespace Route

theorem isInward_fragments : fragments.IsInward := by
  intro element
  cases element with
  | fragment f => exact (Fragment.flatten_sections f) ▸ List.Sublist.refl _
  | _ => exact List.nil_sublist _

/-- Fewer fragments are gone into when some are collapsed. -/
theorem openFragments_sublist (element : Element) :
    (openFragments element).flatten.Sublist (fragments element).flatten := by
  cases element with
  | fragment f =>
    rw [openFragments, fragments]
    split
    · exact List.nil_sublist _
    · exact List.Sublist.refl _
  | _ => exact List.Sublist.refl _

theorem isInward_openFragments : openFragments.IsInward :=
  fun element => (openFragments_sublist element).trans (isInward_fragments element)

end Route

namespace Document
variable (document : Document) (route : Route)

def under : Nat → Node → List Node
  | 0, _ => []
  | depth + 1, node =>
    ((route node.element).flatten.filterMap document.get?).flatMap fun child =>
      child :: under depth child

def spread (depth : Nat) (row : List Node) : List Node :=
  row.flatMap fun node => node :: document.under route depth node

theorem under_succ (depth : Nat) (node : Node) :
    document.under route (depth + 1) node =
      document.spread route depth ((route node.element).flatten.filterMap document.get?) := rfl

theorem spread_cons (depth : Nat) (node : Node) (row : List Node) :
    document.spread route depth (node :: row) =
      node :: (document.under route depth node ++ document.spread route depth row) := rfl

theorem spread_append (depth : Nat) (a b : List Node) :
    document.spread route depth (a ++ b) =
      document.spread route depth a ++ document.spread route depth b :=
  List.flatMap_append

theorem mem_nodes_of_get? {document : Document} {id : NodeId} {node : Node}
    (h : document.get? id = some node) : node ∈ document.nodes :=
  List.mem_reverse.1 (List.mem_of_find?_eq_some h)

theorem mem_nodes_of_spread {document : Document} {route : Route} {depth : Nat} {row : List Node}
    (known : ∀ node ∈ row, node ∈ document.nodes) {node : Node}
    (h : node ∈ document.spread route depth row) : node ∈ document.nodes := by
  induction depth generalizing row with
  | zero =>
    simp only [spread, under, List.mem_flatMap, List.mem_singleton] at h
    obtain ⟨other, mem, rfl⟩ := h
    exact known _ mem
  | succ depth ih =>
    obtain ⟨other, mem, here⟩ := List.mem_flatMap.1 h
    rcases List.mem_cons.1 here with rfl | below
    · exact known _ mem
    · refine @ih _ (fun child found => ?_) below
      obtain ⟨id, -, found⟩ := List.mem_filterMap.1 found
      exact mem_nodes_of_get? found

section
variable {document : Document} {route : Route} {depth : Nat} {body : Node → Visit}
  (inside : ∀ node visited, (body node visited).1.labels.Sublist (document.under route depth node))
include inside

theorem labels_tourRow (row : List Node) (visited : List NodeId) :
    (tourRow body row visited).1.labels.Sublist (document.spread route depth row) := by
  induction row generalizing visited with
  | nil => exact List.Sublist.slnil
  | cons node row ih =>
    unfold tourRow
    split
    · exact (ih visited).trans (List.sublist_append_right _ _)
    · exact ((inside node _).append (ih _)).cons_cons node

theorem labels_tourMarked (sections : List (List NodeId)) (visited : List NodeId) :
    (document.tourMarked body sections visited).1.labels.Sublist
      (document.spread route depth (sections.flatten.filterMap document.get?)) := by
  induction sections generalizing visited with
  | nil => exact List.Sublist.slnil
  | cons ids sections ih =>
    simp only [tourMarked, Forest.labels, Forest.labels_append, List.flatten_cons,
      List.filterMap_append, spread_append]
    exact (labels_tourRow inside _ visited).append (ih _)

theorem labels_tourSections (sections : List (List NodeId)) (visited : List NodeId) :
    (document.tourSections body sections visited).1.labels.Sublist
      (document.spread route depth (sections.flatten.filterMap document.get?)) := by
  cases sections with
  | nil => exact List.Sublist.slnil
  | cons ids sections =>
    simp only [tourSections, Forest.labels_append, List.flatten_cons, List.filterMap_append,
      spread_append]
    exact (labels_tourRow inside _ visited).append (labels_tourMarked inside _ _)

end

theorem labels_tourBody (depth : Nat) (node : Node) (visited : List NodeId) :
    (document.tourBody route depth node visited).1.labels.Sublist
      (document.under route depth node) := by
  induction depth generalizing node visited with
  | zero => exact List.Sublist.slnil
  | succ depth ih => exact labels_tourSections ih _ visited

/-- A tour comes by nodes of the top row and what stands under them. -/
theorem labels_tour :
    (document.tour route).labels.Sublist
      (document.spread route document.nodes.length document.topLevel) :=
  labels_tourRow (document.labels_tourBody route _) document.topLevel []

theorem mem_nodes_of_tour {document : Document} {route : Route} {node : Node}
    (h : node ∈ (document.tour route).labels) : node ∈ document.nodes :=
  mem_nodes_of_spread (fun _ mem => (List.mem_filter.1 mem).1)
    ((document.labels_tour route).subset h)

theorem get?_of_entry {document : Document} {id : NodeId} {slot : Nat} {node : Node}
    (h : document.entry? id = some (slot, node)) : document.get? id = some node := by
  simp only [slot?, entry?, bind, Option.bind_eq_some_iff, Option.map_eq_some_iff,
    Option.some.injEq, Prod.mk.injEq] at h
  obtain ⟨_, ⟨i, found, rfl⟩, other, here, rfl, rfl⟩ := h
  obtain ⟨bound, hit, first⟩ := List.findIdx?_eq_some_iff_getElem.1 found
  have same : document.nodes.reverse[i] = other := by
    rw [List.getElem_reverse]
    exact (List.getElem?_eq_some_iff.1 here).2
  refine List.find?_eq_some_iff_getElem.2 ⟨same ▸ hit, i, bound, same, fun j hj => ?_⟩
  simpa using first j hj

theorem under_eq_nil {document : Document} {route : Route} (inward : route.IsInward) {node : Node}
    (leaf : ∀ f, node.element ≠ .fragment f) (depth : Nat) :
    document.under route depth node = [] := by
  have blind : (route node.element).flatten = [] := by
    have entries := inward node.element
    split at entries
    · rename_i f element
      exact absurd element (leaf f)
    · exact List.sublist_nil.1 entries
  cases depth with
  | zero => rfl
  | succ depth => simp [under, blind]

theorem under_fragment {document : Document} {route : Route} (inward : route.IsInward)
    {node : Node} {f : Fragment} (h : node.element = .fragment f) (depth : Nat) :
    (document.under route (depth + 1) node).Sublist
      (document.spread route depth (f.allEntries.filterMap document.get?)) := by
  have entries := inward node.element
  rw [h] at entries
  rw [under_succ, h]
  exact (entries.filterMap _).flatMap _

def atSlots (document : Document) (first : UInt32) (slots : List Nat) : List Node :=
  (slots.map (NodeId.offset first)).filterMap document.get?

theorem atSlots_append (document : Document) (first : UInt32) (a b : List Nat) :
    document.atSlots first (a ++ b) = document.atSlots first a ++ document.atSlots first b := by
  simp [atSlots]

theorem atSlots_cons {document : Document} {first : UInt32} {slot : Nat} {node : Node}
    (h : document.get? (NodeId.offset first slot) = some node)
    (slots : List Nat) :
    document.atSlots first (slot :: slots) = node :: document.atSlots first slots := by
  simp [atSlots, h]

section
variable {document : Document} {first : UInt32} {row : Grove} {slot : Nat} {route : Route}
  (inward : route.IsInward)
include inward

theorem spread_strays (stands : document.Stands first slot row) (proper : row.Proper .group)
    (depth : Nat) :
    (document.spread route depth
      (document.atSlots first (Grove.straySlots slot row))).Sublist (row.plant first slot) := by
  induction row generalizing slot with
  | nil => exact List.Sublist.slnil
  | tree seed body next ihb ihn =>
    have head := get?_of_entry stands.head
    have behind := ihn stands.next proper.2
    obtain ⟨element, lineStart, lineEnd⟩ := seed
    rw [Grove.straySlots, atSlots_append, spread_append, Grove.plant]
    cases element with
    | error fault =>
      rw [atSlots_cons head, spread_cons, under_eq_nil inward (fun _ => Element.noConfusion) depth]
      exact (behind.trans (List.sublist_append_right _ _)).cons_cons _
    | group g => exact ((ihb stands.body proper.1.2).append behind).cons _
    | _ => exact (behind.trans (List.sublist_append_right _ _)).cons _
  | mark clause next ih => exact absurd proper.1 (by decide)

theorem spread_rowSlots (stands : document.Stands first slot row) {place : Place}
    (proper : row.Proper place) (outside : place ≠ .group) (depth : Nat) :
    (document.spread route depth
      (document.atSlots first (Grove.rowSlots slot row))).Sublist (row.plant first slot) := by
  induction row generalizing slot place depth with
  | nil => exact List.Sublist.slnil
  | tree seed body next ihb ihn =>
    have head := get?_of_entry stands.head
    have behind := ihn stands.next proper.2 outside depth
    obtain ⟨element, lineStart, lineEnd⟩ := seed
    rw [Grove.rowSlots, Grove.sectionSlots, List.cons_append, atSlots_cons head, atSlots_append,
      spread_cons, spread_append, ← List.append_assoc, Grove.plant]
    refine (List.Sublist.append ?_ behind).cons_cons _
    cases element with
    | fragment f =>
      obtain ⟨-, ⟨entries, clauses⟩, inside⟩ := proper.1
      cases depth with
      | zero => exact List.nil_sublist _
      | succ depth =>
        have under := ihb stands.body inside (by simp) depth
        have all := Grove.allEntries_fillFragment first inside f (slot + 1)
        have empty : f.allEntries = [] := by simp [Fragment.allEntries, entries, clauses]
        rw [empty, List.nil_append] at all
        have filled := @under_fragment document route inward ⟨NodeId.offset first slot, lineStart,
          lineEnd, .fragment (Grove.fillFragment first f (slot + 1) body)⟩ _ rfl depth
        rw [all] at filled
        have whole := filled.trans under
        rw [← List.append_nil (document.under _ _ _)] at whole
        exact whole
    | group g =>
      rw [under_eq_nil inward (fun _ => Element.noConfusion) depth]
      exact spread_strays inward stands.body proper.1.2 depth
    | _ =>
      rw [under_eq_nil inward (fun _ => Element.noConfusion) depth]
      exact List.nil_sublist _
  | mark clause next ih => exact ih stands proper.2.2 outside depth

end

theorem get?_of_entries (document : Document) (ids : List NodeId) :
    ((ids.filterMap document.entry?).map Prod.snd).Sublist (ids.filterMap document.get?) := by
  induction ids with
  | nil => exact List.Sublist.slnil
  | cons id ids ih =>
    cases found : document.entry? id with
    | none =>
      rw [List.filterMap_cons_none found]
      cases found' : document.get? id with
      | none => rwa [List.filterMap_cons_none found']
      | some node =>
        rw [List.filterMap_cons_some found']
        exact ih.cons node
    | some entry =>
      rw [List.filterMap_cons_some found, List.filterMap_cons_some (get?_of_entry found)]
      exact ih.cons_cons entry.2

end Document

namespace Grove

theorem topLevel_plant (first : UInt32) {grove : Grove} (h : grove.Proper .top)
    (fits : grove.size ≤ NodeId.count) :
    (Document.mk (grove.plant first 0)).topLevel.Sublist
      ((Document.mk (grove.plant first 0)).atSlots first (rowSlots 0 grove)) := by
  let document := Document.mk (grove.plant first 0)
  have entries := congrArg (List.map Prod.snd) (@sectionEntries_rowSlots first grove h fits)
  have top : document.topLevel =
      ((document.nodes.zipIdx.filter fun entry => document.isTopLevel entry.1).map Prod.swap).map
        Prod.snd := by
    rw [List.map_map, Document.topLevel]
    conv_lhs => rw [← List.zipIdx_map_fst 0 document.nodes, List.filter_map]
    rfl
  rw [top, ← entries]
  exact (List.filter_sublist.map Prod.snd).trans (document.get?_of_entries _)

end Grove

namespace Document

/-- What stands in the fragments of a document that was read stands in source order. -/
theorem spread_readFrom {route : Route} (inward : route.IsInward) (first : UInt32) (text : String)
    (fits : (readFrom first text).nodes.length ≤ NodeId.count) (depth : Nat) :
    ((readFrom first text).spread route depth (readFrom first text).topLevel).Sublist
      (readFrom first text).nodes := by
  obtain ⟨grove, proper, -, -, planted⟩ := readFrom_eq_plant first text
  rw [planted, Grove.length_plant] at fits
  rw [planted]
  have spread := (Grove.topLevel_plant first proper fits).flatMap fun node =>
    node :: (Document.mk (grove.plant first 0)).under route depth node
  exact spread.trans (spread_rowSlots inward (Grove.stands_plant first fits) proper (by simp) _)

/-- The tour of a document that was read comes by its nodes in source order. -/
theorem labels_tour_readFrom (first : UInt32) (text : String)
    (fits : (readFrom first text).nodes.length ≤ NodeId.count) :
    ((readFrom first text).tour .openFragments).labels.Sublist (readFrom first text).nodes :=
  (labels_tour _ _).trans (spread_readFrom Route.isInward_openFragments first text fits _)

end Document

end SequenceDiagram
