import SequenceDiagram.Proofs.Slots
import SequenceDiagram.Proofs.Visible

set_option autoImplicit false

/-!
# Walks through any document

A walk follows identifiers wherever they lead and remembers which ones it has come by; nothing
bounds its depth. In a document that was put together by hand containers may hold themselves, each
other or what is not there. Still every walk comes to an end, since it has one node less to come
by at each level, and the tours, which do bound their depth, are walks.
-/
namespace SequenceDiagram

namespace Document

def markedEntries (document : Document) : List (List NodeId) → List (Option Node)
  | [] => []
  | ids :: sections =>
    none :: ((ids.filterMap document.get?).map some ++ document.markedEntries sections)

def entries (document : Document) : List (List NodeId) → List (Option Node)
  | [] => []
  | ids :: sections =>
    (ids.filterMap document.get?).map some ++ document.markedEntries sections

/-- The recursion without a bound: what is gone through, given what was visited before, and what
is visited then. -/
inductive Walks (document : Document) (route : Route) :
    List (Option Node) → List NodeId → Tour → List NodeId → Prop
  | done {visited : List NodeId} : Walks document route [] visited .nil visited
  | mark {row : List (Option Node)} {visited after : List NodeId} {next : Tour}
      (rest : Walks document route row visited next after) :
      Walks document route (none :: row) visited (.mark () next) after
  | again {node : Node} {row : List (Option Node)} {visited after : List NodeId} {next : Tour}
      (known : node.id ∈ visited) (rest : Walks document route row visited next after) :
      Walks document route (some node :: row) visited next after
  | visit {node : Node} {row : List (Option Node)} {visited inside after : List NodeId}
      {body next : Tour} (fresh : node.id ∉ visited)
      (below : Walks document route (document.entries (route node.element)) (node.id :: visited)
        body inside)
      (rest : Walks document route row inside next after) :
      Walks document route (some node :: row) visited (.tree node body next) after

variable {document : Document} {route : Route}

theorem mem_markedEntries {sections : List (List NodeId)} {child : Node} :
    some child ∈ document.markedEntries sections ↔
      child ∈ sections.flatten.filterMap document.get? := by
  induction sections with
  | nil => simp [markedEntries]
  | cons ids sections ih =>
    rw [markedEntries, List.mem_cons, List.mem_append, ih, List.flatten_cons, List.filterMap_append,
      List.mem_append]
    simp

theorem mem_entries {sections : List (List NodeId)} {child : Node} :
    some child ∈ document.entries sections ↔
      child ∈ sections.flatten.filterMap document.get? := by
  cases sections with
  | nil => simp [entries]
  | cons ids sections =>
    rw [entries, List.mem_append, mem_markedEntries, List.flatten_cons, List.filterMap_append,
      List.mem_append]
    simp

theorem mem_nodes_of_stop {node child : Node} (stop : child ∈ document.stops route node) :
    child ∈ document.nodes :=
  let ⟨_, _, found⟩ := List.mem_filterMap.1 stop
  mem_nodes_of_get? found

namespace Walks
variable {row : List (Option Node)} {visited after : List NodeId} {tour : Tour}

/-- There is only one way to walk. -/
theorem unique (walks : document.Walks route row visited tour after) {tour' : Tour}
    {after' : List NodeId} (walks' : document.Walks route row visited tour' after') :
    tour = tour' ∧ after = after' := by
  induction walks generalizing tour' after' with
  | done =>
    cases walks'
    exact ⟨rfl, rfl⟩
  | mark _ ih =>
    cases walks' with
    | mark rest =>
      obtain ⟨rfl, rfl⟩ := ih rest
      exact ⟨rfl, rfl⟩
  | again known _ ih =>
    cases walks' with
    | again _ rest => exact ih rest
    | visit fresh _ _ => exact absurd known fresh
  | visit fresh _ _ ihb ihn =>
    cases walks' with
    | again known _ => exact absurd known fresh
    | visit _ below rest =>
      obtain ⟨rfl, rfl⟩ := ihb below
      obtain ⟨rfl, rfl⟩ := ihn rest
      exact ⟨rfl, rfl⟩

theorem append (walks : document.Walks route row visited tour after)
    {row' : List (Option Node)} {tour' : Tour} {after' : List NodeId}
    (walks' : document.Walks route row' after tour' after') :
    document.Walks route (row ++ row') visited (tour.append tour') after' := by
  induction walks with
  | done => exact walks'
  | mark _ ih => exact .mark (ih walks')
  | again known _ ih => exact .again known (ih walks')
  | visit fresh below _ _ ih => exact .visit fresh below (ih walks')

theorem after_eq (walks : document.Walks route row visited tour after) :
    after = memory tour ++ visited := by
  induction walks with
  | done => rfl
  | mark _ ih => exact ih
  | again _ _ ih => exact ih
  | visit _ _ _ ihb ihn =>
    rw [ihn, ihb, memory_tree, List.append_assoc, List.append_assoc, List.singleton_append]

theorem visited_subset (walks : document.Walks route row visited tour after) :
    visited ⊆ after :=
  walks.after_eq ▸ List.subset_append_right _ _

theorem nodup (walks : document.Walks route row visited tour after) (once : visited.Nodup) :
    after.Nodup := by
  induction walks with
  | done => exact once
  | mark _ ih => exact ih once
  | again _ _ ih => exact ih once
  | visit fresh _ _ ihb ihn => exact ihn (ihb (List.nodup_cons.2 ⟨fresh, once⟩))

/-- It skips nothing that it starts from, and nothing that its route goes to. -/
theorem closed (walks : document.Walks route row visited tour after) :
    (∀ node, some node ∈ row → node.id ∈ after) ∧
      ∀ node ∈ tour.labels, ∀ child ∈ document.stops route node, child.id ∈ after := by
  induction walks with
  | done =>
    exact ⟨fun _ mem => absurd mem List.not_mem_nil, fun _ mem => absurd mem List.not_mem_nil⟩
  | mark _ ih => exact ⟨fun node mem => ih.1 node (by simpa using mem), ih.2⟩
  | again known rest ih =>
    refine ⟨fun node mem => ?_, ih.2⟩
    rcases List.mem_cons.1 mem with same | mem
    · exact rest.visited_subset (Option.some.inj same ▸ known)
    · exact ih.1 node mem
  | visit _ below rest ihb ihn =>
    refine ⟨fun node mem => ?_, fun node mem child stop => ?_⟩
    · rcases List.mem_cons.1 mem with same | mem
      · exact Option.some.inj same ▸ rest.visited_subset (below.visited_subset List.mem_cons_self)
      · exact ihn.1 node mem
    · rw [Forest.labels, List.mem_cons, List.mem_append] at mem
      rcases mem with rfl | inside | next
      · exact rest.visited_subset (ihb.1 child (mem_entries.2 stop))
      · exact rest.visited_subset (ihb.2 node inside child stop)
      · exact ihn.2 node next child stop

/-- It comes by nothing that its route does not go to. -/
theorem reached (walks : document.Walks route row visited tour after)
    (known : ∀ node, some node ∈ row → node ∈ document.nodes) {x : Node} (mem : x ∈ tour.labels) :
    ∃ root, some root ∈ row ∧ Relation.ReflTransGen (document.Enters route) root x := by
  induction walks with
  | done => exact absurd mem List.not_mem_nil
  | mark _ ih =>
    obtain ⟨root, from_row, steps⟩ :=
      ih (fun node mem => known node (List.mem_cons_of_mem _ mem)) mem
    exact ⟨root, List.mem_cons_of_mem _ from_row, steps⟩
  | again _ _ ih =>
    obtain ⟨root, from_row, steps⟩ :=
      ih (fun node mem => known node (List.mem_cons_of_mem _ mem)) mem
    exact ⟨root, List.mem_cons_of_mem _ from_row, steps⟩
  | @visit node _ _ _ _ _ _ _ _ _ ihb ihn =>
    rw [Forest.labels, List.mem_cons, List.mem_append] at mem
    rcases mem with rfl | inside | next
    · exact ⟨_, List.mem_cons_self, .refl⟩
    · obtain ⟨child, entry, steps⟩ := ihb
        (fun child entry => mem_nodes_of_stop (mem_entries.1 entry)) inside
      exact ⟨node, List.mem_cons_self,
        .head ⟨known node List.mem_cons_self, mem_entries.1 entry⟩ steps⟩
    · obtain ⟨root, from_row, steps⟩ :=
        ihn (fun node mem => known node (List.mem_cons_of_mem _ mem)) next
      exact ⟨root, List.mem_cons_of_mem _ from_row, steps⟩

/-- From the start a walk comes by exactly what its route goes to. -/
theorem mem_iff (ids : (document.nodes.map Node.id).Nodup)
    (walks : document.Walks route row [] tour after)
    (known : ∀ node, some node ∈ row → node ∈ document.nodes) {x : Node} :
    x ∈ tour.labels ↔
      ∃ root, some root ∈ row ∧ Relation.ReflTransGen (document.Enters route) root x := by
  refine ⟨walks.reached known, ?_⟩
  rintro ⟨root, from_row, steps⟩
  obtain ⟨starts, further⟩ := walks.closed
  have label {node : Node} (mem : node ∈ document.nodes) (seen : node.id ∈ after) :
      node ∈ tour.labels := by
    rw [walks.after_eq, List.append_nil, memory, List.mem_reverse] at seen
    obtain ⟨other, there, same⟩ := List.mem_map.1 seen
    obtain ⟨root, from_row, steps⟩ := walks.reached known there
    have mem' : other ∈ document.nodes := by
      rcases Relation.ReflTransGen.cases_tail steps with rfl | ⟨owner, -, enters⟩
      · exact known _ from_row
      · exact mem_nodes_of_stop enters.2
    exact List.inj_on_of_nodup_map ids mem' mem same ▸ there
  induction steps with
  | refl => exact label (known root from_row) (starts root from_row)
  | tail _ enters ih =>
    exact label (mem_nodes_of_stop enters.2) (further _ ih _ enters.2)

end Walks

end Document

namespace Tour

def unmarked : Tour → Tour
  | .nil => .nil
  | .tree node body next => .tree node (unmarked body) (unmarked next)
  | .mark _ next => unmarked next

theorem unmarked_append (a b : Tour) :
    unmarked (a.append b) = (unmarked a).append (unmarked b) := by
  induction a with
  | nil => rfl
  | tree node body next _ ih => rw [Forest.append, unmarked, ih, unmarked, Forest.append]
  | mark _ next ih => exact ih

theorem labels_unmarked (tour : Tour) : (unmarked tour).labels = tour.labels := by
  induction tour with
  | nil => rfl
  | tree node body next ihb ihn => rw [unmarked, Forest.labels, ihb, ihn, Forest.labels]
  | mark _ next ih => exact ih

theorem nesting_unmarked (test : Element → Bool) (tour : Tour) :
    nesting test (unmarked tour) = nesting test tour := by
  induction tour with
  | nil => rfl
  | tree node body next ihb ihn => rw [unmarked, nesting, ihb, ihn, nesting]
  | mark _ next ih => exact ih

/-- A relation on tours that goes through them part by part. -/
structure IsCongruence (alike : Tour → Tour → Prop) : Prop where
  nil : alike .nil .nil
  tree : ∀ node body body' next next', alike body body' → alike next next' →
    alike (.tree node body next) (.tree node body' next')
  mark : ∀ next next', alike next next' → alike (.mark () next) (.mark () next')
  append : ∀ a a' b b', alike a a' → alike b b' → alike (a.append b) (a'.append b')

theorem isCongruence_eq : IsCongruence Eq :=
  ⟨rfl, fun _ _ _ _ _ => by rintro rfl rfl; rfl, fun _ _ => by rintro rfl; rfl,
    fun _ _ _ _ => by rintro rfl rfl; rfl⟩

theorem isCongruence_unmarked : IsCongruence fun a b => unmarked a = unmarked b where
  nil := rfl
  tree _ _ _ _ _ body next := by rw [unmarked, body, next, unmarked]
  mark _ _ next := next
  append _ _ _ _ a b := by rw [unmarked_append, a, b, unmarked_append]

end Tour

namespace Document
variable {document : Document} {route : Route}

def unvisited (document : Document) (visited : List NodeId) : Nat :=
  (document.nodes.filter fun node => node.id ∉ visited).length

theorem unvisited_le (document : Document) {visited visited' : List NodeId}
    (more : visited ⊆ visited') :
    document.unvisited visited' ≤ document.unvisited visited := by
  refine (List.monotone_filter_right _ fun node fresh => ?_).length_le
  simp only [decide_eq_true_eq] at fresh ⊢
  exact fun known => fresh (more known)

/-- Every visit leaves one node less. -/
theorem unvisited_lt {node : Node} (mem : node ∈ document.nodes) {visited : List NodeId}
    (fresh : node.id ∉ visited) :
    document.unvisited (node.id :: visited) < document.unvisited visited := by
  have fewer : document.nodes.filter (fun other => other.id ∉ node.id :: visited) =
      (document.nodes.filter fun other => other.id ∉ visited).filter fun other =>
        other.id ≠ node.id := by
    rw [List.filter_filter]
    exact List.filter_congr fun other _ => by simp
  rw [unvisited, fewer]
  exact List.length_filter_lt_length_iff_exists.2
    ⟨node, List.mem_filter.2 ⟨mem, by simpa using fresh⟩, by simp⟩

section
variable (body : Node → Visit) {alike : Tour → Tour → Prop} (congruence : Tour.IsCongruence alike)
  {bound : Nat} (inside : ∀ node, ∀ visited, document.unvisited visited < bound →
    ∃ tour, document.Walks route (document.entries (route node.element)) visited tour
      (body node visited).2 ∧ alike tour (body node visited).1)
include congruence inside

theorem walks_tourRow {row : List Node} (known : ∀ node ∈ row, node ∈ document.nodes)
    {visited : List NodeId} (few : document.unvisited visited ≤ bound) :
    ∃ tour, document.Walks route (row.map some) visited tour (tourRow body row visited).2 ∧
      alike tour (tourRow body row visited).1 := by
  induction row generalizing visited with
  | nil => exact ⟨.nil, .done, congruence.nil⟩
  | cons node row ih =>
    have later := fun other mem => known other (List.mem_cons_of_mem _ mem)
    by_cases seen : node.id ∈ visited
    · obtain ⟨next, rest, same⟩ := ih later few
      rw [tourRow, if_pos (by simpa using seen)]
      exact ⟨next, .again seen rest, same⟩
    · have fewer := unvisited_lt (known node List.mem_cons_self) seen
      obtain ⟨under, below, same⟩ := inside node (node.id :: visited) (by omega)
      have left := document.unvisited_le
        (List.Subset.trans (List.subset_cons_self _ _) below.visited_subset)
      obtain ⟨next, rest, same'⟩ := ih later (left.trans few)
      rw [tourRow, if_neg (by simpa using seen)]
      exact ⟨.tree node under next, .visit seen below rest, congruence.tree _ _ _ _ _ same same'⟩

theorem walks_tourSection (ids : List NodeId) {visited : List NodeId}
    (few : document.unvisited visited ≤ bound) :
    ∃ tour, document.Walks route ((ids.filterMap document.get?).map some) visited tour
      (document.tourSection body ids visited).2 ∧
      alike tour (document.tourSection body ids visited).1 := by
  refine walks_tourRow body congruence inside (fun node mem => ?_) few
  obtain ⟨_, -, found⟩ := List.mem_filterMap.1 mem
  exact mem_nodes_of_get? found

theorem walks_tourMarked (sections : List (List NodeId)) {visited : List NodeId}
    (few : document.unvisited visited ≤ bound) :
    ∃ tour, document.Walks route (document.markedEntries sections) visited tour
      (document.tourMarked body sections visited).2 ∧
      alike tour (document.tourMarked body sections visited).1 := by
  induction sections generalizing visited with
  | nil => exact ⟨.nil, .done, congruence.nil⟩
  | cons ids sections ih =>
    obtain ⟨row, walks, same⟩ := walks_tourSection body congruence inside ids few
    obtain ⟨next, rest, same'⟩ := ih ((document.unvisited_le walks.visited_subset).trans few)
    exact ⟨.mark () (row.append next), .mark (walks.append rest),
      congruence.mark _ _ (congruence.append _ _ _ _ same same')⟩

theorem walks_tourSections (sections : List (List NodeId)) {visited : List NodeId}
    (few : document.unvisited visited ≤ bound) :
    ∃ tour, document.Walks route (document.entries sections) visited tour
      (document.tourSections body sections visited).2 ∧
      alike tour (document.tourSections body sections visited).1 := by
  cases sections with
  | nil => exact ⟨.nil, .done, congruence.nil⟩
  | cons ids sections =>
    obtain ⟨row, walks, same⟩ := walks_tourSection body congruence inside ids few
    obtain ⟨next, rest, same'⟩ := walks_tourMarked body congruence inside sections
      ((document.unvisited_le walks.visited_subset).trans few)
    exact ⟨row.append next, walks.append rest, congruence.append _ _ _ _ same same'⟩

end

/-- With more levels left than nodes to visit, the bound on the depth is not met. -/
theorem walks_tourBody (route : Route) (depth : Nat) (node : Node) {visited : List NodeId}
    (few : document.unvisited visited < depth) :
    document.Walks route (document.entries (route node.element)) visited
      (document.tourBody route depth node visited).1
      (document.tourBody route depth node visited).2 := by
  induction depth generalizing node visited with
  | zero => exact absurd few (Nat.not_lt_zero _)
  | succ depth ih =>
    obtain ⟨tour, walks, rfl⟩ := walks_tourSections (document.tourBody route depth)
      Tour.isCongruence_eq (fun node visited few => ⟨_, ih node few, rfl⟩) (route node.element)
      (Nat.le_of_lt_succ few)
    exact walks

theorem walks_of_known {row : List (Option Node)} {visited : List NodeId}
    (known : ∀ node, some node ∈ row → node.id ∈ visited) :
    ∃ tour, document.Walks route row visited tour visited ∧ Tour.unmarked tour = .nil := by
  induction row with
  | nil => exact ⟨.nil, .done, rfl⟩
  | cons entry row ih =>
    obtain ⟨tour, walks, blank⟩ := ih fun node mem => known node (List.mem_cons_of_mem _ mem)
    cases entry with
    | none => exact ⟨.mark () tour, .mark walks, blank⟩
    | some node => exact ⟨tour, .again (known node List.mem_cons_self) walks, blank⟩

/-- With as many levels left as nodes to visit, the bound on the depth leaves out marks at most. -/
theorem exists_walks_tourBody (route : Route) (depth : Nat) (node : Node) {visited : List NodeId}
    (few : document.unvisited visited ≤ depth) :
    ∃ tour, document.Walks route (document.entries (route node.element)) visited tour
      (document.tourBody route depth node visited).2 ∧
      Tour.unmarked tour = Tour.unmarked (document.tourBody route depth node visited).1 := by
  induction depth generalizing node visited with
  | zero =>
    refine walks_of_known fun child mem => ?_
    by_contra fresh
    have less := unvisited_lt (mem_nodes_of_stop (mem_entries.1 mem)) fresh
    omega
  | succ depth ih =>
    exact walks_tourSections (document.tourBody route depth) Tour.isCongruence_unmarked
      (fun node visited few => ih node (Nat.le_of_lt_succ few)) (route node.element) few

theorem unvisited_nil (document : Document) : document.unvisited [] = document.nodes.length := by
  simp [unvisited]

theorem walks_tour (document : Document) (route : Route) :
    ∃ visited,
      document.Walks route (document.topLevel.map some) [] (document.tour route) visited := by
  obtain ⟨tour, walks, rfl⟩ := walks_tourRow (document.tourBody route document.nodes.length)
    Tour.isCongruence_eq (fun node visited few => ⟨_, walks_tourBody route _ node few, rfl⟩)
    known_topLevel (Nat.le_of_eq document.unvisited_nil)
  exact ⟨_, walks⟩

/-- What is under a node is measured on a walk. -/
theorem exists_walks_tourUnder (document : Document) (route : Route) (node : Node) :
    ∃ inside visited,
      document.Walks route (document.entries (route node.element)) [] inside visited ∧
      (document.tourUnder route node).labels = inside.labels ∧
      ∀ test, (document.tourUnder route node).nesting test = inside.nesting test := by
  obtain ⟨inside, walks, same⟩ := exists_walks_tourBody route document.nodes.length node
    (Nat.le_of_eq document.unvisited_nil)
  refine ⟨inside, _, walks, ?_, fun test => ?_⟩
  · rw [← Tour.labels_unmarked inside, same, Tour.labels_unmarked, tourUnder]
  · rw [← Tour.nesting_unmarked test inside, same, Tour.nesting_unmarked, tourUnder]

end Document

namespace Layout

open Document in
/-- Everything that a walk into open fragments comes by is placed. -/
theorem map_node_arrivals {α : Type} [Scalar α] (setting : Setting α) {document : Document}
    {row : List (Option Node)} {visited after : List NodeId} {tour : Tour}
    (walks : document.Walks .openFragments row visited tour after) (linear parallel : Bool)
    (progress : Progress α) :
    (setting.arrivals linear parallel tour progress).map Arrival.node = tour.labels := by
  induction walks generalizing linear parallel progress with
  | done => rfl
  | mark _ ih => exact ih linear parallel _
  | again _ _ ih => exact ih linear parallel _
  | @visit node _ _ _ _ body _ _ below _ ihb ihn =>
    rw [Setting.arrivals, List.map_cons, List.map_append, ihn, Forest.labels]
    refine congrArg (fun inside => node :: (inside ++ _)) ?_
    obtain ⟨id, lineStart, lineEnd, element⟩ := node
    cases element with
    | fragment f => exact ihb _ _ _
    | _ =>
      -- nothing but a fragment is entered
      cases below
      rfl

theorem snd_placeRow {α : Type} [Scalar α] (setting : Setting α) {document : Document}
    {route : Route} {row : List (Option Node)} {visited after : List NodeId} {tour : Tour}
    (walks : document.Walks route row visited tour after) (single : none ∉ row)
    (linear parallel : Bool) (progress : Progress α) :
    (setting.placeRow linear parallel tour progress).2 = [] := by
  induction walks generalizing progress with
  | done => rfl
  | mark _ _ => exact absurd List.mem_cons_self single
  | again _ _ ih => exact ih (List.not_mem_of_not_mem_cons single) progress
  | visit _ _ _ _ ih => exact ih (List.not_mem_of_not_mem_cons single) _

end Layout

namespace Document
open Layout
variable {document : Document}

/-- An open fragment names a node in one of its sections. -/
def OpensTo (document : Document) (owner child : Node) : Prop :=
  document.Holds owner child ∧ ∃ f, owner.element = .fragment f ∧ f.isCollapsed = false

/-- A walk from some row comes to an end, and always to the same one. -/
def Ends (document : Document) (route : Route) (row : List (Option Node)) (tour : Tour) : Prop :=
  ∀ other, (∃ visited, document.Walks route row [] other visited) ↔ other = tour

theorem Walks.ends {route : Route} {row : List (Option Node)} {tour : Tour}
    {visited : List NodeId} (walks : document.Walks route row [] tour visited) :
    document.Ends route row tour :=
  fun _ => ⟨fun ⟨_, others⟩ => (others.unique walks).1, fun same => same ▸ ⟨visited, walks⟩⟩

/-- Layout survives every document whose identifiers are its own, however its containers name each
other. The unbounded walk that places the document ends with its tour, and so do those that measure
what is in a fragment or in a group. The last state comes of placing the nodes that come up, and no
others, in their order. No node is placed twice, and those that are placed are the ones that open
fragments lead to from the top row. -/
theorem placement_survives (ids : (document.nodes.map Node.id).Nodup) {α : Type} [Scalar α]
    (config : Config α) :
    document.Ends .openFragments (document.topLevel.map some) (document.tour .openFragments) ∧
    (∀ route ∈ [Route.fragments, Route.nestedGroups], ∀ node ∈ document.nodes,
      ∃ inside, document.Ends route (document.entries (route node.element)) inside ∧
        (document.tourUnder route node).labels = inside.labels ∧
        ∀ test, (document.tourUnder route node).nesting test = inside.nesting test) ∧
    (setting document config).Places (document.beginning config).linear
      (document.beginning config).parallel (document.beginning config) (document.arrivals config)
      [] (placeAll (setting document config)) ∧
    ((document.arrivals config).map fun arrival => arrival.node.id).Nodup ∧
    ∀ node, node ∈ (document.arrivals config).map Arrival.node ↔
      ∃ root ∈ document.topLevel, Relation.ReflTransGen document.OpensTo root node := by
  obtain ⟨visited, walks⟩ := document.walks_tour .openFragments
  have placed : (document.arrivals config).map Arrival.node =
      (document.tour .openFragments).labels :=
    map_node_arrivals (setting document config) walks _ _ _
  refine ⟨walks.ends, fun route _ node _ => ?_, ?_, ?_, fun node => ?_⟩
  · obtain ⟨inside, _, below, measures⟩ := document.exists_walks_tourUnder route node
    exact ⟨inside, below.ends, measures⟩
  · have places := (setting document config).places_placeRow (document.beginning config).linear
      (document.beginning config).parallel (document.tour .openFragments)
      (document.beginning config)
    rwa [snd_placeRow _ walks (by simp)] at places
  · have once := walks.nodup List.nodup_nil
    rw [walks.after_eq, List.append_nil, memory, List.nodup_reverse, ← placed, List.map_map] at once
    exact once
  · have enters : document.Enters .openFragments = document.OpensTo := by
      funext owner child
      exact propext (enters_openFragments_iff ids)
    rw [placed, walks.mem_iff ids fun node mem => ?_, enters]
    · simp
    · exact known_topLevel node (by simpa using mem)

/-- A loop that is in itself and in a circle with another fragment, names what is not there and
shares a blank line, and a loop that nothing leads to but itself. -/
theorem placement_survives_of_circle :
    let loop (entries : List NodeId) (others : List (List NodeId)) : Element :=
      .fragment ⟨.loop, "", none, entries, others.map (ElseClause.mk "" none), none⟩
    let document : Document := ⟨[
      ⟨⟨0⟩, 1, 1, loop [⟨1⟩] []⟩,
      ⟨⟨1⟩, 2, 2, loop [⟨1⟩, ⟨9⟩, ⟨2⟩] [[⟨3⟩, ⟨2⟩]]⟩,
      ⟨⟨2⟩, 3, 3, loop [⟨1⟩, ⟨3⟩] []⟩,
      ⟨⟨3⟩, 4, 4, .blankLine⟩,
      ⟨⟨4⟩, 5, 5, loop [⟨4⟩] []⟩]⟩
    let config : Config Rat := Config.default
    document.validate ≠ .ok () ∧ (document.nodes.map Node.id).Nodup ∧
      (document.arrivals config).map (fun arrival => arrival.node.id) = [⟨0⟩, ⟨1⟩, ⟨2⟩, ⟨3⟩] ∧
      ∀ node, node ∈ (document.arrivals config).map Arrival.node ↔
        ∃ root ∈ document.topLevel, Relation.ReflTransGen document.OpensTo root node := by
  intro loop document config
  have faulty : document.validate ≠ .ok () := by decide +kernel
  have ids : (document.nodes.map Node.id).Nodup := by decide +kernel
  have placed : (document.arrivals config).map (fun arrival => arrival.node.id) =
      [⟨0⟩, ⟨1⟩, ⟨2⟩, ⟨3⟩] := by decide +kernel
  exact ⟨faulty, ids, placed, (placement_survives ids config).2.2.2.2⟩

end Document

end SequenceDiagram
