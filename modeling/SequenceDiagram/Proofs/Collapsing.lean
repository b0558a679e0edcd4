import SequenceDiagram.Proofs.Parting
import SequenceDiagram.Proofs.Room

set_option autoImplicit false

/-!
# What collapsing a fragment leaves alone

Opening or collapsing a fragment moves what comes after it, changes how tall the fragments around
it are, and may move the whole canvas to the right. The row of participants, the top of the
fragment and the heights of everything before it stay as they are.
-/
namespace SequenceDiagram

namespace Layout

inductive Profile (α : Type)
  | box (y height : α)
  | message (y endY height : α) (number : Option UInt32)
  | fragment (y height : α) (elseYs : List α)
deriving DecidableEq, Repr

namespace Geometry
variable {α : Type}

def profile : Geometry α → Profile α
  | .box rect => .box rect.y rect.height
  | .message m => .message m.y m.endY m.height m.number
  | .fragment f => .fragment f.rect.y f.rect.height f.elseYs

def top : Geometry α → α
  | .box rect => rect.y
  | .message m => m.y
  | .fragment f => f.rect.y

theorem keeps_of_move [Scalar α] {move : Geometry α → Geometry α}
    (moves : move = id ∨ ∃ dx, move = Geometry.shiftX dx) (geometry : Geometry α) :
    (move geometry).profile = geometry.profile ∧ (move geometry).top = geometry.top := by
  rcases moves with rfl | ⟨dx, rfl⟩
  · exact ⟨rfl, rfl⟩
  · cases geometry <;> exact ⟨rfl, rfl⟩

end Geometry

def Canvas.widths {α : Type} (canvas : Canvas α) : List (String × α) :=
  canvas.boxes.map fun box => (box.1, box.2.width)

end Layout

namespace Document
variable {document : Document} {id : NodeId} {collapsed : Bool}

/-- A node comes before another one that does not stand in it, so all of it comes first. -/
def Precedes (document : Document) (node other : Node) : Prop :=
  document.place node < document.place other ∧ ¬Relation.TransGen document.Holds node other

theorem spread_turned_of {depth : Nat}
    (inside : ∀ node, ((document.turned id collapsed).under .openFragments depth
      (node.turn id collapsed)).Sublist
        ((document.under .fragments depth node).map (Node.turn id collapsed))) (row : List Node) :
    ((document.turned id collapsed).spread .openFragments depth
      (row.map (Node.turn id collapsed))).Sublist
        ((document.spread .fragments depth row).map (Node.turn id collapsed)) := by
  induction row with
  | nil => exact List.Sublist.slnil
  | cons node row ih =>
    rw [List.map_cons, spread_cons, spread_cons, List.map_cons, List.map_append]
    exact ((inside node).append ih).cons_cons _

theorem under_turned (depth : Nat) (node : Node) :
    ((document.turned id collapsed).under .openFragments depth (node.turn id collapsed)).Sublist
      ((document.under .fragments depth node).map (Node.turn id collapsed)) := by
  induction depth generalizing node with
  | zero => exact List.Sublist.slnil
  | succ depth ih =>
    have fewer := Route.openFragments_sublist (node.turn id collapsed).element
    rw [fragments_turn] at fewer
    have stops := (fewer.filterMap (document.turned id collapsed).get?).flatMap fun child =>
      child :: (document.turned id collapsed).under .openFragments depth child
    rw [filterMap_get?_turned (Route.fragments node.element).flatten] at stops
    exact stops.trans (spread_turned_of ih _)

theorem labels_tour_turned (first : UInt32) (text : String) (id : NodeId) (collapsed : Bool)
    (fits : (readFrom first text).nodes.length ≤ NodeId.count) :
    (((readFrom first text).turned id collapsed).tour .openFragments).labels.Sublist
      ((readFrom first text).turned id collapsed).nodes := by
  refine (labels_tour _ _).trans ?_
  rw [topLevel_turned]
  exact (spread_turned_of (under_turned _) _).trans
    ((spread_readFrom Route.isInward_fragments first text fits _).map _)

open Layout
variable {document : Document} {α : Type} [Scalar α]

theorem beginning_turned (document : Document) (id : NodeId) (collapsed : Bool)
    (config : Config α) :
    (document.turned id collapsed).beginning config = document.beginning config := by
  rw [beginning, setting_turned]
  unfold drawTitle
  rw [show ({ setting document config with document := document.turned id collapsed } :
    Setting α).document = document.turned id collapsed from rfl, title?_turned]
  rfl

theorem walks_tour_turned (document : Document) (id : NodeId) (collapsed : Bool) :
    ∃ visited, (document.turned id collapsed).Walks .openFragments
      ((document.topLevel.map some).map (Option.map (Node.turn id collapsed))) []
      ((document.turned id collapsed).tour .openFragments) visited := by
  obtain ⟨visited, walks⟩ := (document.turned id collapsed).walks_tour .openFragments
  rw [topLevel_turned, List.map_map] at walks
  rw [List.map_map]
  exact ⟨visited, walks⟩

/-- Either the fragment is not come by, and everything is placed as before, or both layouts come to
it in the same state. -/
theorem placeAll_turned (ids : (document.nodes.map Node.id).Nodup) (config : Config α)
    (collapsed : Bool) {target : Node} (mem : target ∈ document.nodes) :
    placeAll (setting (document.turned target.id collapsed) config) =
        placeAll (setting document config) ∨
      ∃ around before,
        (∀ owner ∈ around, Relation.TransGen document.Holds owner target) ∧
        (setting document config).Passes (document.tour .openFragments)
          (placeAll (setting document config)) target around before ∧
        (setting (document.turned target.id collapsed) config).Passes
          ((document.turned target.id collapsed).tour .openFragments)
          (placeAll (setting (document.turned target.id collapsed) config))
          (target.turn target.id collapsed) around before := by
  obtain ⟨_, walks⟩ := document.walks_tour .openFragments
  obtain ⟨_, walks'⟩ := document.walks_tour_turned target.id collapsed
  have known : ∀ node, some node ∈ document.topLevel.map some → node ∈ document.nodes :=
    fun node top => known_topLevel node (by simpa using top)
  have spans (node : Node) (other : node.id ≠ target.id) :
      { setting document config with document := document.turned target.id collapsed }.fragmentSpan
        node = (setting document config).fragmentSpan node := by
    have span := (setting document config).fragmentSpan_turned target.id collapsed node
    rwa [Node.turn_of_ne other] at span
  let start := document.beginning config
  have placed : placeAll (setting (document.turned target.id collapsed) config) =
      ({ setting document config with document := document.turned target.id collapsed }.placeRow
        start.linear start.parallel
        ((document.turned target.id collapsed).tour .openFragments) start).1 := by
    rw [show start = (document.turned target.id collapsed).beginning config from
      (document.beginning_turned target.id collapsed config).symm, ← setting_turned]
    rfl
  rw [placed, setting_turned]
  rcases walks.parts ids mem known walks' with ⟨same, -, absent⟩ | parts
  · rw [same, Setting.placeRow_congr]
    · exact Or.inl rfl
    · exact fun node inside => spans node (absent node inside)
  · obtain ⟨around, before, above, passes⟩ := (setting document config).exists_passes parts
      (document.turned target.id collapsed) spans start.linear start.parallel start
    exact Or.inr ⟨around, before, above, passes⟩

namespace IsForest

theorem id_ne_of_above (forest : document.IsForest) {node owner target : Node}
    (known : node ∈ document.nodes) (apart : ¬Relation.TransGen document.Holds node target)
    (above : Relation.TransGen document.Holds owner target) : node.id ≠ owner.id := by
  intro same
  obtain ⟨_, holds, -⟩ := Relation.TransGen.head'_iff.1 above
  obtain rfl := forest.eq_of_id known holds.1 same
  exact apart above

variable {collapsed : Bool} (forest : document.IsForest)
  (order : (document.tour .openFragments).labels.Sublist document.nodes) {target : Node}
  (order' : ((document.turned target.id collapsed).tour .openFragments).labels.Sublist
    (document.turned target.id collapsed).nodes)
  (mem : target ∈ document.nodes) (config : Config α)
include forest order order' mem

theorem get?_placeAll_turned {node : Node} (known : node ∈ document.nodes)
    (precedes : document.Precedes node target) :
    (placeAll (setting (document.turned target.id collapsed) config)).geometry.get? node.id =
      (placeAll (setting document config)).geometry.get? node.id := by
  rcases placeAll_turned forest.ids config collapsed mem with
    same | ⟨around, before, above, passes, passes'⟩
  · rw [same]
  · obtain ⟨early, apart⟩ := precedes
    have outside : ∀ owner ∈ around, node.id ≠ owner.id := fun owner inside =>
      forest.id_ne_of_above known apart (above owner inside)
    have early' : (document.turned target.id collapsed).place
        (node.turn target.id collapsed) <
        (document.turned target.id collapsed).place (target.turn target.id collapsed) := by
      rwa [place_turned _ _ _ forest.ids known, place_turned _ _ _ forest.ids mem]
    have drawn := passes'.get?_eq (forest.turned target.id collapsed).ids order'
      (document.mem_turned target.id collapsed known) early'
      fun owner inside => by rw [Node.id_turn]; exact outside owner inside
    rw [Node.id_turn] at drawn
    rw [drawn, passes.get?_eq forest.ids order known early outside]

theorem top_placeAll_turned {f : Fragment} (element : target.element = .fragment f) :
    ((placeAll (setting (document.turned target.id collapsed) config)).geometry.get?
        target.id).map Geometry.top =
      ((placeAll (setting document config)).geometry.get? target.id).map Geometry.top := by
  rcases placeAll_turned forest.ids config collapsed mem with
    same | ⟨around, before, above, passes, passes'⟩
  · rw [same]
  · have outside : ∀ owner ∈ around, target.id ≠ owner.id := fun owner inside =>
      forest.id_ne_of_above mem (forest.not_transGen_self target) (above owner inside)
    have element' : (target.turn target.id collapsed).element =
        .fragment (f.withCollapsed collapsed) := by
      rw [Node.turn_of_fragment element]
    obtain ⟨frame, drawn, top⟩ := passes.exists_frame (forest.ids.sublist (order.map Node.id))
      element outside
    obtain ⟨frame', drawn', top'⟩ := passes'.exists_frame
      ((forest.turned target.id collapsed).ids.sublist (order'.map Node.id)) element'
      fun owner inside => by rw [Node.id_turn]; exact outside owner inside
    rw [Node.id_turn] at drawn'
    rw [drawn, drawn', Option.map_some, Option.map_some]
    exact congrArg some (top'.trans top.symm)

end IsForest

theorem widths_layout (document : Document) (config : Config α) :
    (document.layout config).widths =
      (setting document config).columns.boxes.map fun column => (column.1, column.2.width) := by
  obtain ⟨move, -, strips⟩ := document.strips_layout config
  have widths := congrArg (List.map fun strip => (strip.1, strip.2.2)) strips
  rwa [List.map_map, List.map_map] at widths

theorem widths_layout_turned (document : Document) (id : NodeId) (collapsed : Bool)
    (config : Config α) :
    ((document.turned id collapsed).layout config).widths = (document.layout config).widths := by
  rw [widths_layout, widths_layout, setting_turned]

theorem IsForest.profile_layout {document : Document} (forest : document.IsForest)
    (config : Config α) {node : Node} (mem : node ∈ document.nodes)
    (placed : node.element.takesRow = true ∨ Setting.isFragment node.element = true) :
    ((document.layout config).get? node.id).map Geometry.profile =
        ((placeAll (setting document config)).geometry.get? node.id).map Geometry.profile ∧
      ((document.layout config).get? node.id).map Geometry.top =
        ((placeAll (setting document config)).geometry.get? node.id).map Geometry.top := by
  have kind : node.element.isEntry = true ∧ node.element.asksFrame = false := by
    cases element : node.element <;> simp [element, Element.takesRow, Setting.isFragment,
      Element.isEntry, Element.asksFrame] at placed ⊢
  obtain ⟨move, moves, drawn, -⟩ := forest.get?_unframed config
  rw [forest.get?_layout_of_frameless config mem kind.2, drawn node mem,
    Setting.groupDrawing?_eq_none kind.1, Setting.participantDrawing?_eq_none kind.1,
    Option.none_or, Option.none_or, Option.map_map, Option.map_map]
  exact ⟨congrArg (Option.map · _) (funext fun geometry => (geometry.keeps_of_move moves).1),
    congrArg (Option.map · _) (funext fun geometry => (geometry.keeps_of_move moves).2)⟩

/-- Two canvases for a document that differ only in what comes after a node, in what stands in or
around it, and from left to right. -/
structure AgreeUpTo (document : Document) (target : Node) (canvas canvas' : Canvas α) : Prop where
  order : canvas.order = canvas'.order
  widths : canvas.widths = canvas'.widths
  top : (canvas.get? target.id).map Geometry.top = (canvas'.get? target.id).map Geometry.top
  profile : ∀ node ∈ document.nodes, document.Precedes node target →
    (node.element.takesRow = true ∨ Setting.isFragment node.element = true) →
    (canvas.get? node.id).map Geometry.profile = (canvas'.get? node.id).map Geometry.profile

theorem agreeUpTo_turned (first : UInt32) (text : String) (config : Config α)
    (fits : (readFrom first text).nodes.length ≤ 2 ^ 32) {target : Node}
    (mem : target ∈ (readFrom first text).nodes) {f : Fragment}
    (element : target.element = .fragment f) (collapsed : Bool) :
    (readFrom first text).AgreeUpTo target
      (((readFrom first text).turned target.id collapsed).layout config)
      ((readFrom first text).layout config) := by
  have forest := isForest_readFrom first text fits
  have forest' := forest.turned target.id collapsed
  have order := labels_tour_readFrom first text fits
  have order' := labels_tour_turned first text target.id collapsed fits
  have turned {node : Node} (known : node ∈ (readFrom first text).nodes)
      (placed : node.element.takesRow = true ∨ Setting.isFragment node.element = true) :=
    forest'.profile_layout config
      ((readFrom first text).mem_turned target.id collapsed known)
      (by rwa [Node.read_turn (fun node => node.element.takesRow = true ∨
        Setting.isFragment node.element = true) (fun _ _ _ _ => rfl) node])
  simp only [Node.id_turn] at turned
  refine ⟨?_, widths_layout_turned _ _ _ _, ?_, fun node known precedes placed => ?_⟩
  · rw [(order_layout _ config).1, (order_layout _ config).1, roster_turned]
  · have placed : target.element.takesRow = true ∨ Setting.isFragment target.element = true := by
      rw [element]
      exact Or.inr rfl
    rw [(turned mem placed).2, (forest.profile_layout config mem placed).2]
    exact forest.top_placeAll_turned order order' mem config element
  · rw [(turned known placed).1, (forest.profile_layout config known placed).1]
    exact congrArg _ (forest.get?_placeAll_turned order order' mem config known precedes)

/-- Collapsing a fragment does not disturb what comes before it. With the fragment open and with the
fragment collapsed, participants stand in the same order in boxes of the same width, the fragment
has the same top, or none where it is hidden itself, and everything before it has the same heights
and numbers. By `fits` the identifiers, 32-bit words, are all different. -/
theorem collapsing_keeps_what_precedes (first : UInt32) (text : String) (config : Config α)
    (fits : (readFrom first text).nodes.length ≤ 2 ^ 32) {node : Node}
    (mem : node ∈ (readFrom first text).nodes) {f : Fragment}
    (element : node.element = .fragment f) :
    let document := readFrom first text
    ∃ opened closed,
      document.withNode { node with element := .fragment (f.withCollapsed false) } = .ok opened ∧
      document.withNode { node with element := .fragment (f.withCollapsed true) } = .ok closed ∧
      document.AgreeUpTo node (opened.layout config) (closed.layout config) := by
  intro document
  have ids := (isForest_readFrom first text fits).ids
  have agree := agreeUpTo_turned first text config fits mem element
  refine ⟨_, _, document.withNode_withCollapsed _ ids mem element,
    document.withNode_withCollapsed _ ids mem element, ?_⟩
  exact {
    order := (agree false).order.trans (agree true).order.symm
    widths := (agree false).widths.trans (agree true).widths.symm
    top := (agree false).top.trans (agree true).top.symm
    profile := fun node known precedes placed =>
      ((agree false).profile node known precedes placed).trans
        ((agree true).profile node known precedes placed).symm }

/-- A fragment in the else section of another one: the message after both moves up when it
collapses, the outer frame gets shorter, and all before it stays. -/
theorem collapsing_keeps_what_precedes_of_nested :
    let document := readFrom 0
      "autonumber 3\nA->B\nopt c\nnote over A:n\nelse d\nexpandable- e\nA->*C\nend\nend\nB->A"
    let f : Fragment := ⟨.expandable, "e", none, [⟨5⟩], [], some true⟩
    let node : Node := ⟨⟨4⟩, 6, 8, .fragment f⟩
    let config : Config Rat := Config.default
    let profiles (canvas : Canvas Rat) :=
      [⟨2⟩, ⟨3⟩, ⟨4⟩, ⟨6⟩].map fun id => (canvas.get? id).map Geometry.profile
    document.nodes.length ≤ 2 ^ 32 ∧ node ∈ document.nodes ∧ node.element = .fragment f ∧
      ∃ opened closed,
        document.withNode { node with element := .fragment (f.withCollapsed false) } = .ok opened ∧
        document.withNode { node with element := .fragment (f.withCollapsed true) } = .ok closed ∧
        document.AgreeUpTo node (opened.layout config) (closed.layout config) ∧
        profiles (opened.layout config) =
          [some (.fragment 116 182 [182]), some (.box 150 32), some (.fragment 212 78 []),
            some (.message 334 334 36 (some 5))] ∧
        profiles (closed.layout config) =
          [some (.fragment 116 130 [182]), some (.box 150 32), some (.fragment 212 26 []),
            some (.message 282 282 36 (some 4))] := by
  intro document f node config profiles
  obtain ⟨fits, mem⟩ : document.nodes.length ≤ 2 ^ 32 ∧ node ∈ document.nodes := by decide +kernel
  obtain ⟨opened, closed, shown, hidden, agree⟩ :=
    collapsing_keeps_what_precedes 0 _ config fits mem rfl
  have replaced (collapsed : Bool) := document.withNode_withCollapsed collapsed
    (isForest_readFrom 0 _ fits).ids mem (f := f) rfl
  obtain rfl := Except.ok.inj ((replaced false).symm.trans shown)
  obtain rfl := Except.ok.inj ((replaced true).symm.trans hidden)
  exact ⟨fits, mem, rfl, _, _, shown, hidden, agree, by decide +kernel⟩

end Document

end SequenceDiagram
