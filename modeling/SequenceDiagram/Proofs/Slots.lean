import Mathlib.Data.List.NodupEquivFin
import SequenceDiagram.Proofs.Clearance
import SequenceDiagram.Proofs.Drawn
import SequenceDiagram.Proofs.Touring

set_option autoImplicit false

namespace SequenceDiagram

namespace Layout

section
variable {α : Type} [Scalar α]

namespace Geometry

def slot? : Geometry α → Option (Slot α)
  | .message arrow => some ⟨arrow.endY - arrow.height, arrow.endY⟩
  | .box rect => some ⟨rect.y, rect.bottom⟩
  | .fragment _ => none

theorem slot?_shiftX (dx : α) (geometry : Geometry α) :
    (geometry.shiftX dx).slot? = geometry.slot? := by
  cases geometry <;> rfl

end Geometry

namespace Canvas

def slot? (canvas : Canvas α) (node : Node) : Option (Slot α) :=
  if node.element.takesRow then (canvas.get? node.id).bind Geometry.slot? else none

def extent? (canvas : Canvas α) (config : Config α) (node : Node) : Option (Span α) :=
  match node.element with
  | .message m =>
    ((canvas.get? node.id).bind Geometry.message?).map (MessageGeometry.extent config m)
  | _ => none

end Canvas

end

end Layout

namespace Document
open Layout

section
variable {α : Type} [Scalar α]

def beginning (document : Document) (config : Config α) : Progress α :=
  drawTitle (setting document config) (Progress.start (setting document config).bodyTop)

def arrivals (document : Document) (config : Config α) : List (Arrival α) :=
  let start := document.beginning config
  (setting document config).arrivals start.linear start.parallel (document.tour .openFragments)
    start

end

end Document

namespace Layout

theorem mem_insert_background {node : Node} (takesNone : node.element.takesRow = false)
    {map : GeometryMap Rat} {geometry : Geometry Rat} {entry : NodeId × Geometry Rat}
    (h : entry ∈ map.insert node.id geometry) :
    entry ∈ map ∨ entry.1 = node.id ∧ node.element.takesRow = false := by
  rcases GeometryMap.mem_insert h with rfl | mem
  · exact Or.inr ⟨rfl, takesNone⟩
  · exact Or.inl mem

theorem mem_foldl_draw {nodes : List Node} {draw : GeometryMap Rat → Node → GeometryMap Rat}
    (only : ∀ map node entry, entry ∈ draw map node →
      entry ∈ map ∨ entry.1 = node.id ∧ node.element.takesRow = false)
    {map : GeometryMap Rat} {entry : NodeId × Geometry Rat} (h : entry ∈ nodes.foldl draw map) :
    entry ∈ map ∨ HasBackground ⟨nodes⟩ entry.1 := by
  induction nodes generalizing map with
  | nil => exact Or.inl h
  | cons node nodes ih =>
    rcases ih h with mem | ⟨other, mem, same⟩
    · rcases only map node entry mem with mem | ⟨same, takes⟩
      · exact Or.inl mem
      · exact Or.inr ⟨node, List.mem_cons_self, same.symm, takes⟩
    · exact Or.inr ⟨other, List.mem_cons_of_mem _ mem, same⟩

theorem mem_drawParticipants {setting : Setting Rat} {progress : Progress Rat}
    {map : GeometryMap Rat} {entry : NodeId × Geometry Rat}
    (h : entry ∈ setting.drawParticipants progress map) :
    entry ∈ map ∨ HasBackground setting.document entry.1 := by
  refine mem_foldl_draw (fun map node entry mem => ?_) h
  obtain ⟨id, lineStart, lineEnd, element⟩ := node
  cases element with
  | participant p =>
    simp only at mem
    split at mem
    · exact mem_insert_background rfl mem
    · exact Or.inl mem
  | _ => exact Or.inl mem

theorem mem_drawGroups {setting : Setting Rat} {rowTop : Rat} {progress : Progress Rat}
    {map : GeometryMap Rat} {entry : NodeId × Geometry Rat}
    (h : entry ∈ setting.drawGroups rowTop progress map) :
    entry ∈ map ∨ HasBackground setting.document entry.1 := by
  refine mem_foldl_draw (fun map node entry mem => ?_) h
  obtain ⟨id, lineStart, lineEnd, element⟩ := node
  cases element with
  | group g =>
    simp only [Element.isGroup, if_true] at mem
    split at mem
    · exact mem_insert_background rfl mem
    · exact Or.inl mem
  | _ => exact Or.inl mem

theorem mem_foldl_insert {frames : List NodeId} {map : GeometryMap Rat} {geometry : Geometry Rat}
    {entry : NodeId × Geometry Rat}
    (h : entry ∈ frames.foldl (fun map id => GeometryMap.insert map id geometry) map) :
    entry ∈ map ∨ entry.1 ∈ frames := by
  induction frames generalizing map with
  | nil => exact Or.inl h
  | cons id frames ih =>
    rcases ih h with mem | mem
    · rcases GeometryMap.mem_insert mem with rfl | mem
      · exact Or.inr List.mem_cons_self
      · exact Or.inl mem
    · exact Or.inr (List.mem_cons_of_mem _ mem)

theorem mem_drawFrame {canvas : Canvas Rat} {config : Config Rat} {frames : List NodeId}
    {entry : NodeId × Geometry Rat} (h : entry ∈ (canvas.drawFrame config frames).geometry) :
    entry ∈ canvas.geometry ∨ entry.1 ∈ frames := by
  unfold Canvas.drawFrame at h
  split at h
  · exact Or.inl h
  · exact mem_foldl_insert h

theorem exists_shift (canvas : Canvas Rat) (margin : Rat) :
    ∃ dx, ∀ entry ∈ (canvas.moveIn margin).geometry,
      ∃ before ∈ canvas.geometry, entry.1 = before.1 ∧ entry.2 = before.2.shiftX dx := by
  have still : ∀ entry ∈ canvas.geometry, ∃ before ∈ canvas.geometry,
      entry.1 = before.1 ∧ entry.2 = before.2.shiftX 0 := by
    intro entry mem
    refine ⟨entry, mem, rfl, ?_⟩
    obtain ⟨id, geometry⟩ := entry
    cases geometry <;>
      simp [Geometry.shiftX, Rect.shiftX, MessageGeometry.shiftX]
  unfold Canvas.moveIn
  split
  · exact ⟨0, still⟩
  · split
    · rename_i left _ _
      refine ⟨margin - left, fun entry mem => ?_⟩
      obtain ⟨before, mem', rfl⟩ := List.mem_map.1 mem
      exact ⟨before, mem', rfl, rfl⟩
    · exact ⟨0, still⟩

theorem hasBackground_title {document : Document} {id : NodeId} {text : String}
    (h : title? document = some (id, text)) : HasBackground document id := by
  obtain ⟨node, mem, found⟩ := List.exists_of_findSome?_eq_some h
  obtain ⟨id', lineStart, lineEnd, element⟩ := node
  refine ⟨_, List.mem_reverse.1 mem, ?_⟩
  cases element with
  | directive d =>
    cases d with
    | title text' =>
      obtain ⟨rfl, -⟩ := Prod.mk.inj (Option.some.inj found)
      exact ⟨rfl, rfl⟩
    | _ => exact absurd found nofun
  | _ => exact absurd found nofun

end Layout

namespace Document
open Layout

section
variable (document : Document) {config : Config Rat}

theorem isTraced_beginning :
    (setting document config).IsTraced [] (document.beginning config) := by
  have start : (setting document config).IsTraced []
      (Progress.start (setting document config).bodyTop) :=
    ⟨fun _ mem => absurd mem List.not_mem_nil, fun _ mem => absurd mem List.not_mem_nil,
      fun _ mem => absurd mem List.not_mem_nil⟩
  unfold beginning drawTitle
  split
  · rename_i found
    exact start.draw_background (hasBackground_title found) _
  · exact start

theorem isClear_beginning :
    (setting document config).IsClear [] (document.beginning config) := by
  have front : (document.beginning config).front =
      (Progress.start (setting document config).bodyTop).front := by
    unfold beginning drawTitle
    split <;> rfl
  obtain ⟨-, packer, spacing⟩ : _ ∧ _ ∧ _ := by
    simpa only [Progress.front, Prod.mk.injEq] using front
  refine ⟨?_, fun _ mem => absurd mem List.not_mem_nil, fun level opened => ?_⟩
  · rw [spacing]
    exact Nat.cast_pos.2 Nat.one_pos
  · rw [packer] at opened
    exact absurd opened (Option.not_mem_none level)

variable (valid : config.validate = .ok ())
include valid

theorem isTraced_placeAll : (setting document config).IsTraced (document.arrivals config)
    (placeAll (setting document config)) :=
  ((Setting.preserves_isTraced (Columns.isSpaced_ofDocument valid document _)
    fun _ mem => mem_nodes_of_tour mem).run _ _ (List.Subset.refl _) []
      document.isTraced_beginning).2

/-- Whatever is on the canvas belongs to a node that takes no row, or was drawn for a node when
it came up, and was then moved to the right with everything else. -/
theorem drawn_layout :
    ∃ dx, ∀ entry ∈ (document.layout config).geometry, HasBackground document entry.1 ∨
      ∃ a ∈ document.arrivals config, a.node.id = entry.1 ∧
        ∃ geometry, a.Draws (setting document config) geometry ∧ entry.2 = geometry.shiftX dx := by
  have traced := document.isTraced_placeAll valid
  obtain ⟨dx, shifted⟩ := exists_shift ((setting document config).unshifted
    (rowTop document config) (placeAll (setting document config))) config.margin
  refine ⟨dx, fun entry mem => ?_⟩
  rcases mem_drawFrame mem with mem | framed
  · obtain ⟨before, mem, id, moved⟩ := shifted entry mem
    rw [id, moved]
    rcases mem_drawGroups mem with mem | background
    · rcases mem_drawParticipants mem with mem | background
      · refine (traced.drawn before mem).imp_right ?_
        rintro ⟨a, arrived, same, draws⟩
        exact ⟨a, arrived, same, before.2, draws, rfl⟩
      · exact Or.inl background
    · exact Or.inl background
  · exact Or.inl (traced.frames entry.1 framed)

end

end Document

namespace Layout

theorem labels_arrivals {α : Type} [Scalar α] (setting : Setting α) (linear parallel : Bool)
    (tour : Tour) (progress : Progress α) :
    ((setting.arrivals linear parallel tour progress).map Arrival.node).Sublist tour.labels := by
  induction tour generalizing linear parallel progress with
  | nil => exact List.Sublist.slnil
  | mark _ next ih => exact ih linear parallel _
  | tree node body next ihb ihn =>
    rw [Setting.arrivals, List.map_cons, List.map_append, Forest.labels]
    refine (List.Sublist.append ?_ (ihn linear parallel _)).cons_cons node
    split
    · exact ihb _ _ _
    · exact List.nil_sublist _

theorem Arrival.Draws.slot {setting : Setting Rat} {a : Arrival Rat} {geometry : Geometry Rat}
    (h : a.Draws setting geometry) : a.slot? setting = geometry.slot? := by
  obtain ⟨⟨id, lineStart, lineEnd, element⟩, before⟩ := a
  cases element with
  | message m =>
    obtain ⟨arrow, shape, rfl, -, slot, -⟩ := h
    exact slot
  | note n =>
    obtain ⟨rect, rfl, slot⟩ := h
    exact slot
  | divider d =>
    obtain ⟨rect, rfl, slot⟩ := h
    exact slot
  | blankLine =>
    obtain ⟨rect, rfl, slot⟩ := h
    exact slot
  | error fault =>
    obtain ⟨rect, rfl, slot⟩ := h
    exact slot
  | _ => exact h.elim

theorem Arrival.Draws.extent {setting : Setting Rat} {a : Arrival Rat} {geometry : Geometry Rat}
    (h : a.Draws setting geometry) {span : Span Rat} (packed : a.packed? setting = some span) :
    ∃ m arrow, a.node.element = .message m ∧ geometry = .message arrow ∧
      (arrow.extent setting.config m).Within span := by
  obtain ⟨shape, shaped, rfl⟩ : ∃ shape, a.shape? setting = some shape ∧ shape.span = span := by
    unfold packed? at packed
    split at packed
    · exact Option.map_eq_some_iff.1 packed
    · contradiction
  have message := shaped
  unfold Arrival.shape? at message
  split at message
  · rename_i m element
    unfold Arrival.Draws at h
    rw [element] at h
    obtain ⟨arrow, shape', rfl, shaped', -, within⟩ := h
    obtain rfl : shape' = shape := Option.some.inj (shaped'.symm.trans shaped)
    exact ⟨m, arrow, element, rfl, within⟩
  · contradiction

theorem MessageGeometry.extent_shiftX (config : Config Rat) (message : Message)
    (arrow : MessageGeometry Rat) (dx : Rat) :
    (arrow.shiftX dx).extent config message =
      ⟨(arrow.extent config message).left + dx, (arrow.extent config message).right + dx⟩ := by
  unfold extent
  split
  · simp only [shiftX, Span.between, Scalar.min_eq_min, Scalar.max_eq_max, ← min_add_add_right,
      ← max_add_add_right, add_right_comm]
  · simp only [shiftX, MessageGeometry.span, Span.between, Scalar.min_eq_min, Scalar.max_eq_max,
      ← min_add_add_right, ← max_add_add_right]

end Layout

/-- A `space` directive that moves the cursor up. -/
def Element.stepsBack : Element → Bool
  | .directive (.space steps) => steps < 0
  | _ => false

namespace Document
open Layout

theorem mem_nodes_of_arrival {document : Document} {config : Config Rat} {a : Arrival Rat}
    (h : a ∈ document.arrivals config) : a.node ∈ document.nodes :=
  mem_nodes_of_tour ((labels_arrivals _ _ _ _ _).subset (List.mem_map_of_mem h))

/-- The rows of two nodes on the canvas: the first one ends where the second one starts or above,
or both are messages that were packed on one level, start at one height and at most touch. -/
def RowsApart (document : Document) (config : Config Rat) (p q : Node) : Prop :=
  let canvas := document.layout config
  ∀ slot ∈ canvas.slot? p, ∀ slot' ∈ canvas.slot? q,
    slot.bottom ≤ slot'.top ∨
      (∃ a ∈ document.arrivals config, ∃ b ∈ document.arrivals config, a.node = p ∧ b.node = q ∧
        a.SharesLevel (setting document config) b) ∧
      slot.top = slot'.top ∧
      ∃ extent ∈ canvas.extent? config p, ∃ extent' ∈ canvas.extent? config q,
        extent.right ≤ extent'.left ∨ extent'.right ≤ extent.left

section
variable {document : Document} {config : Config Rat} (valid : config.validate = .ok ())
include valid

theorem exists_arrival
    (unique : ∀ p ∈ document.nodes, ∀ q ∈ document.nodes, p.id = q.id → p = q) :
    ∃ dx, ∀ p ∈ document.nodes, ∀ slot ∈ (document.layout config).slot? p,
      ∃ a ∈ document.arrivals config, a.node = p ∧ a.slot? (setting document config) = some slot ∧
        ∀ span ∈ a.packed? (setting document config),
          ∃ extent ∈ (document.layout config).extent? config p,
            span.left + dx ≤ extent.left ∧ extent.right ≤ span.right + dx := by
  obtain ⟨dx, drawn⟩ := document.drawn_layout valid
  refine ⟨dx, fun p mem slot taken => ?_⟩
  unfold Canvas.slot? at taken
  split at taken
  · rename_i takes
    obtain ⟨geometry, found, slotted⟩ := Option.bind_eq_some_iff.1 taken
    rcases drawn _ (mem_of_lookup found) with
      ⟨other, mem', id, takesNone⟩ | ⟨a, arrived, id, shape, draws, rfl⟩
    · obtain rfl := unique other mem' p mem id
      exact absurd (takes.symm.trans takesNone) nofun
    · obtain rfl := unique a.node (mem_nodes_of_arrival arrived) p mem id
      refine ⟨a, arrived, rfl, ?_, fun span packed => ?_⟩
      · rw [draws.slot, ← slotted]
        exact (shape.slot?_shiftX dx).symm
      · obtain ⟨m, arrow, element, rfl, left, right⟩ := draws.extent packed
        have extent : (document.layout config).extent? config a.node =
            some ((arrow.shiftX dx).extent config m) := by
          simp only [Canvas.extent?, element, found]
          rfl
        refine ⟨_, extent, ?_, ?_⟩
        · rw [MessageGeometry.extent_shiftX]
          exact add_le_add_left left dx
        · rw [MessageGeometry.extent_shiftX]
          exact add_le_add_left right dx
  · exact absurd taken nofun

end

theorem apart_and_crowded {document : Document} {config : Config Rat}
    (valid : config.validate = .ok ())
    (forward : ∀ node ∈ document.nodes, node.element.stepsBack = false) :
    (document.arrivals config).Pairwise (Arrival.Apart (setting document config)) ∧
      ∀ earlier b later, document.arrivals config = earlier ++ b :: later →
        b.Crowded (setting document config) earlier := by
  have onward : ∀ node ∈ (document.tour .openFragments).labels, ∀ steps,
      node.element = .directive (.space steps) → 0 ≤ steps := by
    intro node mem steps element
    have kept := forward node (mem_nodes_of_tour mem)
    rw [element] at kept
    simpa [Element.stepsBack, Int32.not_lt] using kept
  have clear : (setting document config).IsClear [] (document.beginning config) :=
    document.isClear_beginning
  have valid' : (setting document config).config.validate = .ok () := valid
  have placed : Successive (setting document config).Fits [] (document.arrivals config) :=
    ((Setting.preserves_isClear valid' onward).run _ _ (List.Subset.refl _) [] clear).1
  refine ⟨(placed.pairwise fun _ _ fits => fits.1).1, fun earlier b later same => ?_⟩
  rw [same] at placed
  exact placed.at_split.2

/-- What a part of a list has in some order, the whole list has in the same order. -/
theorem lt_of_sublist {α : Type} {part whole : List α} (h : part.Sublist whole)
    (nodup : whole.Nodup) {i j m n : Nat} {x y : α} (hi : whole[i]? = some x)
    (hj : whole[j]? = some y) (hm : part[m]? = some x) (hn : part[n]? = some y) (less : i < j) :
    m < n := by
  obtain ⟨f, place⟩ := List.sublist_iff_exists_orderEmbedding_getElem?_eq.1 h
  have index {k l : Nat} {z : α} (hk : whole[k]? = some z) (hl : part[l]? = some z) : f l = k := by
    have bound := (List.getElem?_eq_some_iff.1 hk).1
    exact ((List.getElem?_inj bound nodup).1 (hk.trans (hl.symm.trans (place l)))).symm
  rw [← index hi hm, ← index hj hn] at less
  exact f.lt_iff_lt.1 less

/-- Nodes that keep apart when they come up keep apart on the canvas. -/
theorem pairwise_rowsApart (first : UInt32) (text : String) {config : Config Rat}
    (valid : config.validate = .ok ()) (fits : (readFrom first text).nodes.length ≤ 2 ^ 32)
    (apart : ((readFrom first text).arrivals config).Pairwise
      (Arrival.Apart (setting (readFrom first text) config))) :
    (readFrom first text).nodes.Pairwise ((readFrom first text).RowsApart config) := by
  have nodup := nodup_nodes_readFrom first text fits
  have order : (((readFrom first text).arrivals config).map Arrival.node).Sublist
      (readFrom first text).nodes :=
    (labels_arrivals _ _ _ _ _).trans (labels_tour_readFrom first text fits)
  have unique : ∀ p ∈ (readFrom first text).nodes, ∀ q ∈ (readFrom first text).nodes,
      p.id = q.id → p = q := by
    intro p hp q hq same
    obtain ⟨i, hi⟩ := List.mem_iff_getElem?.1 hp
    obtain ⟨j, hj⟩ := List.mem_iff_getElem?.1 hq
    obtain rfl := index_eq_of_id first text fits hi hj same
    exact Option.some.inj (hi.symm.trans hj)
  obtain ⟨dx, told⟩ := exists_arrival valid unique
  rw [List.pairwise_iff_getElem] at apart ⊢
  intro i j hi hj less slot taken slot' taken'
  obtain ⟨a, arrived, node, row, drawn⟩ := told _ (List.getElem_mem hi) slot taken
  obtain ⟨b, arrived', node', row', drawn'⟩ := told _ (List.getElem_mem hj) slot' taken'
  obtain ⟨m, hm, rfl⟩ := List.getElem_of_mem arrived
  obtain ⟨n, hn, rfl⟩ := List.getElem_of_mem arrived'
  have before : m < n := by
    refine lt_of_sublist order nodup (List.getElem?_eq_getElem hi) (List.getElem?_eq_getElem hj)
      ?_ ?_ less
    · rw [List.getElem?_map, List.getElem?_eq_getElem hm, Option.map_some, node]
    · rw [List.getElem?_map, List.getElem?_eq_getElem hn, Option.map_some, node']
  refine (apart m n hm hn before slot row slot' row').imp_right fun shares => ?_
  refine ⟨⟨_, arrived, _, arrived', node, node', shares⟩, ?_⟩
  obtain ⟨level, span, span', -, stands, packed, ⟨bottom', top'⟩, clear⟩ := shares
  obtain ⟨bottom, top⟩ := stands.slot
  obtain rfl := Option.some.inj (row.symm.trans top)
  obtain rfl := Option.some.inj (row'.symm.trans top')
  obtain ⟨extent, shown, left, right⟩ := drawn span stands.packed
  obtain ⟨extent', shown', left', right'⟩ := drawn' span' packed
  refine ⟨rfl, extent, shown, extent', shown', ?_⟩
  rcases Span.overlaps_eq_false.1 clear with beside | beside
  · exact Or.inr (by linarith)
  · exact Or.inl (by linarith)

/-- Rows never collide. However the text reads, if no `space` in it steps back, every node comes
up for placing below all before it that do not share a level with it, and a packed message that
leaves an open level overlaps what stands there. As long as nodes have identifiers of their own,
this is what the canvas shows of any two nodes of the document, in the order of the source. -/
theorem rows_never_collide (first : UInt32) (text : String) {config : Config Rat}
    (valid : config.validate = .ok ())
    (forward : ∀ node ∈ (readFrom first text).nodes, node.element.stepsBack = false) :
    let document := readFrom first text
    (document.arrivals config).Pairwise (Arrival.Apart (setting document config)) ∧
      (∀ earlier b later, document.arrivals config = earlier ++ b :: later →
        b.Crowded (setting document config) earlier) ∧
      (document.nodes.length ≤ 2 ^ 32 → document.nodes.Pairwise (document.RowsApart config)) := by
  intro document
  obtain ⟨apart, crowded⟩ := apart_and_crowded valid forward
  exact ⟨apart, crowded, fun fits => pairwise_rowsApart first text valid fits apart⟩

/-- Two messages on one level, the second of which creates its receiver, and one below. -/
theorem rows_never_collide_of_linear :
    let document := readFrom 0 "linear\na->b\nb->*c\na->c"
    let config : Config Rat := Config.default
    config.validate = .ok () ∧ (∀ node ∈ document.nodes, node.element.stepsBack = false) ∧
      document.nodes.length ≤ 2 ^ 32 ∧ document.nodes.map (document.layout config).slot? =
        [none, some ⟨80, 116⟩, some ⟨80, 116⟩, some ⟨116, 152⟩] ∧
      document.nodes.Pairwise (document.RowsApart config) := by
  intro document config
  have valid : config.validate = .ok () := by rfl
  have forward : ∀ node ∈ document.nodes, node.element.stepsBack = false := by decide +kernel
  have fits : document.nodes.length ≤ 2 ^ 32 := by decide +kernel
  have slots : document.nodes.map (document.layout config).slot? =
      [none, some ⟨80, 116⟩, some ⟨80, 116⟩, some ⟨116, 152⟩] := by decide +kernel
  exact ⟨valid, forward, fits, slots,
    (rows_never_collide 0 "linear\na->b\nb->*c\na->c" valid forward).2.2 fits⟩

end Document

end SequenceDiagram
