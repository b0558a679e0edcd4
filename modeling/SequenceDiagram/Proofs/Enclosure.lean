import SequenceDiagram.Proofs.Extents
import SequenceDiagram.Proofs.Headway
import SequenceDiagram.Proofs.Shown

set_option autoImplicit false

namespace SequenceDiagram

theorem Tour.nesting_lt (test : Element → Bool) {tour body : Tour} {node : Node}
    (mem : (node, body) ∈ tour.trees) (counts : test node.element = true)
    (fragments : ∀ f, test (.fragment f) = true) :
    body.nesting test + 1 ≤ tour.nesting test := by
  induction tour with
  | nil => exact absurd mem List.not_mem_nil
  | mark _ next ih => exact ih mem
  | tree first inside next ihb ihn =>
    rw [trees] at mem
    rw [nesting]
    rcases List.mem_cons.1 mem with same | mem
    · obtain ⟨rfl, rfl⟩ := Prod.mk.inj same
      rw [if_pos counts]
      omega
    · rcases List.mem_append.1 mem with mem | mem
      · split at mem
        · rename_i f element
          have deeper := ihb mem
          rw [if_pos (by rw [element]; exact fragments f)]
          omega
        · exact absurd mem List.not_mem_nil
      · have later := ihn mem
        omega

namespace Layout

theorem Span.within_shift_iff {inner outer : Span Rat} (dx : Rat) :
    (⟨inner.left + dx, inner.right + dx⟩ : Span Rat).Within
      ⟨outer.left + dx, outer.right + dx⟩ ↔ inner.Within outer := by
  simp [Within]

theorem MessageGeometry.span_shiftX (arrow : MessageGeometry Rat) (dx : Rat) :
    (arrow.shiftX dx).span = ⟨arrow.span.left + dx, arrow.span.right + dx⟩ := by
  simp only [shiftX, span, Span.between, Scalar.min_eq_min, Scalar.max_eq_max, min_add_add_right,
    max_add_add_right]

theorem Setting.boxSpan_shiftX (rect : Rect Rat) (dx : Rat) :
    boxSpan (rect.shiftX dx) = ⟨(boxSpan rect).left + dx, (boxSpan rect).right + dx⟩ := by
  simp only [boxSpan, Rect.shiftX, Rect.right, add_right_comm]

theorem Geometry.exists_of_shiftX_eq_fragment {geometry : Geometry Rat} {dx : Rat}
    {frame : FragmentGeometry Rat} (same : .fragment frame = geometry.shiftX dx) :
    ∃ before, geometry = .fragment before ∧ frame.rect = before.rect.shiftX dx := by
  cases geometry with
  | fragment before => exact ⟨before, rfl, congrArg _ (Geometry.fragment.inj same)⟩
  | _ => cases same

theorem Geometry.exists_of_shiftX_eq_message {geometry : Geometry Rat} {dx : Rat}
    {arrow : MessageGeometry Rat} (same : .message arrow = geometry.shiftX dx) :
    ∃ before, geometry = .message before ∧ arrow = before.shiftX dx := by
  cases geometry with
  | message before => exact ⟨before, rfl, Geometry.message.inj same⟩
  | _ => cases same

end Layout

namespace Document
open Layout

variable {document : Document}

def HoldsMessage (document : Document) (node : Node) : Prop :=
  ∃ inner m, Relation.TransGen document.Holds node inner ∧ inner.element = .message m

section
variable (document) (config : Config Rat)

def extentsIn (node : Node) : List (Span Rat) :=
  (document.tourUnder .fragments node).labels.flatMap fun node =>
    (setting document config).elementExtents node.element

def fragmentReach (node : Node) : Rat :=
  config.fragmentMargin *
    Scalar.ofNat ((document.tourUnder .fragments node).nesting Setting.isFragment + 1)

def emptySpan (reach : Rat) : Span Rat :=
  let columns := (setting document config).columns
  if columns.isEmpty then ⟨config.margin, config.margin + config.participantMinWidth⟩
  else ⟨columns.left - reach, columns.right + reach⟩

theorem fragmentSpan_of_cover {node : Node} {extent : Span Rat}
    (covered : Span.cover? (document.extentsIn config node) = some extent) :
    (setting document config).fragmentSpan node =
      ⟨extent.left - document.fragmentReach config node,
        extent.right + document.fragmentReach config node⟩ := by
  unfold Setting.fragmentSpan
  dsimp only
  split
  · rename_i found
    obtain rfl := Option.some.inj (covered.symm.trans found)
    rfl
  · rename_i none
    exact absurd (covered.symm.trans none) nofun

theorem fragmentSpan_of_none {node : Node}
    (none : Span.cover? (document.extentsIn config node) = none) :
    (setting document config).fragmentSpan node =
      document.emptySpan config (document.fragmentReach config node) := by
  unfold Setting.fragmentSpan
  dsimp only
  split
  · rename_i found
    exact absurd (none.symm.trans found) nofun
  · rfl

end

section
variable (forest : document.IsForest) (config : Config Rat)
include forest

theorem IsForest.mem_extentsIn {node inner : Node} (mem : node ∈ document.nodes) {m : Message}
    (element : inner.element = .message m) (below : Relation.TransGen document.Holds node inner)
    {extent : Span Rat} (reaches : extent ∈ (setting document config).messageExtents m) :
    extent ∈ document.extentsIn config node := by
  refine List.mem_flatMap.2 ⟨inner, ?_, by rw [element]; exact reaches⟩
  rw [forest.mem_tourUnder_iff Route.isDown_fragments mem,
    forest.transGen_fragments_iff (by rw [element]; rfl)]
  exact below

theorem IsForest.exists_of_mem_extentsIn {node : Node} (mem : node ∈ document.nodes)
    {extent : Span Rat} (reaches : extent ∈ document.extentsIn config node) :
    ∃ inner m, Relation.TransGen document.Holds node inner ∧ inner.element = .message m ∧
      extent ∈ (setting document config).messageExtents m := by
  obtain ⟨inner, inside, reaches⟩ := List.mem_flatMap.1 reaches
  rw [forest.mem_tourUnder_iff Route.isDown_fragments mem] at inside
  cases element : inner.element with
  | message m =>
    rw [element] at reaches
    exact ⟨inner, m, (forest.transGen_fragments_iff (by rw [element]; rfl)).1 inside, element,
      reaches⟩
  | _ =>
    rw [element] at reaches
    exact absurd reaches List.not_mem_nil

theorem IsForest.exists_cover_iff {node : Node} (mem : node ∈ document.nodes) :
    (∃ extent, Span.cover? (document.extentsIn config node) = some extent) ↔
      document.HoldsMessage node := by
  rw [← Option.isSome_iff_exists, Span.isSome_cover?_iff]
  constructor
  · rintro ⟨extent, reaches⟩
    obtain ⟨inner, m, below, element, -⟩ := forest.exists_of_mem_extentsIn config mem reaches
    exact ⟨inner, m, below, element⟩
  · rintro ⟨inner, m, below, element⟩
    obtain ⟨last, -, holds⟩ := Relation.TransGen.tail'_iff.1 below
    have known : m.source ∈ (setting document config).columns.order :=
      mem_order_of_mentions holds.2.1 config (by rw [element]; exact List.mem_cons_self)
    obtain ⟨box, found⟩ := Option.isSome_iff_exists.1
      (((setting document config).columns.isSome_rect?_iff _).2 known)
    refine ⟨_, forest.mem_extentsIn config mem element below (List.mem_map.2 ⟨box, ?_, rfl⟩)⟩
    exact List.mem_filterMap.2 ⟨m.source, List.mem_cons_self, found⟩

variable {config} (valid : config.validate = .ok ())
include valid

omit forest in
theorem fragmentReach_nonneg (document : Document) (node : Node) :
    0 ≤ document.fragmentReach config node :=
  mul_nonneg (Config.nonneg_of_validate valid (by simp [Config.fields])) (Scalar.ofNat_nonneg _)

theorem IsForest.fragmentReach_le {outer inner : Node} {f : Fragment}
    (inside : inner.element = .fragment f)
    (below : Relation.TransGen document.Holds outer inner) :
    document.fragmentReach config inner ≤ document.fragmentReach config outer := by
  have entered := (forest.transGen_fragments_iff (by rw [inside]; rfl)).2 below
  have nested := Tour.nesting_lt Setting.isFragment
    (forest.mem_trees_of_transGen Route.isDown_fragments
      (fun p q enters => (forest.enters_fragments_iff.1 enters).2) entered)
    (by rw [inside]; rfl) fun _ => rfl
  refine mul_le_mul_of_nonneg_left ?_
    (Config.nonneg_of_validate valid (by simp [Config.fields]))
  exact Nat.cast_le.2 (by omega)

theorem IsForest.extent_within {outer inner : Node} (mem : outer ∈ document.nodes) {m : Message}
    (element : inner.element = .message m)
    (below : Relation.TransGen document.Holds outer inner) {extent : Span Rat}
    (reaches : extent ∈ (setting document config).messageExtents m) :
    extent.Within ((setting document config).fragmentSpan outer) := by
  have inside := forest.mem_extentsIn config mem element below reaches
  obtain ⟨cover, covered⟩ := (forest.exists_cover_iff config mem).2 ⟨inner, m, below, element⟩
  have reach := fragmentReach_nonneg valid document outer
  obtain ⟨left, right⟩ := Span.within_cover? covered inside
  rw [fragmentSpan_of_cover document config covered]
  exact ⟨by dsimp only; linarith, by dsimp only; linarith⟩

/-- A fragment spans the fragments in it, unless one of them spans every column for want of
messages. -/
theorem IsForest.fragmentSpan_within {outer inner : Node} (mem : outer ∈ document.nodes)
    {f : Fragment} (inside : inner.element = .fragment f)
    (below : Relation.TransGen document.Holds outer inner)
    (messages : document.HoldsMessage inner ∨ ¬document.HoldsMessage outer) :
    ((setting document config).fragmentSpan inner).Within
      ((setting document config).fragmentSpan outer) := by
  obtain ⟨last, -, holds⟩ := Relation.TransGen.tail'_iff.1 below
  have mem' := holds.2.1
  have further := forest.fragmentReach_le valid inside below
  cases covered : Span.cover? (document.extentsIn config inner) with
  | some extent =>
    have within {e : Span Rat} (reaches : e ∈ document.extentsIn config inner) :
        e ∈ document.extentsIn config outer := by
      obtain ⟨deep, m, below', element, reaches⟩ :=
        forest.exists_of_mem_extentsIn config mem' reaches
      exact forest.mem_extentsIn config mem element (below.trans below') reaches
    obtain ⟨deep, m, below', element⟩ := (forest.exists_cover_iff config mem').1 ⟨_, covered⟩
    obtain ⟨extent', covered'⟩ :=
      (forest.exists_cover_iff config mem).2 ⟨deep, m, below.trans below', element⟩
    obtain ⟨left, right⟩ := (Span.cover?_within_iff covered).2 fun e reaches =>
      Span.within_cover? covered' (within reaches)
    rw [fragmentSpan_of_cover document config covered,
      fragmentSpan_of_cover document config covered']
    exact ⟨sub_le_sub left further, add_le_add right further⟩
  | none =>
    have empty : ¬document.HoldsMessage inner := fun holds => by
      obtain ⟨extent, found⟩ := (forest.exists_cover_iff config mem').2 holds
      exact absurd (covered.symm.trans found) nofun
    have empty' := messages.resolve_left empty
    rw [← forest.exists_cover_iff config mem, ← Option.isSome_iff_exists,
      Option.not_isSome_iff_eq_none] at empty'
    rw [fragmentSpan_of_none document config covered, fragmentSpan_of_none document config empty']
    unfold emptySpan
    dsimp only
    split
    · exact .refl _
    · exact ⟨sub_le_sub (le_refl _) further, add_le_add (le_refl _) further⟩

end

theorem span_within_of_extents {setting : Setting Rat} (spaced : setting.columns.IsSpaced)
    {spacing : Rat} {m : Message} {shape : Setting.MessageShape Rat}
    (measured : setting.messageShape? spacing m = some shape)
    (wide : 0 ≤ setting.config.selfMessageWidth) {outer : Span Rat}
    (reaches : ∀ extent ∈ setting.messageExtents m, extent.Within outer) :
    shape.span.Within outer := by
  have half {key : String} {x : Rat} (end' : key ∈ [m.source, m.target])
      (center : setting.columns.center? key = some x) : outer.left ≤ x ∧ x ≤ outer.right ∧
        (m.isSelf = true → x + setting.config.selfMessageWidth ≤ outer.right) := by
    obtain ⟨box, found, rfl⟩ := Option.map_eq_some_iff.1 center
    have width := spaced.width _ (Columns.mem_of_rect? found)
    obtain ⟨left, right⟩ := reaches _
      (List.mem_map.2 ⟨box, List.mem_filterMap.2 ⟨key, end', found⟩, rfl⟩)
    dsimp only at left right width
    simp only [Rect.right, Rect.centerX, Scalar.half_rat, Scalar.max_eq_max] at right ⊢
    split at right
    · have loop := (le_max_right _ _).trans right
      exact ⟨by linarith, by linarith, fun _ => loop⟩
    · rename_i other
      exact ⟨by linarith, by linarith, fun self => absurd self other⟩
  obtain ⟨source, target, span⟩ := Setting.span_of_messageShape? measured
  obtain ⟨left, right, loop⟩ := half List.mem_cons_self source
  obtain ⟨left', right', -⟩ := half (List.mem_cons_of_mem _ List.mem_cons_self) target
  rw [span]
  split
  · rename_i self
    simp only [Span.Within, Span.between, Scalar.min_eq_min, Scalar.max_eq_max]
    exact ⟨le_min left (by linarith), max_le right (loop self)⟩
  · simp only [Span.Within, Span.between, Scalar.min_eq_min, Scalar.max_eq_max]
    exact ⟨le_min left left', max_le right right'⟩

section
variable {config : Config Rat}

theorem IsForest.ends_of_self (forest : document.IsForest) {node : Node}
    (mem : node ∈ (document.tour .openFragments).labels) {m : Message}
    (element : node.element = .message m) (self : m.isSelf = true) {arrow : MessageGeometry Rat}
    (drawn : (placeAll (setting document config)).geometry.get? node.id =
      some (.message arrow)) : arrow.fromX = arrow.toX := by
  obtain ⟨before, -, found⟩ := forest.exists_get?_leaf config mem (by simp [element])
  rw [found, forest.titleDrawing?_eq_none config (mem_nodes_of_tour mem) (by simp [element]),
    Option.or_none, Arrival.drawing?] at drawn
  simp only [element] at drawn
  obtain ⟨shape, measured, same⟩ := Option.map_eq_some_iff.1 drawn
  have same := Geometry.message.inj same
  obtain ⟨source, target, -⟩ := Setting.span_of_messageShape? measured
  have ends : m.source = m.target := by simpa [Message.isSelf] using self
  have alone : ¬m.sender ≠ m.receiver := by simp [Message.sender, Message.receiver, ends]
  have creates := (setting document config).creates_placeCreated m (shape.arrow before)
    (Setting.countMessage (before.reserve shape.span shape.height))
  rw [same] at creates
  generalize Setting.countMessage (before.reserve shape.span shape.height) = counted at creates
  generalize (Setting.placeCreated _ m (shape.arrow before) counted).2 = after at creates
  have kept : arrow.fromX = shape.fromX ∧ arrow.toX = shape.toX := by
    cases creates with
    | plain => exact ⟨rfl, rfl⟩
    | hidden => exact ⟨rfl, rfl⟩
    | forward box found other => exact absurd other alone
    | backward box found other => exact absurd other alone
  rw [kept.1, kept.2]
  rw [ends] at source
  exact Option.some.inj (source.symm.trans target)

variable (forest : document.IsForest) (valid : config.validate = .ok ())
include forest valid

/-- An arrow, with its loop, stays between the boxes of its participants, so it stays within the
span of every fragment around it. -/
theorem IsForest.arrow_within {outer inner : Node} (mem : outer ∈ document.nodes) {m : Message}
    (element : inner.element = .message m)
    (below : Relation.TransGen document.Holds outer inner)
    (toured : inner ∈ (document.tour .openFragments).labels) {arrow : MessageGeometry Rat}
    (drawn : (placeAll (setting document config)).geometry.get? inner.id =
      some (.message arrow)) :
    (arrow.extent config m).Within ((setting document config).fragmentSpan outer) ∧
      arrow.span.Within (arrow.extent config m) := by
  have wide : 0 ≤ config.selfMessageWidth :=
    Config.nonneg_of_validate valid (by simp [Config.fields])
  have mem' := mem_nodes_of_tour toured
  constructor
  · rcases (document.isTraced_placeAll valid).drawn _ (mem_of_lookup drawn) with
      ⟨other, known, same, rowless⟩ | ⟨a, arrived, same, draws⟩
    · obtain rfl := forest.eq_of_id known mem' same
      rw [element] at rowless
      cases rowless
    obtain rfl := forest.eq_of_id (mem_nodes_of_arrival arrived) mem' same
    unfold Arrival.Draws at draws
    simp only [element] at draws
    obtain ⟨arrow', shape, same, measured, -, within⟩ := draws
    obtain rfl := Geometry.message.inj same
    refine within.trans ?_
    simp only [Arrival.shape?, element] at measured
    exact span_within_of_extents (Columns.isSpaced_ofDocument valid document _) measured wide
      fun extent reaches => forest.extent_within valid mem element below reaches
  · unfold MessageGeometry.extent
    split
    · rename_i self
      have ends := forest.ends_of_self toured element self drawn
      rw [MessageGeometry.span, ← ends]
      refine Span.Within.between ⟨min_le_left _ _, le_max_left _ _⟩
        ⟨min_le_left _ _, le_max_left _ _⟩
    · exact .refl _

end

section
variable (forest : document.IsForest) (config : Config Rat)
include forest

/-- The frame of a fragment begins where its span does and is as wide as its span and its label. -/
theorem IsForest.get?_frame {node : Node} (mem : node ∈ (document.tour .openFragments).labels)
    {f : Fragment} (element : node.element = .fragment f) :
    ∃ top height elseYs, (placeAll (setting document config)).geometry.get? node.id =
      some (.fragment ⟨⟨((setting document config).fragmentSpan node).left, top,
        max (((setting document config).fragmentSpan node).right -
          ((setting document config).fragmentSpan node).left) (Setting.headerWidth config f),
        height⟩, elseYs⟩) := by
  obtain ⟨before, -, -, -, moment⟩ := forest.exists_moment config mem
  obtain ⟨elseYs, drawn⟩ := (setting document config).get?_placeTree_fragment element
    (document.tourUnder .openFragments node) before
  exact ⟨_, _, elseYs, (moment node List.mem_cons_self).2.trans drawn⟩

theorem IsForest.fragmentSpan_within_frame {node : Node}
    (toured : node ∈ (document.tour .openFragments).labels) {f : Fragment}
    (element : node.element = .fragment f) {frame : FragmentGeometry Rat}
    (framed : (placeAll (setting document config)).geometry.get? node.id =
      some (.fragment frame)) :
    ((setting document config).fragmentSpan node).Within (Setting.boxSpan frame.rect) := by
  obtain ⟨top, height, elseYs, drawn⟩ := forest.get?_frame config toured element
  obtain rfl := Geometry.fragment.inj (Option.some.inj (framed.symm.trans drawn))
  refine ⟨le_refl _, ?_⟩
  dsimp only [Setting.boxSpan, Rect.right]
  linarith [le_max_left (((setting document config).fragmentSpan node).right -
    ((setting document config).fragmentSpan node).left) (Setting.headerWidth config f)]

variable {config} (valid : config.validate = .ok ())
include valid

/-- A frame is enclosed sideways by a frame around it if its label is. -/
theorem IsForest.frame_within_iff {outer inner : Node} {g f : Fragment}
    (around : outer.element = .fragment g) (inside : inner.element = .fragment f)
    (toured : outer ∈ (document.tour .openFragments).labels)
    (toured' : inner ∈ (document.tour .openFragments).labels)
    (below : Relation.TransGen document.Holds outer inner)
    (messages : document.HoldsMessage inner ∨ ¬document.HoldsMessage outer)
    {frame nested : FragmentGeometry Rat}
    (framed : (placeAll (setting document config)).geometry.get? outer.id =
      some (.fragment frame))
    (framed' : (placeAll (setting document config)).geometry.get? inner.id =
      some (.fragment nested)) :
    (Setting.boxSpan nested.rect).Within (Setting.boxSpan frame.rect) ↔
      nested.rect.x + Setting.headerWidth config f ≤ frame.rect.right := by
  obtain ⟨left, right⟩ := (forest.fragmentSpan_within valid (mem_nodes_of_tour toured) inside below
    messages).trans (forest.fragmentSpan_within_frame config toured around framed)
  obtain ⟨top, height, elseYs, drawn⟩ := forest.get?_frame config toured' inside
  obtain rfl := Geometry.fragment.inj (Option.some.inj (framed'.symm.trans drawn))
  simp only [Span.Within, Setting.boxSpan, Rect.right] at left right ⊢
  rw [and_iff_right left, ← le_sub_iff_add_le', max_le_iff, sub_le_sub_iff_right,
    and_iff_right right, le_sub_iff_add_le']

/-- If no node in a fragment steps back, the frame encloses the height of what is drawn in it. -/
theorem IsForest.between_frame {outer inner : Node} {f : Fragment}
    (element : outer.element = .fragment f)
    (toured : outer ∈ (document.tour .openFragments).labels)
    (below : Relation.TransGen (document.Enters .openFragments) outer inner)
    (forward : ∀ node ∈ (document.tourUnder .openFragments outer).labels,
      node.element.stepsBack = false)
    (untitled : ∀ text, inner.element ≠ .directive (.title text))
    {frame : FragmentGeometry Rat} {geometry : Geometry Rat}
    (framed : (placeAll (setting document config)).geometry.get? outer.id =
      some (.fragment frame))
    (drawn : (placeAll (setting document config)).geometry.get? inner.id = some geometry) :
    geometry.Between frame.rect.y frame.rect.bottom := by
  have valid' : (setting document config).config.validate = .ok () := valid
  have mem := mem_nodes_of_tour toured
  have tree := forest.mem_trees_of_transGen Route.isDown_openFragments (fun p q enters =>
    let ⟨_, f, element, _⟩ := forest.enters_openFragments_iff.1 enters
    ⟨f, element⟩) below
  have inside := Setting.labels_of_mem_trees tree List.mem_cons_self
  have known {x : Node} :=
    forest.mem_nodes_of_tourUnder (x := x) Route.isDown_openFragments mem
  have nodup : ((outer :: (document.tourUnder .openFragments outer).labels).map Node.id).Nodup :=
    (forest.nodup_cons_tourUnder Route.isDown_openFragments mem).map_on fun p hp q hq =>
      forest.eq_of_id (known hp) (known hq)
  obtain ⟨before, -, early, -, moment⟩ := forest.exists_moment config toured
  obtain ⟨fresh, kept⟩ := moment inner (List.mem_cons_of_mem _ inside)
  obtain ⟨keeps, -, -⟩ := Setting.Reaches.keepsBelow valid'
    (Progress.keepsBelow_beginning document config) (Or.inl (le_refl _)) early
  obtain ⟨elseYs, frame'⟩ := (setting document config).get?_placeTree_fragment element
    (document.tourUnder .openFragments outer) before
  rw [(moment outer List.mem_cons_self).2, frame'] at framed
  obtain rfl := Geometry.fragment.inj (Option.some.inj framed)
  rw [kept] at drawn
  simp only [Rect.bottom, add_sub_cancel]
  refine (Setting.between_fragment valid' keeps.spacing element nodup forward tree
    drawn).resolve_right fun early => ?_
  rw [fresh, get?_beginning, forest.titleDrawing?_eq_none config
    (known (List.mem_cons_of_mem _ inside)) untitled] at early
  cases early

end

/-- Rows and fragments are entries, and neither the frame nor the title is drawn for them. -/
theorem isEntry_of_placed {element : Element}
    (placed : element.takesRow = true ∨ Setting.isFragment element = true) :
    element.isEntry = true ∧ element.asksFrame = false ∧
      ∀ text, element ≠ .directive (.title text) := by
  cases element with
  | message | note | divider | blankLine | error | fragment => exact ⟨rfl, rfl, nofun⟩
  | _ => exact absurd placed (by simp [Element.takesRow, Setting.isFragment])

section
variable (forest : document.IsForest) (config : Config Rat)
include forest

/-- Rows and frames stand on the canvas as they were placed, all moved to the right alike. -/
theorem IsForest.exists_placed : ∃ dx, ∀ node ∈ document.nodes,
    node.element.takesRow = true ∨ Setting.isFragment node.element = true →
    ∀ geometry, (document.layout config).get? node.id = some geometry →
      node ∈ (document.tour .openFragments).labels ∧
        ∃ before, (placeAll (setting document config)).geometry.get? node.id = some before ∧
          geometry = before.shiftX dx := by
  obtain ⟨move, moves, moved, -⟩ := forest.get?_unframed config
  obtain ⟨dx, rfl⟩ : ∃ dx, move = Geometry.shiftX dx := by
    obtain rfl | shift := moves
    · exact ⟨0, funext fun geometry => geometry.shiftX_zero.symm⟩
    · exact shift
  refine ⟨dx, fun node mem placed geometry drawn => ?_⟩
  obtain ⟨entry, frameless, untitled⟩ := isEntry_of_placed placed
  rw [forest.get?_layout_of_frameless config mem frameless, moved node mem,
    Setting.groupDrawing?_eq_none entry, Setting.participantDrawing?_eq_none entry,
    Option.none_or, Option.none_or] at drawn
  obtain ⟨before, found, rfl⟩ := Option.map_eq_some_iff.1 drawn
  refine ⟨?_, before, found, rfl⟩
  by_contra hidden
  rw [forest.get?_placeAll_of_not_mem config mem hidden,
    forest.titleDrawing?_eq_none config mem untitled] at found
  cases found

end

def StaysForward (document : Document) (node : Node) : Prop :=
  ∀ inner, Relation.TransGen document.Holds node inner → ¬document.IsHidden inner →
    inner.element.stepsBack = false

theorem IsForest.stepsBack_tourUnder (forest : document.IsForest) {outer : Node}
    (toured : outer ∈ (document.tour .openFragments).labels)
    (forward : document.StaysForward outer) :
    ∀ node ∈ (document.tourUnder .openFragments outer).labels,
      node.element.stepsBack = false := by
  intro node inside
  rw [forest.mem_tourUnder_iff Route.isDown_openFragments (mem_nodes_of_tour toured)] at inside
  have holds : document.Enters .openFragments ≤ document.Holds :=
    fun _ _ enters => (forest.enters_openFragments_iff.1 enters).1
  obtain ⟨root, top, steps⟩ := (forest.mem_tour_iff Route.isDown_openFragments).1 toured
  have toured' := (forest.mem_tour_iff Route.isDown_openFragments).2
    ⟨root, top, steps.trans inside.to_reflTransGen⟩
  refine Bool.eq_false_iff.2 fun back => ?_
  have entry : node.element.isEntry = true := by
    unfold Element.stepsBack at back
    split at back
    · rename_i element
      rw [element]
      rfl
    · cases back
  have shown := (forest.mem_tour_iff_not_hidden (mem_nodes_of_tour toured') entry).1 toured'
  exact Bool.false_ne_true
    ((forward node (Relation.TransGen.mono holds _ _ inside) shown).symm.trans back)

/-- The frame of a node on the canvas encloses a node in it. Messages are enclosed sideways with
their loops. A frame is enclosed sideways if its label is, unless it has no messages to keep to.
Rows and frames are enclosed in height unless something in the outer node steps back. -/
structure Encloses (document : Document) (config : Config Rat) (outer : Node) (rect : Rect Rat)
    (inner : Node) : Prop where
  messages : ∀ m arrow, inner.element = .message m →
    (document.layout config).get? inner.id = some (.message arrow) →
    arrow.span.Within (arrow.extent config m) ∧
      (arrow.extent config m).Within (Setting.boxSpan rect)
  frames : ∀ f frame, inner.element = .fragment f →
    (document.layout config).get? inner.id = some (.fragment frame) →
    document.HoldsMessage inner ∨ ¬document.HoldsMessage outer →
      ((Setting.boxSpan frame.rect).Within (Setting.boxSpan rect) ↔
        frame.rect.x + Setting.headerWidth config f ≤ rect.right)
  heights : document.StaysForward outer →
    inner.element.takesRow = true ∨ Setting.isFragment inner.element = true →
    ∀ geometry ∈ (document.layout config).get? inner.id, geometry.Between rect.y rect.bottom

theorem IsForest.encloses (forest : document.IsForest)
    (listed : ∀ key ∈ document.groupedAliases, key ∈ document.roster) {config : Config Rat}
    (valid : config.validate = .ok ()) {outer : Node} (mem : outer ∈ document.nodes)
    {frame : FragmentGeometry Rat}
    (framed : (document.layout config).get? outer.id = some (.fragment frame)) {inner : Node}
    (below : Relation.TransGen document.Holds outer inner) :
    document.Encloses config outer frame.rect inner := by
  obtain ⟨last, -, owns⟩ := Relation.TransGen.tail'_iff.1 below
  have mem' := owns.2.1
  obtain ⟨g, around⟩ : ∃ g, outer.element = .fragment g := by
    have depicts := (forest.renders config mem listed).2 _ framed
    cases element : outer.element with
    | fragment g => exact ⟨g, rfl⟩
    | _ =>
      rw [element] at depicts
      obtain ⟨_, same⟩ := depicts
      cases same
  obtain ⟨dx, placed⟩ := forest.exists_placed config
  obtain ⟨toured, _, framed, same⟩ := placed outer mem (Or.inr (by rw [around]; rfl)) _ framed
  obtain ⟨frame', rfl, moved⟩ := Geometry.exists_of_shiftX_eq_fragment same
  rw [moved]
  refine ⟨fun m arrow element drawn => ?_, fun f nested element drawn messages => ?_,
    fun forward row geometry drawn => ?_⟩
  · obtain ⟨toured', _, found, same⟩ := placed inner mem' (Or.inl (by rw [element]; rfl)) _ drawn
    obtain ⟨arrow', rfl, rfl⟩ := Geometry.exists_of_shiftX_eq_message same
    rw [MessageGeometry.span_shiftX, MessageGeometry.extent_shiftX, Setting.boxSpan_shiftX,
      Span.within_shift_iff, Span.within_shift_iff]
    obtain ⟨extent, span⟩ := forest.arrow_within valid mem element below toured' found
    exact ⟨span, extent.trans (forest.fragmentSpan_within_frame config toured around framed)⟩
  · obtain ⟨toured', _, found, same⟩ := placed inner mem' (Or.inr (by rw [element]; rfl)) _ drawn
    obtain ⟨nested', rfl, moved'⟩ := Geometry.exists_of_shiftX_eq_fragment same
    rw [moved', Setting.boxSpan_shiftX, Setting.boxSpan_shiftX, Span.within_shift_iff,
      forest.frame_within_iff valid around element toured toured' below messages framed found]
    simp only [Rect.shiftX, Rect.right]
    constructor <;> intro label <;> linarith
  · obtain ⟨toured', before, found, rfl⟩ := placed inner mem' row _ drawn
    obtain ⟨entry, -, untitled⟩ := isEntry_of_placed row
    have shown := (forest.mem_tour_iff_not_hidden mem' entry).1 toured'
    rw [Geometry.between_shiftX]
    exact forest.between_frame valid around toured (forest.transGen_enters below entry shown)
      (forest.stepsBack_tourUnder toured forward) untitled framed found

/-- Every frame on the canvas stands around what is in its fragment. Only labels that are too wide,
frames with no messages to keep to, and what follows a step back may reach out of it. -/
theorem frames_enclose (first : UInt32) (text : String) {config : Config Rat}
    (valid : config.validate = .ok ()) (fits : (readFrom first text).nodes.length ≤ 2 ^ 32) :
    let document := readFrom first text
    ∀ outer ∈ document.nodes, ∀ frame,
      (document.layout config).get? outer.id = some (.fragment frame) →
        ∀ inner, Relation.TransGen document.Holds outer inner →
          document.Encloses config outer frame.rect inner :=
  fun _ mem _ framed _ below => (isForest_readFrom first text fits).encloses
    (fun _ => mem_roster_of_listed first text) valid mem framed below

/-- The label of the inner frame is wider than the outer frame. -/
theorem frames_enclose_of_wide_label :
    let text := "loop\nA->B\nopt a label wider than the frame around it\nA->B\nend\nend"
    let document := readFrom 0 text
    let config : Config Rat := Config.default
    let outer : Rect Rat := ⟨20, 80, 248, 156⟩
    let inner : Rect Rat := ⟨32, 150, 314, 78⟩
    config.validate = .ok () ∧ document.nodes.length ≤ 2 ^ 32 ∧
      ∃ loop ∈ document.nodes, ∃ opt ∈ document.nodes,
        (document.layout config).get? loop.id = some (.fragment ⟨outer, []⟩) ∧
        (document.layout config).get? opt.id = some (.fragment ⟨inner, []⟩) ∧
        document.Encloses config loop outer opt ∧
        ¬(Setting.boxSpan inner).Within (Setting.boxSpan outer) := by
  intro text document config outer inner
  have valid : config.validate = .ok () := by rfl
  obtain ⟨fits, loop, mem, opt, mem', inside, framed, framed'⟩ :
      document.nodes.length ≤ 2 ^ 32 ∧
      ∃ loop ∈ document.nodes, ∃ opt ∈ document.nodes, opt.id ∈ loop.element.children ∧
        (document.layout config).get? loop.id = some (.fragment ⟨outer, []⟩) ∧
        (document.layout config).get? opt.id = some (.fragment ⟨inner, []⟩) := by
    decide +kernel
  have wide : ¬(Setting.boxSpan inner).Within (Setting.boxSpan outer) := by
    simp only [Span.Within, Setting.boxSpan, Rect.right, inner, outer]
    norm_num
  exact ⟨valid, fits, loop, mem, opt, mem', framed, framed',
    frames_enclose 0 text valid fits loop mem _ framed opt (.single ⟨mem, mem', inside⟩), wide⟩

end Document

end SequenceDiagram
