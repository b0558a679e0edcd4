import SequenceDiagram.Proofs.Deepest
import SequenceDiagram.Proofs.Extents
import SequenceDiagram.Proofs.Shown

set_option autoImplicit false

/-!
# What stays on the canvas

The width of the canvas is taken from everything that is drawn, so nothing leaves it at a side.
Its height is taken from the deepest point and the footers only. That is enough for everything
but two kinds of boxes: a group reaches out by a padding for every level of groups in it, and the
box of a participant that a message creates reaches out by half of its height.
-/
namespace SequenceDiagram

namespace Layout

def Geometry.IsOn (canvas : Canvas Rat) (geometry : Geometry Rat) : Prop :=
  (0 ≤ geometry.leftX ∧ geometry.rightX ≤ canvas.width) ∧ geometry.Between 0 canvas.height

structure Canvas.ShowsAll (canvas : Canvas Rat) : Prop where
  drawings : ∀ id, ∀ geometry ∈ canvas.get? id, geometry.IsOn canvas
  boxes : ∀ box ∈ canvas.boxes, (Geometry.box box.2).IsOn canvas
  footers : ∀ box ∈ canvas.footers, (Geometry.box box.2).IsOn canvas
  bars : ∀ bar ∈ canvas.bars, bar.endY ≤ canvas.height
  lifelines : ∀ lifeline ∈ canvas.lifelines, lifeline.endY ≤ canvas.height

theorem Geometry.between_box {bottom : Rat} {rect : Rect Rat} (top : 0 ≤ rect.y)
    (height : 0 ≤ rect.height) (deep : rect.bottom ≤ bottom) :
    (Geometry.box rect).Between 0 bottom :=
  have down : rect.y ≤ rect.bottom := le_add_of_nonneg_right height
  ⟨⟨top, down.trans deep⟩, top.trans down, deep⟩

theorem Columns.even_boxesFrom (config : Config Rat) (top center : Rat) (spread : List Rat)
    (row : List (String × Rat)) : ∀ box ∈ boxesFrom config top center spread row,
      box.2.y = top ∧ box.2.height = config.participantHeight := by
  induction row generalizing center spread with
  | nil => exact fun _ mem => absurd mem List.not_mem_nil
  | cons entry row ih =>
    cases spread with
    | nil => exact List.forall_mem_cons.2 ⟨⟨rfl, rfl⟩, ih _ _⟩
    | cons distance spread => exact List.forall_mem_cons.2 ⟨⟨rfl, rfl⟩, ih _ _⟩

theorem Columns.even_ofDocument (document : Document) (config : Config Rat) (top : Rat) :
    ∀ box ∈ (ofDocument document config top).boxes,
      box.2.y = top ∧ box.2.height = config.participantHeight := by
  unfold ofDocument
  dsimp only
  split
  · exact fun _ mem => absurd mem List.not_mem_nil
  · exact even_boxesFrom _ _ _ _ _

end Layout

namespace Document
open Layout

section
variable (document : Document) {config : Config Rat} (valid : config.validate = .ok ())
include valid

theorem margin_le_rowTop : config.margin ≤ rowTop document config := by
  have title : 0 ≤ config.titleHeight :=
    Config.nonneg_of_validate valid (by simp [Config.fields])
  refine le_add_of_nonneg_right ?_
  split
  · exact title
  · exact le_refl _

theorem rowTop_nonneg : 0 ≤ rowTop document config := by
  have margin : 0 ≤ config.margin := Config.margin_nonneg valid
  exact margin.trans (document.margin_le_rowTop valid)

theorem rowTop_add_le_bodyTop :
    rowTop document config + config.participantHeight ≤ (setting document config).bodyTop :=
  le_add_of_nonneg_right (Config.nonneg_of_validate valid (by simp [Config.fields]))

theorem bodyTop_nonneg : 0 ≤ (setting document config).bodyTop := by
  have height : 0 ≤ config.participantHeight := Config.participantHeight_nonneg valid
  exact (add_nonneg (document.rowTop_nonneg valid) height).trans
    (document.rowTop_add_le_bodyTop valid)

theorem keepsBelow_placeAll : (placeAll (setting document config)).KeepsBelow
    (setting document config).bodyTop := by
  have valid' : (setting document config).config.validate = .ok () := valid
  exact (Setting.Reaches.keepsBelow valid' (Progress.keepsBelow_beginning document config)
    (Or.inl (le_refl _)) (document.reaches_placeAll config)).1

theorem isNoted_placeAll : (setting document config).IsNoted (setting document config).bodyTop
    (placeAll (setting document config)) := by
  have valid' : (setting document config).config.validate = .ok () := valid
  have even : ∀ box ∈ (setting document config).columns.boxes,
      box.2.height = (setting document config).config.participantHeight :=
    fun box mem => (Columns.even_ofDocument document config _ box mem).2
  exact (isNoted_beginning document config _).run valid' even
    (Progress.keepsBelow_beginning document config) (le_refl _) (document.reaches_placeAll config)

theorem bodyTop_le_reach :
    (setting document config).bodyTop ≤ (placeAll (setting document config)).reach :=
  (document.keepsBelow_placeAll valid).cursor.trans (Progress.cursor_le_reach _)

theorem between_titleDrawing? {id : NodeId} {geometry : Geometry Rat}
    (drawn : document.titleDrawing? config id = some geometry) :
    geometry.Between 0 (placeAll (setting document config)).reach := by
  have margin : 0 ≤ config.margin := Config.margin_nonneg valid
  have height : 0 ≤ config.titleHeight :=
    Config.nonneg_of_validate valid (by simp [Config.fields])
  have box : 0 ≤ config.participantHeight := Config.participantHeight_nonneg valid
  have first := (document.rowTop_add_le_bodyTop valid).trans (document.bodyTop_le_reach valid)
  unfold titleDrawing? at drawn
  split at drawn
  · rename_i titled
    split at drawn
    · obtain rfl := Option.some.inj drawn
      have row : rowTop document config = config.margin + config.titleHeight := by
        rw [rowTop, titled]
        rfl
      rw [row] at first
      change (0 ≤ config.margin ∧ config.margin ≤ _) ∧ 0 ≤ config.margin + config.titleHeight ∧
        config.margin + config.titleHeight ≤ _
      exact ⟨⟨margin, by linarith⟩, by linarith, by linarith⟩
    · cases drawn
  · cases drawn

/-- What is drawn while nodes are placed stands above the deepest point. -/
theorem IsForest.between_placeAll {document : Document} (forest : document.IsForest) {node : Node}
    (mem : node ∈ document.nodes) {geometry : Geometry Rat}
    (drawn : (placeAll (setting document config)).geometry.get? node.id = some geometry) :
    geometry.Between 0 (placeAll (setting document config)).reach := by
  by_cases toured : node ∈ (document.tour .openFragments).labels
  · obtain ⟨before, -, early, late, moment⟩ := forest.exists_moment config toured
    obtain ⟨fresh, kept⟩ := moment node List.mem_cons_self
    have valid' : (setting document config).config.validate = .ok () := valid
    obtain ⟨keeps, -, -⟩ := Setting.Reaches.keepsBelow valid'
      (Progress.keepsBelow_beginning document config) (Or.inl (le_refl _)) early
    obtain ⟨after, higher, -⟩ := Setting.Reaches.keepsBelow valid' keeps (Or.inl (le_refl _))
      ((setting document config).reaches_placeTree node
        (document.tourUnder .openFragments node) before)
    obtain ⟨-, deeper, -⟩ := Setting.Reaches.keepsBelow valid' after (Or.inl (le_refl _)) late
    rw [kept] at drawn
    rcases Setting.between_placeTree valid' keeps after drawn with between | title
    · refine between.mono (document.bodyTop_nonneg valid) (max_le ?_ ?_)
      · exact (before.cursor_le_reach.trans higher).trans deeper
      · exact (Progress.cursor_le_reach _).trans deeper
    · rw [fresh, get?_beginning] at title
      exact document.between_titleDrawing? valid title
  · rw [forest.get?_placeAll_of_not_mem config mem toured] at drawn
    exact document.between_titleDrawing? valid drawn

omit valid in
theorem lifelineBottom_eq (config : Config Rat) :
    (setting document config).lifelineBottom (placeAll (setting document config)) =
      (placeAll (setting document config)).reach + config.lifelineTopGap := by
  rw [Setting.lifelineBottom, Scalar.max_eq_max]
  rfl

theorem reach_le_lifelineBottom : (placeAll (setting document config)).reach ≤
    (setting document config).lifelineBottom (placeAll (setting document config)) := by
  rw [lifelineBottom_eq]
  exact le_add_of_nonneg_right (Config.nonneg_of_validate valid (by simp [Config.fields]))

theorem lifelineBottom_le_contentBottom :
    (setting document config).lifelineBottom (placeAll (setting document config)) ≤
      (setting document config).contentBottom (placeAll (setting document config)) := by
  have height : 0 ≤ config.participantHeight := Config.participantHeight_nonneg valid
  unfold Setting.contentBottom
  dsimp only
  split
  · exact le_refl _
  · exact le_add_of_nonneg_right height

theorem rowTop_le_contentBottom : rowTop document config ≤
    (setting document config).contentBottom (placeAll (setting document config)) := by
  have height : 0 ≤ config.participantHeight := Config.participantHeight_nonneg valid
  calc rowTop document config
    _ ≤ rowTop document config + config.participantHeight := le_add_of_nonneg_right height
    _ ≤ (setting document config).bodyTop := document.rowTop_add_le_bodyTop valid
    _ ≤ (placeAll (setting document config)).reach := document.bodyTop_le_reach valid
    _ ≤ (setting document config).lifelineBottom (placeAll (setting document config)) :=
      document.reach_le_lifelineBottom valid
    _ ≤ _ := document.lifelineBottom_le_contentBottom valid

/-- Only the box of a participant that is created may reach below the deepest point, by half of
its height. -/
theorem finalBoxes_bounds :
    ∀ box ∈ (setting document config).finalBoxes (placeAll (setting document config)),
      box.2.height = config.participantHeight ∧ 0 ≤ box.2.y ∧ box.2.bottom ≤
        (placeAll (setting document config)).reach + config.participantHeight / 2 := by
  have height : 0 ≤ config.participantHeight := Config.participantHeight_nonneg valid
  have row := document.rowTop_add_le_bodyTop valid
  have top := document.rowTop_nonneg valid
  have reach := document.bodyTop_le_reach valid
  refine List.forall_mem_map.2 fun column mem => ?_
  cases created : (placeAll (setting document config)).created.lookup column.1 with
  | none =>
    obtain ⟨y, even⟩ := Columns.even_ofDocument document config _ column mem
    simp only [Option.getD_none, Rect.bottom, y, even]
    exact ⟨trivial, top, by linarith⟩
  | some box =>
    obtain ⟨even, above, below⟩ :=
      (document.isNoted_placeAll valid).created (column.1, box) (mem_of_lookup created)
    simp only [Option.getD_some, Rect.bottom]
    change box.height = config.participantHeight at even
    rw [even] at above below ⊢
    exact ⟨rfl, by linarith, by linarith⟩

theorem between_finalBox {bottom : Rat}
    (deep : ∀ box ∈ (setting document config).finalBoxes (placeAll (setting document config)),
      box.2.bottom ≤ bottom) {box : String × Rect Rat}
    (mem : box ∈ (setting document config).finalBoxes (placeAll (setting document config))) :
    (Geometry.box box.2).Between 0 bottom := by
  have height : 0 ≤ config.participantHeight := Config.participantHeight_nonneg valid
  obtain ⟨even, top, -⟩ := document.finalBoxes_bounds valid box mem
  exact Geometry.between_box top (even ▸ height) (deep box mem)

theorem endY_lifelineOf (box : String × Rect Rat) :
    ((setting document config).lifelineOf (placeAll (setting document config)) box).endY ≤
      max ((setting document config).lifelineBottom (placeAll (setting document config)))
        box.2.bottom := by
  have ending : ((setting document config).endingOf (placeAll (setting document config))
      box.1).y ≤
        (setting document config).lifelineBottom (placeAll (setting document config)) := by
    unfold Setting.endingOf
    cases ended : (placeAll (setting document config)).endings.lookup box.1 with
    | none => exact le_refl _
    | some ending =>
      exact ((document.isNoted_placeAll valid).endings (box.1, ending)
        (mem_of_lookup ended)).trans (document.reach_le_lifelineBottom valid)
  exact (Scalar.max_eq_max _ _).trans_le (max_le_max ending (le_refl _))

theorem endY_activationBars : ∀ bar ∈ (setting document config).activationBars
      (placeAll (setting document config)), bar.endY ≤
    (setting document config).lifelineBottom (placeAll (setting document config)) := by
  intro bar mem
  obtain ⟨interval, closed, drawn⟩ := List.mem_filterMap.1 mem
  obtain ⟨box, -, rfl⟩ := Option.map_eq_some_iff.1 drawn
  exact (document.isNoted_placeAll valid).activations.finish
    (document.reach_le_lifelineBottom valid) interval closed

theorem footerBoxes_bounds :
    ∀ footer ∈ (setting document config).footerBoxes (placeAll (setting document config)),
      ∃ box ∈ (setting document config).finalBoxes (placeAll (setting document config)),
        footer.2.x = box.2.x ∧ footer.2.width = box.2.width ∧ 0 ≤ footer.2.y ∧
          0 ≤ footer.2.height ∧ footer.2.bottom =
            (setting document config).contentBottom (placeAll (setting document config)) := by
  have nonneg : 0 ≤ config.participantHeight := Config.participantHeight_nonneg valid
  intro footer mem
  have content : (setting document config).contentBottom (placeAll (setting document config)) =
      (setting document config).lifelineBottom (placeAll (setting document config)) +
        config.participantHeight := by
    have some : ¬((setting document config).footerBoxes
        (placeAll (setting document config))).isEmpty = true := by
      simpa using List.ne_nil_of_mem mem
    rw [Setting.contentBottom, if_neg some]
    rfl
  unfold Setting.footerBoxes at mem
  split at mem
  · obtain ⟨box, kept, rfl⟩ := List.mem_map.1 mem
    have final := (List.mem_filter.1 kept).1
    obtain ⟨height, -, -⟩ := document.finalBoxes_bounds valid box final
    refine ⟨box, final, rfl, rfl, ?_, height ▸ nonneg, ?_⟩
    · exact ((document.bodyTop_nonneg valid).trans (document.bodyTop_le_reach valid)).trans
        (document.reach_le_lifelineBottom valid)
    · rw [content, ← height]
      rfl
  · exact absurd mem List.not_mem_nil

/-- How far the box of a group reaches over its members. -/
def groupPad (document : Document) (config : Config Rat) (node : Node) : Rat :=
  config.fragmentPadding *
    Scalar.ofNat ((document.tourUnder .nestedGroups node).nesting Element.isGroup + 1)

omit valid in
theorem groupDrawing?_bounds {node : Node} {geometry : Geometry Rat}
    (drawn : (setting document config).groupDrawing? (rowTop document config)
      (placeAll (setting document config)) node = some geometry) :
    (∃ g, node.element = .group g) ∧ ∃ rect, geometry = .box rect ∧
      rect.y = rowTop document config - document.groupPad config node ∧
      rect.bottom = (setting document config).contentBottom (placeAll (setting document config)) +
        document.groupPad config node := by
  unfold Setting.groupDrawing? at drawn
  split at drawn
  · rename_i group
    obtain ⟨rect, boxed, rfl⟩ := Option.map_eq_some_iff.1 drawn
    obtain ⟨extent, -, rfl⟩ := Option.map_eq_some_iff.1 boxed
    exact ⟨Element.exists_of_isGroup group, _, rfl, rfl, add_sub_cancel _ _⟩
  · cases drawn

theorem exists_unframed : ∃ dx,
    document.unframed config = (((setting document config).unshifted (rowTop document config)
      (placeAll (setting document config))).shiftX dx).widen config ∧
    config.margin + config.margin ≤ (document.unframed config).width ∧
    (∀ entry ∈ (document.unframed config).geometry, config.margin ≤ entry.2.leftX ∧
      entry.2.rightX + config.margin ≤ (document.unframed config).width) ∧
    ∀ box ∈ (document.unframed config).boxes, config.margin ≤ box.2.x ∧
      box.2.right + config.margin ≤ (document.unframed config).width := by
  have wide : 0 ≤ config.selfMessageWidth :=
    Config.nonneg_of_validate valid (by simp [Config.fields])
  obtain ⟨dx, moved, drawn, boxes⟩ := ((setting document config).unshifted
    (rowTop document config) (placeAll (setting document config))).exists_moveIn config.margin
  have same : document.unframed config = _ := congrArg (Canvas.widen · config) moved
  obtain ⟨least, drawn', boxes'⟩ := Canvas.right_widen (Canvas.shiftX _ dx) config wide
  refine ⟨dx, same, same ▸ least, ?_, ?_⟩
  · rw [same]
    intro entry mem
    refine ⟨?_, drawn' entry mem⟩
    obtain ⟨before, inside, rfl⟩ := List.mem_map.1 mem
    rw [Geometry.leftX_shiftX]
    exact drawn before inside
  · rw [same]
    intro box mem
    refine ⟨?_, boxes' box mem⟩
    obtain ⟨before, inside, rfl⟩ := List.mem_map.1 mem
    exact boxes before inside

theorem height_unframed : (document.unframed config).height =
    (setting document config).contentBottom (placeAll (setting document config)) +
      config.margin := by
  obtain ⟨dx, same, -⟩ := document.exists_unframed valid
  rw [same]
  rfl

theorem lifelineBottom_le_height :
    (setting document config).lifelineBottom (placeAll (setting document config)) ≤
      (document.unframed config).height := by
  rw [document.height_unframed valid]
  exact (document.lifelineBottom_le_contentBottom valid).trans
    (le_add_of_nonneg_right (Config.margin_nonneg valid))

end

section
variable {document : Document} (forest : document.IsForest)
  (listed : ∀ key ∈ document.groupedAliases, key ∈ document.roster) {config : Config Rat}
  (valid : config.validate = .ok ())
include forest listed valid

/-- A group whose padding fits into the margin stands on the height of the canvas, a participant
does if all boxes do, and everything else does. -/
theorem IsForest.between_unframed {node : Node} (mem : node ∈ document.nodes)
    (padded : node.element.isGroup = true → document.ListsMember node →
      document.groupPad config node ≤ config.margin)
    (boxed : node.element.isParticipant = true →
      ∀ box ∈ (setting document config).finalBoxes (placeAll (setting document config)),
        box.2.bottom ≤ (document.unframed config).height)
    {geometry : Geometry Rat}
    (drawn : (document.unframed config).get? node.id = some geometry) :
    geometry.Between 0 (document.unframed config).height := by
  have deep := document.lifelineBottom_le_height valid
  have reach := document.reach_le_lifelineBottom valid
  obtain ⟨move, moves, moved, -⟩ := forest.get?_unframed config
  rw [moved node mem] at drawn
  obtain ⟨before, found, rfl⟩ := Option.map_eq_some_iff.1 drawn
  have still : (move before).Between 0 (document.unframed config).height ↔
      before.Between 0 (document.unframed config).height := by
    obtain rfl | ⟨dx, rfl⟩ := moves
    · exact Iff.rfl
    · exact Geometry.between_shiftX dx
  rw [still]
  -- the box of a group is drawn last, before it that of a participant, before that all else
  rcases Option.or_eq_some_iff.1 found with group | ⟨-, found⟩
  · obtain ⟨⟨g, element⟩, rect, rfl, y, bottom⟩ := document.groupDrawing?_bounds group
    have lists := (forest.isSome_groupDrawing?_iff config listed _ _ mem element).1
      (Option.isSome_iff_exists.2 ⟨_, group⟩)
    have fits := padded (by rw [element]; rfl) lists
    have pad : 0 ≤ document.groupPad config node :=
      mul_nonneg (Config.nonneg_of_validate valid (by simp [Config.fields]))
        (Scalar.ofNat_nonneg _)
    have margin := document.margin_le_rowTop valid
    have row := document.rowTop_le_contentBottom valid
    have height := document.height_unframed valid
    change (0 ≤ rect.y ∧ rect.y ≤ _) ∧ 0 ≤ rect.bottom ∧ rect.bottom ≤ _
    rw [y, bottom, height]
    exact ⟨⟨by linarith, by linarith⟩, by linarith, by linarith⟩
  rcases Option.or_eq_some_iff.1 found with participant | ⟨-, found⟩
  · unfold Setting.participantDrawing? at participant
    split at participant
    · rename_i p element
      obtain ⟨rect, known, rfl⟩ := Option.map_eq_some_iff.1 participant
      exact document.between_finalBox valid (boxed (by rw [element]; rfl)) (mem_of_lookup known)
    · cases participant
  · exact (forest.between_placeAll valid mem found).mono (le_refl _) (reach.trans deep)

omit forest listed in
theorem boxes_fit_iff :
    (∀ box ∈ (document.layout config).boxes, box.2.bottom ≤ (document.layout config).height) ↔
      ∀ box ∈ (setting document config).finalBoxes (placeAll (setting document config)),
        box.2.bottom ≤ (document.unframed config).height := by
  obtain ⟨geometry, frame, framed⟩ := document.exists_layout config
  obtain ⟨dx, same, -⟩ := document.exists_unframed valid
  rw [framed]
  change (∀ box ∈ (document.unframed config).boxes, _ ≤ (document.unframed config).height) ↔ _
  have boxes : (document.unframed config).boxes = ((setting document config).finalBoxes
      (placeAll (setting document config))).map fun box => (box.1, box.2.shiftX dx) := by
    rw [same]
    rfl
  rw [boxes, List.forall_mem_map]
  rfl

theorem IsForest.isOn_of_get? {node : Node} (mem : node ∈ document.nodes)
    (padded : node.element.isGroup = true → document.ListsMember node →
      document.groupPad config node ≤ config.margin)
    (boxed : node.element.isParticipant = true →
      ∀ box ∈ (setting document config).finalBoxes (placeAll (setting document config)),
        box.2.bottom ≤ (document.unframed config).height)
    {geometry : Geometry Rat} (drawn : (document.layout config).get? node.id = some geometry) :
    geometry.IsOn (document.layout config) := by
  have margin : 0 ≤ config.margin := Config.margin_nonneg valid
  obtain ⟨dx, same, least, entries, -⟩ := document.exists_unframed valid
  obtain ⟨_, _, framed⟩ := document.exists_layout config
  rw [get?_layout] at drawn
  rw [framed]
  split at drawn
  · obtain rfl := Option.some.inj drawn
    have content := (document.rowTop_nonneg valid).trans (document.rowTop_le_contentBottom valid)
    have height := document.height_unframed valid
    refine ⟨?_, Geometry.between_box ?_ ?_ ?_⟩ <;>
      simp only [Canvas.frameRect, Geometry.leftX, Geometry.rightX, Rect.right, Rect.bottom,
        Scalar.half_rat]
    · constructor <;> linarith
    · linarith
    · linarith
    · linarith
  · obtain ⟨left, right⟩ := entries (node.id, geometry) (mem_of_lookup drawn)
    exact ⟨⟨margin.trans left, (le_add_of_nonneg_right margin).trans right⟩,
      forest.between_unframed listed valid mem padded boxed drawn⟩

omit forest listed in
theorem isOn_of_mem_footers {footer : String × Rect Rat}
    (mem : footer ∈ (document.layout config).footers) :
    (Geometry.box footer.2).IsOn (document.layout config) := by
  have margin : 0 ≤ config.margin := Config.margin_nonneg valid
  obtain ⟨dx, same, -, -, sides⟩ := document.exists_unframed valid
  obtain ⟨_, _, framed⟩ := document.exists_layout config
  rw [framed] at mem ⊢
  change footer ∈ (document.unframed config).footers at mem
  rw [same] at mem
  obtain ⟨before, inside, rfl⟩ := List.mem_map.1 mem
  obtain ⟨box, final, x, width, top, height, bottom⟩ :=
    document.footerBoxes_bounds valid before inside
  have moved : (box.1, box.2.shiftX dx) ∈ (document.unframed config).boxes := by
    rw [same]
    exact List.mem_map_of_mem final
  obtain ⟨left, right⟩ := sides _ moved
  simp only [Rect.right, Rect.shiftX, ← x, ← width] at left right
  refine ⟨⟨margin.trans left, ?_⟩, Geometry.between_box top height ?_⟩
  · simp only [Geometry.rightX, Rect.right, Rect.shiftX]
    linarith
  · change before.2.bottom ≤ (document.unframed config).height
    rw [bottom, document.height_unframed valid]
    exact le_add_of_nonneg_right margin

omit forest listed in
theorem endY_le_of_mem_bars {bar : ActivationBar Rat} (mem : bar ∈ (document.layout config).bars) :
    bar.endY ≤ (document.layout config).height := by
  obtain ⟨dx, same, -⟩ := document.exists_unframed valid
  obtain ⟨_, _, framed⟩ := document.exists_layout config
  rw [framed] at mem ⊢
  change bar ∈ (document.unframed config).bars at mem
  rw [same] at mem
  obtain ⟨before, inside, rfl⟩ := List.mem_map.1 mem
  exact (document.endY_activationBars valid before inside).trans
    (document.lifelineBottom_le_height valid)

/-- If the paddings of groups fit into the margin and the boxes stand on the canvas, all that is
drawn does. -/
theorem IsForest.showsAll
    (groups : ∀ node ∈ document.nodes, node.element.isGroup = true →
      document.ListsMember node → document.groupPad config node ≤ config.margin)
    (boxes : ∀ box ∈ (setting document config).finalBoxes (placeAll (setting document config)),
      box.2.bottom ≤ (document.unframed config).height) :
    (document.layout config).ShowsAll := by
  have margin : 0 ≤ config.margin := Config.margin_nonneg valid
  obtain ⟨dx, same, -, -, sides⟩ := document.exists_unframed valid
  obtain ⟨_, _, framed⟩ := document.exists_layout config
  refine ⟨fun id g drawn => ?_, fun box mem => ?_, fun footer => isOn_of_mem_footers valid,
    fun bar => endY_le_of_mem_bars valid, fun lifeline mem => ?_⟩
  · obtain ⟨node, mem, rfl⟩ :=
      forest.exists_of_isSome config (Option.isSome_iff_exists.2 ⟨g, drawn⟩)
    exact forest.isOn_of_get? listed valid mem (groups node mem) (fun _ => boxes) drawn
  · rw [framed] at mem ⊢
    obtain ⟨left, right⟩ := sides box mem
    refine ⟨⟨margin.trans left, (le_add_of_nonneg_right margin).trans right⟩, ?_⟩
    change box ∈ (document.unframed config).boxes at mem
    rw [same] at mem
    obtain ⟨before, final, rfl⟩ := List.mem_map.1 mem
    exact (Geometry.between_shiftX dx).2 (document.between_finalBox valid boxes final)
  · rw [framed] at mem ⊢
    change lifeline ∈ (document.unframed config).lifelines at mem
    rw [same] at mem
    obtain ⟨before, inside, rfl⟩ := List.mem_map.1 mem
    obtain ⟨box, final, rfl⟩ := List.mem_map.1 inside
    exact (document.endY_lifelineOf valid box).trans
      (max_le (document.lifelineBottom_le_height valid) (boxes box final))

/-- What is on the canvas tells whether the paddings of groups fit. -/
theorem IsForest.groupPad_le (shows : (document.layout config).ShowsAll) {node : Node}
    (mem : node ∈ document.nodes) (group : node.element.isGroup = true)
    (lists : document.ListsMember node) : document.groupPad config node ≤ config.margin := by
  obtain ⟨g, element⟩ := Element.exists_of_isGroup group
  obtain ⟨drawing, found⟩ := Option.isSome_iff_exists.1
    ((forest.isSome_groupDrawing?_iff config listed (rowTop document config)
      (placeAll (setting document config)) mem element).2 lists)
  obtain ⟨-, rect, rfl, -, bottom⟩ := document.groupDrawing?_bounds found
  obtain ⟨move, moves, moved, -⟩ := forest.get?_unframed config
  have drawn : (document.layout config).get? node.id = some (move (.box rect)) := by
    rw [forest.get?_layout_of_frameless config mem (by rw [element]; rfl), moved node mem, found]
    rfl
  have between := (shows.drawings node.id _ drawn).2
  obtain ⟨geometry, frame, framed⟩ := document.exists_layout config
  have deep : rect.bottom ≤ (document.layout config).height := by
    obtain rfl | ⟨dx, rfl⟩ := moves
    · exact between.2.2
    · exact between.2.2
  rw [framed, bottom] at deep
  change _ ≤ (document.unframed config).height at deep
  rw [document.height_unframed valid] at deep
  linarith

end

/-- Everything but groups and participants always stands on the canvas. All that is drawn does
exactly if the padding of every group that is drawn fits into the margin and no box of a created
participant reaches below the canvas; none does if half of its height fits into the margin and the
gap above lifelines. -/
theorem canvas_shows_all (first : UInt32) (text : String) {config : Config Rat}
    (valid : config.validate = .ok ()) (fits : (readFrom first text).nodes.length ≤ 2 ^ 32) :
    let document := readFrom first text
    let canvas := document.layout config
    ((∀ node ∈ document.nodes, node.element.isGroup = false →
        node.element.isParticipant = false →
          ∀ geometry ∈ canvas.get? node.id, geometry.IsOn canvas) ∧
      (∀ footer ∈ canvas.footers, (Geometry.box footer.2).IsOn canvas) ∧
      ∀ bar ∈ canvas.bars, bar.endY ≤ canvas.height) ∧
    (canvas.ShowsAll ↔
      (∀ node ∈ document.nodes, node.element.isGroup = true →
        document.ListsMember node → document.groupPad config node ≤ config.margin) ∧
      ∀ box ∈ canvas.boxes, box.2.bottom ≤ canvas.height) ∧
    (config.participantHeight ≤ 2 * (config.lifelineTopGap + config.margin) →
      ∀ box ∈ canvas.boxes, box.2.bottom ≤ canvas.height) := by
  intro document canvas
  have forest := isForest_readFrom first text fits
  have listed : ∀ key ∈ document.groupedAliases, key ∈ document.roster :=
    fun key => mem_roster_of_listed first text
  refine ⟨⟨fun node mem group participant geometry drawn => ?_,
    fun footer => isOn_of_mem_footers valid, fun bar => endY_le_of_mem_bars valid⟩,
    ⟨fun shows => ⟨fun node mem => forest.groupPad_le listed valid shows mem,
      fun box mem => (shows.boxes box mem).2.2.2⟩, fun ⟨groups, boxes⟩ => ?_⟩, fun low => ?_⟩
  · exact forest.isOn_of_get? listed valid mem (fun is => absurd is (by simp [group]))
      (fun is => absurd is (by simp [participant])) drawn
  · exact forest.showsAll listed valid groups ((boxes_fit_iff valid).1 boxes)
  · refine (boxes_fit_iff valid).2 fun box mem => ?_
    have bounds := (document.finalBoxes_bounds valid box mem).2.2
    have bottom := document.lifelineBottom_eq config
    have content := document.lifelineBottom_le_contentBottom valid
    rw [document.height_unframed valid]
    linarith

/-- Three groups in one another reach over the top of the canvas. -/
theorem canvas_shows_all_of_nested_groups :
    let text := "participantgroup\nparticipantgroup\nparticipantgroup\nparticipant A\nend\nend\nend"
    let document := readFrom 0 text
    let config : Config Rat := Config.default
    let canvas := document.layout config
    config.validate = .ok () ∧ document.nodes.length ≤ 2 ^ 32 ∧
      (∀ box ∈ canvas.boxes, box.2.bottom ≤ canvas.height) ∧
      canvas.get? ⟨0⟩ = some (.box ⟨20, -4, 128, 128⟩) ∧ ¬canvas.ShowsAll := by
  intro text document config canvas
  have valid : config.validate = .ok () := by rfl
  have low : config.participantHeight ≤ 2 * (config.lifelineTopGap + config.margin) := by
    decide +kernel
  obtain ⟨fits, drawn⟩ : document.nodes.length ≤ 2 ^ 32 ∧
      canvas.get? ⟨0⟩ = some (.box ⟨20, -4, 128, 128⟩) := by
    decide +kernel
  refine ⟨valid, fits, (canvas_shows_all 0 text valid fits).2.2 low, drawn, fun shows => ?_⟩
  obtain ⟨-, ⟨top, -⟩, -⟩ := shows.drawings ⟨0⟩ _ drawn
  exact absurd top (by decide +kernel)

end Document

end SequenceDiagram
