import SequenceDiagram.Proofs.Clearance
import SequenceDiagram.Proofs.Slots
import SequenceDiagram.Proofs.Placing

set_option autoImplicit false

namespace SequenceDiagram.Layout

namespace Progress

def reach (progress : Progress Rat) : Rat :=
  max progress.cursor progress.deepest

structure KeepsBelow (low : Rat) (progress : Progress Rat) : Prop where
  spacing : 0 < progress.entrySpacing
  cursor : low ≤ progress.cursor
  level : ∀ level ∈ progress.packer.level, low ≤ level.top

structure Advances (low : Rat) (before after : Progress Rat) : Prop where
  keeps : after.KeepsBelow low
  cursor : before.cursor ≤ after.cursor
  deepest : after.deepest = before.deepest

variable {low : Rat} {progress after : Progress Rat}

theorem KeepsBelow.refl (h : progress.KeepsBelow low) : progress.Advances low progress :=
  ⟨h, le_refl _, rfl⟩

theorem KeepsBelow.close (h : progress.KeepsBelow low) (spacing : 0 < after.entrySpacing)
    (cursor : progress.cursor ≤ after.cursor) (deepest : after.deepest = progress.deepest)
    (level : after.packer.level = none) : progress.Advances low after :=
  ⟨⟨spacing, h.cursor.trans cursor, fun _ opened => by simp [level] at opened⟩, cursor, deepest⟩

theorem Advances.of_front (h : progress.Advances low after) {other : Progress Rat}
    (front : other.front = after.front) (deepest : other.deepest = after.deepest) :
    progress.Advances low other := by
  obtain ⟨cursor, packer, spacing⟩ : _ ∧ _ ∧ _ := by
    simpa only [Progress.front, Prod.mk.injEq] using front
  obtain ⟨⟨positive, below, level⟩, ahead, kept⟩ := h
  exact ⟨⟨spacing ▸ positive, cursor ▸ below, packer ▸ level⟩, cursor ▸ ahead, deepest.trans kept⟩

theorem Advances.reach_le (h : progress.Advances low after) : progress.reach ≤ after.reach :=
  max_le_max h.cursor h.deepest.ge

theorem cursor_le_reach (progress : Progress Rat) : progress.cursor ≤ progress.reach :=
  le_max_left _ _

theorem KeepsBelow.slotTop (h : progress.KeepsBelow low) (span : Span Rat) :
    low ≤ progress.slotTop span := by
  unfold Progress.slotTop
  split
  · rcases progress.packer.place?_cases span with ⟨level, opened, place, -⟩ | ⟨place, -⟩
    · rw [place]
      exact h.level level opened
    · rw [place]
      exact h.cursor
  · exact h.cursor

/-- A slot is taken below the height, and the cursor goes to its end or further. -/
theorem KeepsBelow.reserve (h : progress.KeepsBelow low) (span : Span Rat) {height : Rat}
    (nonneg : 0 ≤ height) :
    progress.Advances low (progress.reserve span height) ∧
      progress.slotTop span + height ≤ (progress.reserve span height).cursor := by
  have top := h.slotTop span
  unfold Progress.reserve
  split
  · rename_i packing
    -- the span goes on the level that is open, or on a new one
    obtain ⟨level, claimed, low', bottom⟩ : ∃ level,
        (progress.packer.claim span (progress.slotTop span)
          (progress.slotTop span + height)).level = some level ∧ low ≤ level.top ∧
        progress.slotTop span + height ≤ level.bottom := by
      unfold Packer.claim
      split
      · rename_i level opened
        split
        · exact ⟨_, rfl, h.level level opened, (le_max_right _ _).trans (Scalar.max_eq_max _ _).ge⟩
        · exact ⟨_, rfl, top, le_refl _⟩
      · exact ⟨_, rfl, top, le_refl _⟩
    simp only [Packer.bottom?, claimed, Option.map_some, Scalar.max_eq_max]
    refine ⟨⟨⟨h.spacing, h.cursor.trans (le_max_left _ _), ?_⟩, le_max_left _ _, rfl⟩,
      bottom.trans (le_max_right _ _)⟩
    intro other opened
    obtain rfl := Option.some.inj (claimed.symm.trans opened)
    exact low'
  · rename_i single
    rw [Progress.slotTop, if_neg single]
    exact ⟨h.close h.spacing (le_add_of_nonneg_right nonneg) rfl rfl, le_refl _⟩

/-- The first row is where placing begins. -/
theorem keepsBelow_beginning (document : Document) (config : Config Rat) :
    (document.beginning config).KeepsBelow (setting document config).bodyTop := by
  have start : (Progress.start (setting document config).bodyTop).KeepsBelow
      (setting document config).bodyTop :=
    ⟨Nat.cast_pos.2 Nat.one_pos, le_refl _, fun _ opened => absurd opened (Option.not_mem_none _)⟩
  unfold Document.beginning drawTitle
  split
  · exact ⟨start.spacing, start.cursor, start.level⟩
  · exact start

end Progress

namespace Setting
open Progress

variable {setting : Setting Rat} {low : Rat} {progress : Progress Rat}

theorem deepest_placeMessage (setting : Setting Rat) (id : NodeId) (m : Message)
    (progress : Progress Rat) :
    (setting.placeMessage id m progress).deepest = progress.deepest := by
  have doomed (progress : Progress Rat) (y : Rat) (key : String) :
      (progress.destroyDoomed y key).deepest = progress.deepest := by
    unfold Progress.destroyDoomed
    split <;> rfl
  have remembered (key : String) (box : Rect Rat) (progress : Progress Rat) :
      (remember key box progress).deepest = progress.deepest := by
    unfold remember
    split <;> rfl
  have reserved (span : Span Rat) (height : Rat) :
      (progress.reserve span height).deepest = progress.deepest := by
    unfold Progress.reserve
    split <;> rfl
  have created (arrow : MessageGeometry Rat) (progress : Progress Rat) :
      (setting.placeCreated m arrow progress).2.deepest = progress.deepest := by
    have creates := setting.creates_placeCreated m arrow progress
    generalize setting.placeCreated m arrow progress = result at creates ⊢
    obtain ⟨drawn, created⟩ := result
    cases creates with
    | plain => rfl
    | _ => exact remembered _ _ _
  cases measured : setting.messageShape? progress.entrySpacing m with
  | none => rw [placeMessage, measured]
  | some shape =>
    rw [placeMessage, measured]
    exact (doomed _ _ _).trans ((doomed _ _ _).trans ((created _ _).trans (reserved _ _)))

variable (valid : setting.config.validate = .ok ())
include valid

theorem advances_placeMessage (h : progress.KeepsBelow low) (id : NodeId) (m : Message) :
    progress.Advances low (setting.placeMessage id m progress) := by
  cases measured : setting.messageShape? progress.entrySpacing m with
  | none =>
    rw [placeMessage, measured]
    exact h.refl
  | some shape =>
    have height := MessageShape.height_pos valid h.spacing measured
    refine (h.reserve shape.span height.le).1.of_front (setting.front_placeMessage id measured) ?_
    rw [deepest_placeMessage]
    unfold Progress.reserve
    split <;> rfl

/-- Whatever is not a `space` goes down. -/
theorem advances_placeLeaf (h : progress.KeepsBelow low) {node : Node}
    (other : ∀ steps, node.element ≠ .directive (.space steps)) :
    progress.Advances low (setting.placeLeaf node progress) := by
  have size {size : Rat} (field : size ∈ setting.config.fields.map Prod.snd) :=
    Config.nonneg_of_validate valid field
  have stacked {height : Rat} (nonneg : 0 ≤ height) (geometry : Geometry Rat) :
      progress.Advances low ((progress.stack height).draw node.id geometry) :=
    h.close h.spacing (le_add_of_nonneg_right nonneg) rfl rfl
  obtain ⟨id, lineStart, lineEnd, element⟩ := node
  cases element with
  | message m => exact advances_placeMessage valid h id m
  | note n =>
    change progress.Advances low (setting.placeNote id n progress)
    rw [placeNote_eq]
    exact stacked (noteHeight_nonneg valid n.text) _
  | divider => exact stacked (size (by simp [Config.fields])) _
  | blankLine => exact stacked (size (by simp [Config.fields])) _
  | error => exact stacked (size (by simp [Config.fields])) _
  | directive d =>
    cases d with
    | space steps => exact absurd rfl (other steps)
    | linear on => exact h.close h.spacing (le_refl _) rfl rfl
    | parallel on => exact h.close h.spacing (le_refl _) rfl rfl
    | destroy key =>
      exact h.close h.spacing (le_add_of_nonneg_right (size (by simp [Config.fields]))) rfl rfl
    | entrySpacing factor => exact ⟨⟨factor.toRat_pos, h.cursor, h.level⟩, le_refl _, rfl⟩
    | _ => exact ⟨⟨h.spacing, h.cursor, h.level⟩, le_refl _, rfl⟩
  | _ => exact h.refl

/-- A `space` that steps back does not go above the first row, and how deep the cursor has been
is remembered. -/
theorem keepsBelow_placeSpace (h : progress.KeepsBelow low) {steps : Int32}
    (ahead : low ≤ setting.bodyTop ∨ 0 ≤ steps) :
    (setting.placeSpace steps progress).KeepsBelow low ∧
      progress.reach ≤ (setting.placeSpace steps progress).reach ∧
      (0 ≤ steps → progress.cursor ≤ (setting.placeSpace steps progress).cursor) := by
  have forward (forward : 0 ≤ steps) :
      progress.cursor ≤ (setting.placeSpace steps progress).cursor := by
    have ahead : (0 : Rat) ≤ (steps.toInt : Rat) * setting.config.spaceUnit :=
      mul_nonneg (Int.cast_nonneg (Int32.le_iff_toInt_le.1 forward))
        (Config.nonneg_of_validate valid (by simp [Config.fields]))
    exact ((le_add_of_nonneg_right ahead).trans (le_max_left _ setting.bodyTop)).trans
      (Scalar.max_eq_max _ _).ge
  have first : setting.bodyTop ≤ (setting.placeSpace steps progress).cursor :=
    (le_max_right _ _).trans (Scalar.max_eq_max _ _).ge
  refine ⟨⟨h.spacing, ?_, fun _ opened => absurd opened (Option.not_mem_none _)⟩, ?_, forward⟩
  · rcases ahead with low | onward
    · exact low.trans first
    · exact h.cursor.trans (forward onward)
  · have deep : progress.reach ≤ (setting.placeSpace steps progress).deepest := by
      change _ ≤ Scalar.max _ _
      rw [Scalar.max_eq_max, max_comm]
      exact le_refl _
    exact deep.trans (le_max_right _ _)

theorem keepsBelow_placeLeaf (h : progress.KeepsBelow low) {node : Node}
    (ahead : low ≤ setting.bodyTop ∨ node.element.stepsBack = false) :
    (setting.placeLeaf node progress).KeepsBelow low ∧
      progress.reach ≤ (setting.placeLeaf node progress).reach ∧
      (node.element.stepsBack = false →
        progress.cursor ≤ (setting.placeLeaf node progress).cursor) := by
  by_cases space : ∃ steps, node.element = .directive (.space steps)
  · obtain ⟨steps, element⟩ := space
    have onward : node.element.stepsBack = false ↔ 0 ≤ steps := by
      simp [element, Element.stepsBack, Int32.not_lt]
    rw [onward] at ahead ⊢
    have placed : setting.placeLeaf node progress = setting.placeSpace steps progress := by
      rw [placeLeaf, element]
      rfl
    rw [placed]
    exact keepsBelow_placeSpace valid h ahead
  · have advances := advances_placeLeaf valid h fun steps element => space ⟨steps, element⟩
    exact ⟨advances.keeps, advances.reach_le, fun _ => advances.cursor⟩

theorem advances_enterFragment (h : progress.KeepsBelow low) (f : Fragment) :
    progress.Advances low (setting.enterFragment f progress) := by
  obtain ⟨level, spacing⟩ := level_enterFragment setting f progress
  refine h.close (spacing ▸ h.spacing) (cursor_enterFragment valid f progress) ?_ level
  unfold enterFragment
  split <;> rfl

theorem advances_leaveFragment (h : progress.KeepsBelow low) (f : Fragment) :
    progress.Advances low (setting.leaveFragment f progress) := by
  obtain ⟨packer, spacing⟩ := level_leaveFragment setting f progress
  have ahead := cursor_leaveFragment valid f progress
  refine ⟨⟨spacing ▸ h.spacing, h.cursor.trans ahead, packer ▸ h.level⟩, ahead, ?_⟩
  unfold leaveFragment
  split <;> rfl

theorem advances_enterElse (h : progress.KeepsBelow low) :
    progress.Advances low (setting.enterElse progress) :=
  ⟨⟨h.spacing, h.cursor.trans (cursor_enterElse valid progress), h.level⟩,
    cursor_enterElse valid progress, rfl⟩

omit valid in
theorem advances_endSection (h : progress.KeepsBelow low) (linear parallel : Bool) :
    progress.Advances low (endSection linear parallel progress) :=
  h.close h.spacing (le_refl _) rfl rfl

/-- While nodes are placed, nothing is placed above a height that lies above the first row, and
none above any height that the cursor has passed if no node steps back. -/
theorem Reaches.keepsBelow {nodes : List Node} {first second : Progress Rat}
    (h : first.KeepsBelow low)
    (ahead : low ≤ setting.bodyTop ∨ ∀ node ∈ nodes, node.element.stepsBack = false)
    (steps : setting.Reaches nodes first second) :
    second.KeepsBelow low ∧ first.reach ≤ second.reach ∧
      ((∀ node ∈ nodes, node.element.stepsBack = false) → first.cursor ≤ second.cursor) := by
  have further {progress after : Progress Rat} (before : progress.KeepsBelow low ∧
      first.reach ≤ progress.reach ∧ ((∀ node ∈ nodes, node.element.stepsBack = false) →
        first.cursor ≤ progress.cursor)) (advances : progress.Advances low after) :
      after.KeepsBelow low ∧ first.reach ≤ after.reach ∧
        ((∀ node ∈ nodes, node.element.stepsBack = false) → first.cursor ≤ after.cursor) :=
    ⟨advances.keeps, before.2.1.trans advances.reach_le,
      fun forward => (before.2.2 forward).trans advances.cursor⟩
  induction steps with
  | refl => exact ⟨h, le_refl _, fun _ => le_refl _⟩
  | leaf _ mem ih =>
    obtain ⟨keeps, reach, cursor⟩ := ih
    obtain ⟨keeps', reach', cursor'⟩ := keepsBelow_placeLeaf valid keeps
      (ahead.imp_right fun forward => forward _ mem)
    exact ⟨keeps', reach.trans reach', fun forward =>
      (cursor forward).trans (cursor' (forward _ mem))⟩
  | enter _ f ih => exact further ih (advances_enterFragment valid ih.1 f)
  | clause _ ih => exact further ih (advances_enterElse valid ih.1)
  | ended _ linear parallel ih => exact further ih (advances_endSection ih.1 linear parallel)
  | leave _ f ih => exact further ih (advances_leaveFragment valid ih.1 f)
  | frame _ mem f top elseYs ih =>
    exact further ih ⟨⟨ih.1.spacing, ih.1.cursor, ih.1.level⟩, le_refl _, rfl⟩

end Setting

/-- A drawing stands between two heights. A frame may end above its top, so both count. -/
def Geometry.Between (top bottom : Rat) : Geometry Rat → Prop
  | .message arrow => top ≤ arrow.y ∧ arrow.y ≤ arrow.endY ∧ arrow.endY ≤ bottom
  | .box rect => (top ≤ rect.y ∧ rect.y ≤ bottom) ∧ top ≤ rect.bottom ∧ rect.bottom ≤ bottom
  | .fragment frame =>
    (top ≤ frame.rect.y ∧ frame.rect.y ≤ bottom) ∧
      top ≤ frame.rect.bottom ∧ frame.rect.bottom ≤ bottom

theorem Geometry.Between.mono {top top' bottom bottom' : Rat} {geometry : Geometry Rat}
    (h : geometry.Between top bottom) (higher : top' ≤ top) (deeper : bottom ≤ bottom') :
    geometry.Between top' bottom' := by
  have inside {y : Rat} (h : top ≤ y ∧ y ≤ bottom) : top' ≤ y ∧ y ≤ bottom' :=
    ⟨higher.trans h.1, h.2.trans deeper⟩
  cases geometry with
  | message => exact ⟨higher.trans h.1, h.2.1, h.2.2.trans deeper⟩
  | box => exact ⟨inside h.1, inside h.2⟩
  | fragment => exact ⟨inside h.1, inside h.2⟩

theorem Geometry.between_shiftX {top bottom : Rat} (dx : Rat) {geometry : Geometry Rat} :
    (geometry.shiftX dx).Between top bottom ↔ geometry.Between top bottom := by
  cases geometry <;> exact Iff.rfl

namespace Setting
open Progress

variable {setting : Setting Rat} {low : Rat} {progress : Progress Rat}
  (valid : setting.config.validate = .ok ())
include valid

/-- What is drawn for a row stands between the height and the cursor that the row leaves. -/
theorem between_drawing? (h : progress.KeepsBelow low) {node : Node} {geometry : Geometry Rat}
    (drawn : Arrival.drawing? setting ⟨node, progress⟩ = some geometry) :
    geometry.Between low (setting.placeLeaf node progress).cursor := by
  have size {size : Rat} (field : size ∈ setting.config.fields.map Prod.snd) :=
    Config.nonneg_of_validate valid field
  have row {x width height : Rat} (nonneg : 0 ≤ height) :
      (Geometry.box ⟨x, progress.cursor, width, height⟩).Between low
        (progress.cursor + height) :=
    ⟨⟨h.cursor, le_add_of_nonneg_right nonneg⟩, le_add_of_le_of_nonneg h.cursor nonneg, le_refl _⟩
  obtain ⟨id, lineStart, lineEnd, element⟩ := node
  cases element with
  | message m =>
    obtain ⟨shape, measured, rfl⟩ := Option.map_eq_some_iff.1 drawn
    obtain ⟨lead, delay, loop⟩ := MessageShape.measures valid h.spacing measured
    have top := h.slotTop shape.span
    have bottom := (h.reserve shape.span (MessageShape.height_pos valid h.spacing measured).le).2
    have cursor : (setting.placeMessage id m progress).cursor =
        (progress.reserve shape.span shape.height).cursor :=
      congrArg Prod.fst (setting.front_placeMessage id measured)
    obtain ⟨y, endY, -⟩ := (setting.creates_placeCreated m (shape.arrow progress)
      (countMessage (progress.reserve shape.span shape.height))).slot
    change _ ∧ _ ∧ _ ≤ (setting.placeMessage id m progress).cursor
    rw [y, endY, cursor]
    simp only [MessageShape.arrow, MessageShape.height] at bottom ⊢
    exact ⟨by linarith, by linarith, by linarith⟩
  | note n =>
    obtain rfl := Option.some.inj drawn
    change (Geometry.box (setting.noteRect n progress)).Between low
      (setting.placeNote id n progress).cursor
    rw [placeNote_eq]
    have height := noteHeight_nonneg valid n.text
    unfold noteRect
    split
    · exact row height
    · exact row height
  | divider =>
    obtain rfl := Option.some.inj drawn
    exact row (size (by simp [Config.fields]))
  | blankLine =>
    obtain rfl := Option.some.inj drawn
    exact row (size (by simp [Config.fields]))
  | error =>
    obtain rfl := Option.some.inj drawn
    exact row (size (by simp [Config.fields]))
  | _ => cases drawn

omit valid in
/-- A frame goes from where its fragment was entered to where it was left. -/
theorem get?_placeTree_fragment {node : Node} {f : Fragment} (element : node.element = .fragment f)
    (body : Tour) (progress : Progress Rat) :
    ∃ elseYs, (setting.placeTree node body progress).geometry.get? node.id =
      some (.fragment ⟨⟨(setting.fragmentSpan node).left, progress.cursor,
        max ((setting.fragmentSpan node).right - (setting.fragmentSpan node).left)
          (headerWidth setting.config f),
        (setting.placeTree node body progress).cursor - progress.cursor⟩, elseYs⟩) := by
  rw [placeTree_fragment element, ← Scalar.max_eq_max]
  exact ⟨_, GeometryMap.get?_insert_self _ _ _⟩

/-- What is drawn for a node stands between the height and the cursor before or after it. -/
theorem between_placeTree (h : progress.KeepsBelow low) {node : Node} {body : Tour}
    (after : (setting.placeTree node body progress).KeepsBelow low) {geometry : Geometry Rat}
    (drawn : (setting.placeTree node body progress).geometry.get? node.id = some geometry) :
    geometry.Between low (max progress.cursor (setting.placeTree node body progress).cursor) ∨
      progress.geometry.get? node.id = some geometry := by
  by_cases fragment : ∃ f, node.element = .fragment f
  · obtain ⟨f, element⟩ := fragment
    obtain ⟨elseYs, frame⟩ := get?_placeTree_fragment element body progress
    obtain rfl := Option.some.inj (frame.symm.trans drawn)
    have bottom : progress.cursor + ((setting.placeTree node body progress).cursor -
        progress.cursor) = (setting.placeTree node body progress).cursor := add_sub_cancel _ _
    simp only [Geometry.Between, Rect.bottom, bottom]
    exact Or.inl ⟨⟨h.cursor, le_max_left _ _⟩, after.cursor, le_max_right _ _⟩
  · rw [placeTree_leaf fun f element => fragment ⟨f, element⟩] at drawn ⊢
    rw [get?_placeLeaf_self] at drawn
    rcases Option.or_eq_some_iff.1 drawn with drawn | ⟨-, drawn⟩
    · exact Or.inl ((between_drawing? valid h drawn).mono (le_refl _) (le_max_right _ _))
    · exact Or.inr drawn

/-- If nothing in a fragment steps back, all that is drawn in it stands between the cursor where
it is entered and the cursor where it is left. -/
theorem between_fragment (spacing : 0 < progress.entrySpacing) {outer : Node} {f : Fragment}
    (element : outer.element = .fragment f) {body : Tour}
    (nodup : ((outer :: body.labels).map Node.id).Nodup)
    (forward : ∀ node ∈ body.labels, node.element.stepsBack = false) {inner : Node} {inside : Tour}
    (mem : (inner, inside) ∈ body.trees) {geometry : Geometry Rat}
    (drawn : (setting.placeTree outer body progress).geometry.get? inner.id = some geometry) :
    geometry.Between progress.cursor (setting.placeTree outer body progress).cursor ∨
      progress.geometry.get? inner.id = some geometry := by
  rw [List.map_cons, List.nodup_cons] at nodup
  obtain ⟨level, spacing'⟩ := level_enterFragment setting f progress
  -- the fragment is entered with no level open, so all in it goes below
  have entered : (setting.enterFragment f progress).KeepsBelow progress.cursor :=
    ⟨spacing' ▸ spacing, cursor_enterFragment valid f progress,
      fun _ opened => by simp [level] at opened⟩
  obtain ⟨before, -, early, late, moment⟩ := @exists_moment Rat _ setting progress.linear
    progress.parallel _ (setting.enterFragment f progress) nodup.2 _ _ mem
  obtain ⟨fresh, kept⟩ := moment inner List.mem_cons_self
  have steps := (setting.reaches_placeTree inner inside before).mono (labels_of_mem_trees mem)
  obtain ⟨keeps, -, -⟩ := Reaches.keepsBelow valid entered (Or.inr forward) early
  obtain ⟨after, -, higher⟩ := Reaches.keepsBelow valid keeps (Or.inr forward) steps
  obtain ⟨-, -, deeper⟩ := Reaches.keepsBelow valid after (Or.inr forward) late
  rw [placeTree_fragment element] at drawn ⊢
  have left := (deeper forward).trans (cursor_leaveFragment valid f (endSection progress.linear
    progress.parallel (setting.placeRow progress.linear progress.parallel body
      (setting.enterFragment f progress)).1))
  have drawn' : (setting.placeTree inner inside before).geometry.get? inner.id =
      some geometry := by
    rw [← kept, ← drawn]
    refine ((GeometryMap.get?_insert_of_ne _ (fun same => nodup.1 ?_) _).trans ?_).symm
    · exact same ▸ List.mem_map_of_mem (labels_of_mem_trees mem List.mem_cons_self)
    · rw [geometry_leaveFragment]
      rfl
  rw [← geometry_enterFragment setting f, ← fresh]
  exact (between_placeTree valid keeps after drawn').imp_left fun between =>
    between.mono (le_refl _) (max_le ((higher forward).trans left) left)

end Setting

end SequenceDiagram.Layout
