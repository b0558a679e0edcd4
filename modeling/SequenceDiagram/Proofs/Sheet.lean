import SequenceDiagram.Proofs.Arrivals

set_option autoImplicit false

namespace SequenceDiagram.Layout

namespace Setting
variable {α : Type} [Scalar α]

inductive Creates (setting : Setting α) (message : Message) (arrow : MessageGeometry α)
    (progress : Progress α) : MessageGeometry α → Progress α → Prop
  | plain : Creates setting message arrow progress arrow progress
  | hidden (box : Rect α)
      (found : setting.createdBox? message.receiver arrow.endY progress = some box) :
      Creates setting message arrow progress arrow (remember message.receiver box progress)
  | forward (box : Rect α)
      (found : setting.createdBox? message.receiver arrow.endY progress = some box)
      (other : message.sender ≠ message.receiver) (senderX : α)
      (center : setting.columns.center? message.sender = some senderX)
      (direction : message.receiver = message.target) :
      Creates setting message arrow progress { arrow with toX := boxEdge senderX box }
        (remember message.receiver box progress)
  | backward (box : Rect α)
      (found : setting.createdBox? message.receiver arrow.endY progress = some box)
      (other : message.sender ≠ message.receiver) (senderX : α)
      (center : setting.columns.center? message.sender = some senderX)
      (direction : message.receiver ≠ message.target) :
      Creates setting message arrow progress { arrow with fromX := boxEdge senderX box }
        (remember message.receiver box progress)

theorem creates_placeCreated (setting : Setting α) (message : Message)
    (arrow : MessageGeometry α) (progress : Progress α) :
    setting.Creates message arrow progress (setting.placeCreated message arrow progress).1
      (setting.placeCreated message arrow progress).2 := by
  unfold placeCreated
  split
  · rename_i creating
    have other : message.sender ≠ message.receiver := by
      simpa using (Bool.and_eq_true_iff.1 creating).2
    split
    · exact .plain
    · rename_i box found
      simp only
      split
      · exact .hidden box found
      · rename_i senderX center
        split
        · rename_i direction
          exact .forward box found other senderX center direction
        · rename_i direction
          exact .backward box found other senderX center direction
  · exact .plain

section
variable {setting : Setting α} {message : Message} {arrow arrow' : MessageGeometry α}
  {progress after : Progress α}

omit [Scalar α] in
theorem frames_remember (key : String) (box : Rect α) (progress : Progress α) :
    (remember key box progress).geometry = progress.geometry ∧
      (remember key box progress).frames = progress.frames := by
  unfold remember
  split <;> exact ⟨rfl, rfl⟩

omit [Scalar α] in
theorem mem_created_remember {key : String} {box : Rect α} {entry : String × Rect α}
    (h : entry ∈ (remember key box progress).created) :
    entry = (key, box) ∨ entry ∈ progress.created := by
  unfold remember at h
  split at h
  · exact Or.inr h
  · exact List.mem_cons.1 h

theorem Creates.keeps (h : setting.Creates message arrow progress arrow' after) :
    after.geometry = progress.geometry ∧ after.frames = progress.frames := by
  cases h with
  | plain => exact ⟨rfl, rfl⟩
  | hidden => exact frames_remember _ _ _
  | forward => exact frames_remember _ _ _
  | backward => exact frames_remember _ _ _

theorem Creates.slot (h : setting.Creates message arrow progress arrow' after) :
    arrow'.y = arrow.y ∧ arrow'.endY = arrow.endY ∧ arrow'.height = arrow.height := by
  cases h <;> exact ⟨rfl, rfl, rfl⟩

end

end Setting

section
variable {α : Type}

theorem GeometryMap.mem_insert {map : GeometryMap α} {id : NodeId} {geometry : Geometry α}
    {entry : NodeId × Geometry α} (h : entry ∈ map.insert id geometry) :
    entry = (id, geometry) ∨ entry ∈ map :=
  (List.mem_cons.1 h).imp_right fun mem => (List.mem_filter.1 mem).1

/-- The drawings, the boxes that messages created and the frames. -/
def Progress.sheet (progress : Progress α) :
    GeometryMap α × List (String × Rect α) × List NodeId :=
  (progress.geometry, progress.created, progress.frames)

variable [Scalar α]

theorem Progress.sheet_destroyDoomed (progress : Progress α) (y : α) (key : String) :
    (progress.destroyDoomed y key).sheet = progress.sheet := by
  unfold destroyDoomed
  split <;> rfl

theorem Progress.sheet_reserve (progress : Progress α) (span : Span α) (height : α) :
    (progress.reserve span height).sheet = progress.sheet := by
  unfold reserve
  split <;> rfl

theorem Setting.span_of_messageShape? {setting : Setting α} {spacing : α} {message : Message}
    {shape : MessageShape α} (h : setting.messageShape? spacing message = some shape) :
    setting.columns.center? message.source = some shape.fromX ∧
      setting.columns.center? message.target = some shape.toX ∧
      shape.span = if message.isSelf then
        .between shape.fromX (shape.fromX + setting.config.selfMessageWidth)
        else .between shape.fromX shape.toX := by
  unfold messageShape? at h
  simp only [bind, Option.bind_eq_some_iff, Option.some.injEq] at h
  obtain ⟨fromX, source, toX, target, rfl⟩ := h
  exact ⟨source, target, rfl⟩

theorem Setting.sheet_enterFragment (setting : Setting α) (f : Fragment)
    (progress : Progress α) : (setting.enterFragment f progress).sheet = progress.sheet := by
  unfold enterFragment
  split <;> rfl

theorem Setting.sheet_leaveFragment (setting : Setting α) (f : Fragment)
    (progress : Progress α) : (setting.leaveFragment f progress).sheet = progress.sheet := by
  unfold leaveFragment
  split <;> rfl

theorem Setting.geometry_enterFragment (setting : Setting α) (f : Fragment)
    (progress : Progress α) : (setting.enterFragment f progress).geometry = progress.geometry :=
  congrArg Prod.fst (setting.sheet_enterFragment f progress)

theorem Setting.geometry_leaveFragment (setting : Setting α) (f : Fragment)
    (progress : Progress α) : (setting.leaveFragment f progress).geometry = progress.geometry :=
  congrArg Prod.fst (setting.sheet_leaveFragment f progress)

theorem Setting.frames_enterFragment (setting : Setting α) (f : Fragment)
    (progress : Progress α) : (setting.enterFragment f progress).frames = progress.frames :=
  congrArg (fun sheet => sheet.2.2) (setting.sheet_enterFragment f progress)

theorem Setting.frames_leaveFragment (setting : Setting α) (f : Fragment)
    (progress : Progress α) : (setting.leaveFragment f progress).frames = progress.frames :=
  congrArg (fun sheet => sheet.2.2) (setting.sheet_leaveFragment f progress)

def Setting.MessageShape.arrow (shape : Setting.MessageShape α) (progress : Progress α) :
    MessageGeometry α :=
  let top := progress.slotTop shape.span
  let endY := top + shape.lead + shape.delay + shape.loop
  ⟨top + shape.lead, endY, shape.fromX, shape.toX, endY - top, progress.counter⟩

omit [Scalar α] in
theorem Progress.sheet_draw {progress progress' : Progress α}
    (same : progress.sheet = progress'.sheet) (id : NodeId) (geometry : Geometry α) :
    (progress.draw id geometry).sheet = (progress'.draw id geometry).sheet := by
  obtain ⟨geometry, created, frames⟩ : _ ∧ _ ∧ _ := by
    simpa only [Progress.sheet, Prod.mk.injEq] using same
  simp only [sheet, draw, geometry, created, frames]

theorem Setting.sheet_placeMessage (setting : Setting α) (id : NodeId) {message : Message}
    {progress : Progress α} {shape : MessageShape α}
    (h : setting.messageShape? progress.entrySpacing message = some shape) :
    let created := setting.placeCreated message (shape.arrow progress)
      (countMessage (progress.reserve shape.span shape.height))
    (setting.placeMessage id message progress).sheet =
      (created.2.draw id (.message created.1)).sheet := by
  rw [placeMessage, h]
  exact Progress.sheet_draw ((Progress.sheet_destroyDoomed _ _ _).trans
    (Progress.sheet_destroyDoomed _ _ _)) id _

end

end SequenceDiagram.Layout
