import SequenceDiagram.Proofs.Course
import SequenceDiagram.Proofs.Spacing

set_option autoImplicit false

namespace SequenceDiagram.Layout

structure Slot (α : Type) where
  top : α
  bottom : α
deriving DecidableEq, Repr

section
variable {α : Type} [Scalar α]

def Setting.MessageShape.height (shape : Setting.MessageShape α) : α :=
  shape.lead + shape.delay + shape.loop

namespace Arrival

def shape? (setting : Setting α) (arrival : Arrival α) : Option (Setting.MessageShape α) :=
  match arrival.node.element with
  | .message m => setting.messageShape? arrival.before.entrySpacing m
  | _ => none

def row (arrival : Arrival α) (height : α) : Slot α :=
  ⟨arrival.before.cursor, arrival.before.cursor + height⟩

/-- What the node takes. Fragments, directives and what is not drawn take no slot. -/
def slot? (setting : Setting α) (arrival : Arrival α) : Option (Slot α) :=
  match arrival.node.element with
  | .message _ => (arrival.shape? setting).map fun shape =>
    let top := arrival.before.slotTop shape.span
    ⟨top, top + shape.height⟩
  | .note n => some (arrival.row (Setting.noteHeight setting.config n.text))
  | .divider _ => some (arrival.row setting.config.dividerHeight)
  | .blankLine => some (arrival.row setting.config.blankHeight)
  | .error _ => some (arrival.row setting.config.errorHeight)
  | .participant _ | .group _ | .comment _ | .directive _ | .fragment _ => none

def packed? (setting : Setting α) (arrival : Arrival α) : Option (Span α) :=
  if arrival.before.isPacking then (arrival.shape? setting).map Setting.MessageShape.span
  else none

end Arrival

namespace Progress

/-- What decides where the next slot goes. -/
def front (progress : Progress α) : α × Packer α × α :=
  (progress.cursor, progress.packer, progress.entrySpacing)

theorem front_destroyDoomed (progress : Progress α) (y : α) (key : String) :
    (progress.destroyDoomed y key).front = progress.front := by
  unfold destroyDoomed
  split <;> rfl

end Progress

namespace Setting

omit [Scalar α] in
theorem front_remember (key : String) (box : Rect α) (progress : Progress α) :
    (remember key box progress).front = progress.front := by
  unfold remember
  split <;> rfl

theorem front_placeCreated (setting : Setting α) (message : Message)
    (geometry : MessageGeometry α) (progress : Progress α) :
    (setting.placeCreated message geometry progress).2.front = progress.front := by
  have remembered := front_remember (α := α)
  unfold placeCreated
  split
  · split
    · rfl
    · simp only
      split
      · exact remembered _ _ progress
      · split <;> exact remembered _ _ progress
  · rfl

/-- Of a message only its slot counts for what comes after. -/
theorem front_placeMessage (setting : Setting α) (id : NodeId) {message : Message}
    {progress : Progress α} {shape : MessageShape α}
    (h : setting.messageShape? progress.entrySpacing message = some shape) :
    (setting.placeMessage id message progress).front =
      (progress.reserve shape.span shape.height).front := by
  unfold placeMessage
  rw [h]
  exact (Progress.front_destroyDoomed _ _ _).trans
    ((Progress.front_destroyDoomed _ _ _).trans (front_placeCreated setting message _ _))

end Setting

end

section
variable {setting : Setting Rat} (valid : setting.config.validate = .ok ())
include valid

/-- A message leads to its arrow over some height, and the arrow does not rise. -/
theorem Setting.MessageShape.measures {spacing : Rat} (positive : 0 < spacing)
    {message : Message} {shape : Setting.MessageShape Rat}
    (h : setting.messageShape? spacing message = some shape) :
    0 < shape.lead ∧ 0 ≤ shape.delay ∧ 0 ≤ shape.loop := by
  have size {size : Rat} (field : size ∈ setting.config.fields.map Prod.snd) :=
    Config.nonneg_of_validate valid field
  unfold Setting.messageShape? at h
  simp only [bind, Option.bind_eq_some_iff, Option.some.injEq] at h
  obtain ⟨fromX, -, toX, -, rfl⟩ := h
  have row : 0 < setting.config.messageHeight * spacing :=
    mul_pos (Config.messageHeight_pos valid) positive
  have more : (0 : Rat) ≤ Scalar.ofNat (lineCount message.label - 1) *
      setting.config.noteLineHeight :=
    mul_nonneg (Scalar.ofNat_nonneg _) (size (by simp [Config.fields]))
  have drop : (0 : Rat) ≤ Scalar.ofNat (message.delay.getD 0).toNat * setting.config.delayUnit :=
    mul_nonneg (Scalar.ofNat_nonneg _) (size (by simp [Config.fields]))
  refine ⟨add_pos_of_pos_of_nonneg row more, drop, ?_⟩
  dsimp only
  split
  · rw [Scalar.max_eq_max]
    exact mul_nonneg ((Scalar.ofNat_nonneg 0).trans (le_max_right _ _)) positive.le
  · exact Scalar.ofNat_nonneg 0

/-- A message has a slot of some height. -/
theorem Setting.MessageShape.height_pos {spacing : Rat} (positive : 0 < spacing)
    {message : Message} {shape : Setting.MessageShape Rat}
    (h : setting.messageShape? spacing message = some shape) : 0 < shape.height := by
  obtain ⟨lead, delay, loop⟩ := measures valid positive h
  exact add_pos_of_pos_of_nonneg (add_pos_of_pos_of_nonneg lead delay) loop

theorem Setting.noteHeight_nonneg (text : String) :
    0 ≤ Setting.noteHeight setting.config text := by
  have least : 0 ≤ setting.config.noteMinHeight :=
    Config.nonneg_of_validate valid (by simp [Config.fields])
  rw [Setting.noteHeight, Scalar.max_eq_max]
  exact least.trans (le_max_left _ _)

end

/-- Everything that placing one node can do to the cursor and to the open level. -/
inductive Setting.Moves (setting : Setting Rat) (arrival : Arrival Rat) (after : Progress Rat) :
    Prop
  | rests (slot : arrival.slot? setting = none) (cursor : after.cursor = arrival.before.cursor)
      (packer : after.packer = arrival.before.packer)
  | closes (slot : arrival.slot? setting = none) (cursor : arrival.before.cursor ≤ after.cursor)
      (level : after.packer.level = none)
  | adds (slot : arrival.slot? setting = some ⟨arrival.before.cursor, after.cursor⟩)
      (alone : arrival.packed? setting = none) (cursor : arrival.before.cursor ≤ after.cursor)
      (level : after.packer.level = none)
  | opens (span : Span Rat) (packed : arrival.packed? setting = some span)
      (slot : arrival.slot? setting = some ⟨arrival.before.cursor, after.cursor⟩)
      (cursor : arrival.before.cursor < after.cursor)
      (crowded : ∀ level ∈ arrival.before.packer.level,
        ∃ claimed ∈ level.claimed, claimed.overlaps span = true)
      (level : after.packer.level = some ⟨arrival.before.cursor, after.cursor, [span]⟩)
  | joins (span : Span Rat) (packed : arrival.packed? setting = some span) (level : Level Rat)
      (opened : arrival.before.packer.level = some level) (bottom : Rat)
      (slot : arrival.slot? setting = some ⟨level.top, bottom⟩)
      (room : ∀ claimed ∈ level.claimed, claimed.overlaps span = false)
      (level' : after.packer.level =
        some ⟨level.top, Scalar.max level.bottom bottom, span :: level.claimed⟩)
      (cursor : after.cursor =
        Scalar.max arrival.before.cursor (Scalar.max level.bottom bottom))

/-- Where a packed message goes: on the open level if nothing there overlaps it, else below. -/
theorem Packer.place?_cases (packer : Packer Rat) (span : Span Rat) :
    (∃ level, packer.level = some level ∧ packer.place? span = some level.top ∧
      ∀ claimed ∈ level.claimed, claimed.overlaps span = false) ∨
    (packer.place? span = none ∧ ∀ level ∈ packer.level,
      ∃ claimed ∈ level.claimed, claimed.overlaps span = true) := by
  cases opened : packer.level with
  | none => exact Or.inr ⟨by rw [place?, opened], by simp⟩
  | some level =>
    by_cases crowded : level.claimed.any (fun claimed => claimed.overlaps span) = true
    · refine Or.inr ⟨by rw [place?, opened]; exact if_pos crowded, ?_⟩
      simpa using crowded
    · refine Or.inl ⟨level, rfl, by rw [place?, opened]; exact if_neg crowded, ?_⟩
      simpa using crowded

namespace Setting

section
variable {setting : Setting Rat}

theorem moves_reserve {arrival : Arrival Rat} {after : Progress Rat} {span : Span Rat}
    {height : Rat} (positive : 0 < height) (packing : arrival.before.isPacking = true)
    (below : ∀ level ∈ arrival.before.packer.level, level.top < arrival.before.cursor)
    (packed : arrival.packed? setting = some span)
    (slot : arrival.slot? setting =
      some ⟨arrival.before.slotTop span, arrival.before.slotTop span + height⟩)
    (cursor : after.cursor = (arrival.before.reserve span height).cursor)
    (packer : after.packer = (arrival.before.reserve span height).packer) :
    setting.Moves arrival after := by
  obtain ⟨node, progress⟩ := arrival
  rw [Progress.reserve, if_pos packing] at cursor packer
  rcases progress.packer.place?_cases span with ⟨level, opened, place, room⟩ | ⟨place, crowded⟩
  · have top : progress.slotTop span = level.top := by
      rw [Progress.slotTop, if_pos packing, place]
      rfl
    have claim : progress.packer.claim span level.top (level.top + height) =
        ⟨some ⟨level.top, Scalar.max level.bottom (level.top + height),
          span :: level.claimed⟩⟩ := by
      rw [Packer.claim, opened]
      exact if_pos (by simp [Scalar.same_rat])
    simp only [top, claim] at cursor packer slot
    exact .joins span packed level opened _ slot room (by rw [packer]) cursor
  · have top : progress.slotTop span = progress.cursor := by
      rw [Progress.slotTop, if_pos packing, place]
      rfl
    have claim : progress.packer.claim span progress.cursor (progress.cursor + height) =
        ⟨some ⟨progress.cursor, progress.cursor + height, [span]⟩⟩ := by
      rw [Packer.claim]
      split
      · rename_i level opened
        exact if_neg (by simp [Scalar.same_rat, (below level opened).ne])
      · rfl
    simp only [top, claim, Packer.bottom?, Option.map_some] at cursor packer slot
    have lower : progress.cursor < progress.cursor + height := lt_add_of_pos_right _ positive
    rw [Scalar.max_eq_max, max_eq_right lower.le] at cursor
    refine .opens span packed (by rw [slot, cursor]) ?_ crowded (by rw [packer, cursor])
    rw [cursor]
    exact lower

theorem moves_band {node : Node} {progress : Progress Rat} {height : Rat} (nonneg : 0 ≤ height)
    (slot : Arrival.slot? setting ⟨node, progress⟩ =
      some ⟨progress.cursor, progress.cursor + height⟩)
    (alone : Arrival.packed? setting ⟨node, progress⟩ = none) (geometry : Geometry Rat) :
    setting.Moves ⟨node, progress⟩ ((progress.stack height).draw node.id geometry) :=
  .adds slot alone (le_add_of_nonneg_right nonneg) rfl

variable (valid : setting.config.validate = .ok ())
include valid

theorem moves_message {node : Node} {m : Message} (element : node.element = .message m)
    {progress : Progress Rat} (spacing : 0 < progress.entrySpacing)
    (below : ∀ level ∈ progress.packer.level, level.top < progress.cursor) :
    setting.Moves ⟨node, progress⟩ (setting.placeMessage node.id m progress) := by
  cases shape : setting.messageShape? progress.entrySpacing m with
  | none =>
    refine .rests ?_ ?_ ?_ <;>
      simp [Arrival.slot?, Arrival.shape?, element, shape, placeMessage]
  | some measures =>
    have front := setting.front_placeMessage node.id shape
    have positive := MessageShape.height_pos valid spacing shape
    obtain ⟨cursor, packer, -⟩ : _ ∧ _ ∧ _ := by
      simpa only [Progress.front, Prod.mk.injEq] using front
    have slot : Arrival.slot? setting ⟨node, progress⟩ = some ⟨progress.slotTop measures.span,
        progress.slotTop measures.span + measures.height⟩ := by
      simp [Arrival.slot?, Arrival.shape?, element, shape]
    by_cases packing : progress.isPacking = true
    · have packed : Arrival.packed? setting ⟨node, progress⟩ = some measures.span := by
        simp [Arrival.packed?, Arrival.shape?, element, shape, packing]
      exact moves_reserve positive packing below packed slot cursor packer
    · have top : progress.slotTop measures.span = progress.cursor := by
        rw [Progress.slotTop, if_neg packing]
      rw [Progress.reserve, if_neg packing] at cursor packer
      refine .adds ?_ ?_ ?_ ?_
      · rw [slot, top, cursor]
        rfl
      · simp [Arrival.packed?, packing]
      · rw [cursor]
        exact le_add_of_nonneg_right positive.le
      · rw [packer]
        rfl

theorem moves_directive {node : Node} {d : Directive} (element : node.element = .directive d)
    (forward : ∀ steps, d = .space steps → 0 ≤ steps) (progress : Progress Rat) :
    setting.Moves ⟨node, progress⟩ (setting.applyDirective node.id d progress) := by
  have slot : Arrival.slot? setting ⟨node, progress⟩ = none := by simp [Arrival.slot?, element]
  have size {size : Rat} (field : size ∈ setting.config.fields.map Prod.snd) :=
    Config.nonneg_of_validate valid field
  cases d with
  | space steps =>
    refine .closes slot ?_ rfl
    have ahead : (0 : Rat) ≤ (steps.toInt : Rat) * setting.config.spaceUnit :=
      mul_nonneg (Int.cast_nonneg (Int32.le_iff_toInt_le.1 (forward steps rfl)))
        (size (by simp [Config.fields]))
    have moved : progress.cursor ≤
        progress.cursor + (steps.toInt : Rat) * setting.config.spaceUnit :=
      le_add_of_nonneg_right ahead
    exact (moved.trans (le_max_left _ setting.bodyTop)).trans (Scalar.max_eq_max _ _).ge
  | linear on => exact .closes slot (le_refl _) rfl
  | parallel on => exact .closes slot (le_refl _) rfl
  | destroy key =>
    refine .closes slot ?_ rfl
    exact le_add_of_nonneg_right (size (by simp [Config.fields]))
  | _ => exact .rests slot rfl rfl

/-- Placing a node moves the cursor down and leaves the open level known. -/
theorem moves_placeLeaf {node : Node} {progress : Progress Rat}
    (forward : ∀ steps, node.element = .directive (.space steps) → 0 ≤ steps)
    (spacing : 0 < progress.entrySpacing)
    (below : ∀ level ∈ progress.packer.level, level.top < progress.cursor) :
    setting.Moves ⟨node, progress⟩ (setting.placeLeaf node progress) := by
  have size {size : Rat} (field : size ∈ setting.config.fields.map Prod.snd) :=
    Config.nonneg_of_validate valid field
  have band {id : NodeId} {lineStart lineEnd : Nat} {element : Element} {height : Rat}
      (nonneg : 0 ≤ height) := @moves_band setting ⟨id, lineStart, lineEnd, element⟩ progress
        height nonneg
  obtain ⟨id, lineStart, lineEnd, element⟩ := node
  cases element with
  | message m => exact moves_message valid rfl spacing below
  | note n =>
    change setting.Moves _ (setting.placeNote id n progress)
    unfold placeNote
    split
    · exact band (noteHeight_nonneg valid n.text) rfl (by simp [Arrival.packed?, Arrival.shape?]) _
    · exact band (noteHeight_nonneg valid n.text) rfl (by simp [Arrival.packed?, Arrival.shape?]) _
  | divider d =>
    exact band (size (by simp [Config.fields])) rfl (by simp [Arrival.packed?, Arrival.shape?]) _
  | blankLine =>
    exact band (size (by simp [Config.fields])) rfl (by simp [Arrival.packed?, Arrival.shape?]) _
  | error fault =>
    exact band (size (by simp [Config.fields])) rfl (by simp [Arrival.packed?, Arrival.shape?]) _
  | directive d =>
    exact moves_directive valid rfl
      (fun steps same => forward steps (congrArg Element.directive same)) progress
  | _ => exact .rests rfl rfl rfl

omit valid in
/-- The spacing of rows stays positive. -/
theorem entrySpacing_placeLeaf (node : Node) {progress : Progress Rat}
    (spacing : 0 < progress.entrySpacing) : 0 < (setting.placeLeaf node progress).entrySpacing := by
  obtain ⟨id, lineStart, lineEnd, element⟩ := node
  cases element with
  | message m =>
    change 0 < (setting.placeMessage id m progress).entrySpacing
    cases shape : setting.messageShape? progress.entrySpacing m with
    | none => simpa [placeMessage, shape] using spacing
    | some measures =>
      have kept : (setting.placeMessage id m progress).entrySpacing =
          (progress.reserve measures.span measures.height).entrySpacing :=
        congrArg (fun front => front.2.2) (setting.front_placeMessage id shape)
      have reserved : (progress.reserve measures.span measures.height).entrySpacing =
          progress.entrySpacing := by
        unfold Progress.reserve
        split <;> rfl
      rwa [kept, reserved]
  | note n =>
    change 0 < (setting.placeNote id n progress).entrySpacing
    unfold placeNote
    split <;> exact spacing
  | directive d =>
    cases d with
    | entrySpacing factor => exact factor.toRat_pos
    | _ => exact spacing
  | _ => exact spacing

end

end Setting

end SequenceDiagram.Layout
