import SequenceDiagram.Layout.Canvas
import SequenceDiagram.Proofs.Sheet

set_option autoImplicit false

namespace SequenceDiagram

/-- Elements that take a slot. -/
def Element.takesRow : Element → Bool
  | .message _ | .note _ | .divider _ | .blankLine | .error _ => true
  | .participant _ | .group _ | .comment _ | .directive _ | .fragment _ => false

namespace Message

theorem sender_of_forward (message : Message) (other : message.sender ≠ message.receiver)
    (direction : message.receiver = message.target) : message.sender = message.source := by
  unfold sender receiver at *
  split at direction
  · rename_i reversed
    simp [reversed, direction] at other
  · rename_i forward
    rw [if_neg forward]

theorem ends_of_backward (message : Message) (direction : message.receiver ≠ message.target) :
    message.sender = message.target ∧ message.receiver = message.source := by
  unfold sender receiver at *
  split at direction
  · rename_i reversed
    simp [reversed]
  · exact absurd rfl direction

end Message

namespace Layout

def Span.Within (inner outer : Span Rat) : Prop :=
  outer.left ≤ inner.left ∧ inner.right ≤ outer.right

theorem Span.overlaps_eq_false {a b : Span Rat} :
    a.overlaps b = false ↔ b.right ≤ a.left ∨ a.right ≤ b.left := by
  simp only [overlaps, Bool.and_eq_false_iff, decide_eq_false_iff_not, not_lt]

theorem Span.Within.between {a b x y : Rat} (hx : min a b ≤ x ∧ x ≤ max a b)
    (hy : min a b ≤ y ∧ y ≤ max a b) : (Span.between x y).Within (.between a b) := by
  simp only [Within, Span.between, Scalar.min_eq_min, Scalar.max_eq_max]
  exact ⟨le_min hx.1 hy.1, max_le hx.2 hy.2⟩

def MessageGeometry.extent {α : Type} [Scalar α] (config : Config α) (message : Message)
    (arrow : MessageGeometry α) : Span α :=
  if message.isSelf then .between arrow.fromX (arrow.fromX + config.selfMessageWidth)
  else arrow.span

def Arrival.Draws (setting : Setting Rat) (arrival : Arrival Rat) (geometry : Geometry Rat) :
    Prop :=
  match arrival.node.element with
  | .message m => ∃ arrow shape, geometry = .message arrow ∧ arrival.shape? setting = some shape ∧
    arrival.slot? setting = some ⟨arrow.endY - arrow.height, arrow.endY⟩ ∧
    (arrow.extent setting.config m).Within shape.span
  | .note _ | .divider _ | .blankLine | .error _ => ∃ rect, geometry = .box rect ∧
    arrival.slot? setting = some ⟨rect.y, rect.bottom⟩
  | .participant _ | .group _ | .comment _ | .directive _ | .fragment _ => False

def IsCentered {α : Type} (columns : Columns α) (key : String) (box : Rect α) : Prop :=
  ∃ column, columns.rect? key = some column ∧ box.x = column.x ∧ box.width = column.width

/-- The edge of a box that a message reaches first is no further away than the box's center. -/
theorem boxEdge_between {columns : Columns Rat} (spaced : columns.IsSpaced)
    {sender receiver : String} (other : sender ≠ receiver) {senderX receiverX : Rat}
    (sent : columns.center? sender = some senderX)
    (received : columns.center? receiver = some receiverX) {box : Rect Rat}
    (centered : IsCentered columns receiver box) :
    min senderX receiverX ≤ Setting.boxEdge senderX box ∧
      Setting.boxEdge senderX box ≤ max senderX receiverX := by
  obtain ⟨column, found, x, width⟩ := centered
  obtain ⟨start, found', rfl⟩ := Option.map_eq_some_iff.1 sent
  obtain ⟨_, same, rfl⟩ := Option.map_eq_some_iff.1 received
  obtain rfl := Option.some.inj (found.symm.trans same)
  have wide := spaced.width _ (Columns.mem_of_rect? found)
  have beside := spaced.beside_or other found' found
  unfold Setting.boxEdge
  simp only [Columns.Beside, Rect.right, Rect.centerX, Scalar.half_rat, x, width] at *
  split
  · rename_i before
    rw [min_eq_left before.le, max_eq_right before.le]
    rcases beside with beside | beside <;> constructor <;> linarith
  · rename_i behind
    rw [min_eq_right (not_lt.1 behind), max_eq_left (not_lt.1 behind)]
    rcases beside with beside | beside <;> constructor <;> linarith

namespace Setting

section
variable {α : Type} [Scalar α] {setting : Setting α} {message : Message}
  {arrow arrow' : MessageGeometry α} {progress after : Progress α}

theorem isCentered_createdBox?
    (centered : ∀ entry ∈ progress.created, IsCentered setting.columns entry.1 entry.2)
    {key : String} {y : α} {box : Rect α} (h : setting.createdBox? key y progress = some box) :
    IsCentered setting.columns key box := by
  unfold createdBox? at h
  split at h
  · rename_i found
    obtain rfl := Option.some.inj h
    exact centered (key, _) (mem_of_lookup found)
  · obtain ⟨column, found, rfl⟩ := Option.map_eq_some_iff.1 h
    exact ⟨column, found, rfl, rfl⟩

theorem Creates.centered (h : setting.Creates message arrow progress arrow' after)
    (centered : ∀ entry ∈ progress.created, IsCentered setting.columns entry.1 entry.2) :
    ∀ entry ∈ after.created, IsCentered setting.columns entry.1 entry.2 := by
  have remembered {box : Rect α}
      (found : setting.createdBox? message.receiver arrow.endY progress = some box) :
      ∀ entry ∈ (remember message.receiver box progress).created,
        IsCentered setting.columns entry.1 entry.2 := by
    intro entry mem
    rcases mem_created_remember mem with rfl | mem
    · exact isCentered_createdBox? centered found
    · exact centered entry mem
  cases h with
  | plain => exact centered
  | hidden box found => exact remembered found
  | forward box found => exact remembered found
  | backward box found => exact remembered found

end

section
variable {setting : Setting Rat} {message : Message} {arrow arrow' : MessageGeometry Rat}
  {progress after : Progress Rat}

theorem Creates.extent (h : setting.Creates message arrow progress arrow' after)
    (spaced : setting.columns.IsSpaced)
    (centered : ∀ entry ∈ progress.created, IsCentered setting.columns entry.1 entry.2)
    (source : setting.columns.center? message.source = some arrow.fromX)
    (target : setting.columns.center? message.target = some arrow.toX) :
    (arrow'.extent setting.config message).Within (arrow.extent setting.config message) := by
  have open' (other : message.sender ≠ message.receiver) : ¬message.isSelf = true := by
    intro self
    have same : message.source = message.target := by simpa [Message.isSelf] using self
    simp [Message.sender, Message.receiver, same] at other
  cases h with
  | plain => exact ⟨le_refl _, le_refl _⟩
  | hidden => exact ⟨le_refl _, le_refl _⟩
  | forward box found other senderX center direction =>
    rw [MessageGeometry.extent, MessageGeometry.extent, if_neg (open' other), if_neg (open' other)]
    rw [message.sender_of_forward other direction, source] at center
    obtain rfl := Option.some.inj center
    exact Span.Within.between ⟨min_le_left _ _, le_max_left _ _⟩
      (boxEdge_between spaced other (message.sender_of_forward other direction ▸ source)
        (direction ▸ target) (isCentered_createdBox? centered found))
  | backward box found other senderX center direction =>
    obtain ⟨sender, receiver⟩ := message.ends_of_backward direction
    rw [MessageGeometry.extent, MessageGeometry.extent, if_neg (open' other), if_neg (open' other)]
    rw [sender, target] at center
    obtain rfl := Option.some.inj center
    have edge := boxEdge_between spaced other (sender ▸ target) (receiver ▸ source)
      (isCentered_createdBox? centered found)
    rw [min_comm, max_comm] at edge
    exact Span.Within.between edge ⟨min_le_right _ _, le_max_right _ _⟩

end

end Setting

/-- The identifier of a node that takes no row. Such a node may be drawn around rows. -/
def HasBackground (document : Document) (id : NodeId) : Prop :=
  ∃ node ∈ document.nodes, node.id = id ∧ node.element.takesRow = false

structure Setting.IsTraced (setting : Setting Rat) (past : List (Arrival Rat))
    (progress : Progress Rat) : Prop where
  drawn : ∀ entry ∈ progress.geometry, HasBackground setting.document entry.1 ∨
    ∃ a ∈ past, a.node.id = entry.1 ∧ a.Draws setting entry.2
  frames : ∀ id ∈ progress.frames, HasBackground setting.document id
  centered : ∀ entry ∈ progress.created, IsCentered setting.columns entry.1 entry.2

namespace Setting.IsTraced
variable {setting : Setting Rat} {past : List (Arrival Rat)} {progress after : Progress Rat}

theorem of_sheet (h : setting.IsTraced past progress) (same : after.sheet = progress.sheet) :
    setting.IsTraced past after := by
  obtain ⟨geometry, created, frames⟩ : _ ∧ _ ∧ _ := by
    simpa only [Progress.sheet, Prod.mk.injEq] using same
  exact ⟨geometry ▸ h.drawn, frames ▸ h.frames, created ▸ h.centered⟩

theorem append (h : setting.IsTraced past progress) (more : List (Arrival Rat)) :
    setting.IsTraced (past ++ more) progress :=
  ⟨fun entry mem => (h.drawn entry mem).imp_right fun ⟨a, before, of⟩ =>
    ⟨a, List.mem_append_left _ before, of⟩, h.frames, h.centered⟩

theorem draw_background (h : setting.IsTraced past progress) {id : NodeId}
    (background : HasBackground setting.document id) (geometry : Geometry Rat) :
    setting.IsTraced past (progress.draw id geometry) := by
  refine ⟨fun entry mem => ?_, h.frames, h.centered⟩
  rcases GeometryMap.mem_insert mem with rfl | mem
  · exact Or.inl background
  · exact h.drawn entry mem

theorem draw_row (h : setting.IsTraced past progress) {a : Arrival Rat} (mem : a ∈ past)
    {geometry : Geometry Rat} (draws : a.Draws setting geometry) :
    setting.IsTraced past (progress.draw a.node.id geometry) := by
  refine ⟨fun entry mem' => ?_, h.frames, h.centered⟩
  rcases GeometryMap.mem_insert mem' with rfl | mem'
  · exact Or.inr ⟨a, mem, rfl, draws⟩
  · exact h.drawn entry mem'

theorem band (h : setting.IsTraced past progress) {node : Node} {x width height : Rat}
    (draws : Arrival.Draws setting ⟨node, progress⟩ (.box ⟨x, progress.cursor, width, height⟩)) :
    setting.IsTraced (past ++ [⟨node, progress⟩])
      ((progress.stack height).draw node.id (.box ⟨x, progress.cursor, width, height⟩)) :=
  have stacked : setting.IsTraced (past ++ [⟨node, progress⟩]) (progress.stack height) :=
    (h.append _).of_sheet rfl
  stacked.draw_row (List.mem_append_right _ (List.mem_singleton_self _)) draws

theorem message (h : setting.IsTraced past progress) (spaced : setting.columns.IsSpaced)
    {node : Node} {m : Message} (element : node.element = .message m) :
    setting.IsTraced (past ++ [⟨node, progress⟩]) (setting.placeMessage node.id m progress) := by
  cases measured : setting.messageShape? progress.entrySpacing m with
  | none =>
    rw [placeMessage, measured]
    exact h.append _
  | some shape =>
    obtain ⟨source, target, span⟩ := span_of_messageShape? measured
    let top := progress.slotTop shape.span
    let counted := countMessage (progress.reserve shape.span shape.height)
    have traced : setting.IsTraced (past ++ [⟨node, progress⟩]) counted :=
      (h.append _).of_sheet (progress.sheet_reserve shape.span shape.height)
    have creates := setting.creates_placeCreated m (shape.arrow progress) counted
    have sheet := setting.sheet_placeMessage node.id measured
    generalize setting.placeCreated m (shape.arrow progress) counted = result
      at creates sheet
    obtain ⟨drawn, created⟩ := result
    have left : setting.IsTraced (past ++ [⟨node, progress⟩]) created :=
      ⟨creates.keeps.1 ▸ traced.drawn, creates.keeps.2 ▸ traced.frames,
        creates.centered traced.centered⟩
    refine IsTraced.of_sheet (left.draw_row
      (List.mem_append_right _ (List.mem_singleton_self (⟨node, progress⟩ : Arrival Rat))) ?_) sheet
    have within := creates.extent spaced traced.centered source target
    have shaped : Arrival.shape? setting ⟨node, progress⟩ = some shape := by
      simp only [Arrival.shape?, element, measured]
    have slot : Arrival.slot? setting ⟨node, progress⟩ = some ⟨top, top + shape.height⟩ := by
      simp only [Arrival.slot?, element, shaped, Option.map_some, top]
    unfold Arrival.Draws
    simp only [element]
    refine ⟨drawn, shape, rfl, shaped, ?_, ?_⟩
    · obtain ⟨-, endY, height⟩ := creates.slot
      rw [slot, endY, height]
      simp only [MessageShape.arrow, MessageShape.height, Option.some.injEq, Slot.mk.injEq]
      constructor <;> linarith
    · rw [span]
      exact within

theorem directive (h : setting.IsTraced past progress) {node : Node} {d : Directive}
    (background : HasBackground setting.document node.id) :
    setting.IsTraced past (setting.applyDirective node.id d progress) := by
  cases d with
  | frame kind title =>
    refine ⟨h.drawn, fun id mem => ?_, h.centered⟩
    rcases List.mem_append.1 mem with mem | mem
    · exact h.frames id mem
    · exact List.mem_singleton.1 mem ▸ background
  | _ => exact h.of_sheet rfl

theorem leaf (h : setting.IsTraced past progress) (spaced : setting.columns.IsSpaced)
    {node : Node} (mem : node ∈ setting.document.nodes) :
    setting.IsTraced (past ++ [⟨node, progress⟩]) (setting.placeLeaf node progress) := by
  obtain ⟨id, lineStart, lineEnd, element⟩ := node
  cases element with
  | message m => exact h.message spaced rfl
  | note n =>
    change setting.IsTraced _ (setting.placeNote id n progress)
    unfold placeNote
    split
    · exact h.band ⟨_, rfl, rfl⟩
    · exact h.band ⟨_, rfl, rfl⟩
  | divider d => exact h.band ⟨_, rfl, rfl⟩
  | blankLine => exact h.band ⟨_, rfl, rfl⟩
  | error fault => exact h.band ⟨_, rfl, rfl⟩
  | directive d => exact (h.append _).directive ⟨_, mem, rfl, rfl⟩
  | _ => exact h.append _

end Setting.IsTraced

/-- All along a tour, what has been drawn is known by its node. -/
theorem Setting.preserves_isTraced {setting : Setting Rat} (spaced : setting.columns.IsSpaced)
    {nodes : List Node} (known : nodes ⊆ setting.document.nodes) :
    setting.Preserves nodes (fun _ _ => True) setting.IsTraced where
  leaf _ mem _ _ traced := ⟨trivial, traced.leaf spaced (known mem)⟩
  enter f _ progress traced := traced.of_sheet (sheet_enterFragment setting f progress)
  clause _ _ _ _ traced := traced.of_sheet rfl
  leave node mem f element _ _ linear parallel _ progress traced := by
    have background : HasBackground setting.document node.id :=
      ⟨node, known mem, rfl, by rw [element]; rfl⟩
    have left := traced.of_sheet
      (setting.sheet_leaveFragment f (endSection linear parallel progress))
    exact left.draw_background background _

end Layout

end SequenceDiagram
