import SequenceDiagram.Proofs.Ledger

set_option autoImplicit false

namespace SequenceDiagram

namespace Layout

namespace Columns

def stretch (low high : Nat) (spread : List Rat) : Rat :=
  ((spread.drop low).take (high - low)).sum

theorem Exceeds.stretch_le {large small : List Rat} (grown : Exceeds large small)
    (length : large.length = small.length) (low high : Nat) :
    stretch low high small ≤ stretch low high large := by
  have each : List.Forall₂ (· ≤ ·) small large := by
    refine List.forall₂_iff_get.2 ⟨length.symm, fun i h h' => ?_⟩
    obtain ⟨y, found, le⟩ := grown i _ (List.getElem?_eq_getElem h)
    rw [List.getElem?_eq_getElem h'] at found
    exact le.trans (Option.some.inj found).ge
  exact (List.forall₂_take _ (List.forall₂_drop _ each)).sum_le_sum

/-- There is room for the label of a message between two columns, or for the loop and the label of
a message from a column to itself that has a neighbour. -/
def HasRoom (config : Config Rat) (roster : List String) (spread : List Rat) (message : Message) :
    Prop :=
  let source := roster.idxOf message.source
  let target := roster.idxOf message.target
  let label := paddedWidth config message.label
  if source = target then
    source < spread.length → config.selfMessageWidth + label ≤ stretch source (source + 1) spread
  else label ≤ stretch (min source target) (max source target) spread

section
variable {config : Config Rat} {roster : List String} {spread : List Rat} {message : Message}

theorem HasRoom.mono (room : HasRoom config roster spread message) {spread' : List Rat}
    (grown : Exceeds spread' spread) (length : spread'.length = spread.length) :
    HasRoom config roster spread' message := by
  unfold HasRoom at room ⊢
  dsimp only at room ⊢
  split at room
  · rename_i self
    rw [if_pos self, length]
    exact fun next => (room next).trans (grown.stretch_le length _ _)
  · rename_i other
    rw [if_neg other]
    exact room.trans (grown.stretch_le length _ _)

end

def settled (document : Document) (config : Config Rat) : List Rat :=
  document.messages.foldl (widenFor config document.roster)
    (distances (gap document config) (widths document config))

end Columns

end Layout

namespace Layout.Setting
variable {α : Type} [Scalar α] {setting : Setting α}

theorem centered_placeLeaf {progress : Progress α}
    (centered : ∀ entry ∈ progress.created, IsCentered setting.columns entry.1 entry.2)
    (node : Node) :
    ∀ entry ∈ (setting.placeLeaf node progress).created,
      IsCentered setting.columns entry.1 entry.2 := by
  obtain ⟨id, lineStart, lineEnd, element⟩ := node
  cases element with
  | message m =>
    change ∀ entry ∈ (setting.placeMessage id m progress).created, _
    cases measured : setting.messageShape? progress.entrySpacing m with
    | none =>
      rw [placeMessage, measured]
      exact centered
    | some shape =>
      have sheet := congrArg (fun sheet => sheet.2.1) (setting.sheet_placeMessage id measured)
      have reserved := congrArg (fun sheet => sheet.2.1)
        (progress.sheet_reserve shape.span shape.height)
      have creates := setting.creates_placeCreated m (shape.arrow progress)
        (countMessage (progress.reserve shape.span shape.height))
      dsimp only [Progress.sheet] at sheet reserved
      rw [sheet]
      refine creates.centered fun entry mem => centered entry ?_
      rwa [← reserved]
  | note n =>
    change ∀ entry ∈ (setting.placeNote id n progress).created, _
    rw [placeNote_eq]
    exact centered
  | directive d => cases d <;> exact centered
  | _ => exact centered

theorem Reaches.centered {nodes : List Node} {first second : Progress α}
    (steps : setting.Reaches nodes first second)
    (centered : ∀ entry ∈ first.created, IsCentered setting.columns entry.1 entry.2) :
    ∀ entry ∈ second.created, IsCentered setting.columns entry.1 entry.2 := by
  induction steps with
  | refl => exact centered
  | leaf _ _ ih => exact centered_placeLeaf ih _
  | @enter progress _ f ih =>
    have kept := congrArg (fun sheet => sheet.2.1) (setting.sheet_enterFragment f progress)
    dsimp only [Progress.sheet] at kept
    rwa [kept]
  | clause _ ih => exact ih
  | ended _ linear parallel ih => exact ih
  | @leave progress _ f ih =>
    have kept := congrArg (fun sheet => sheet.2.1) (setting.sheet_leaveFragment f progress)
    dsimp only [Progress.sheet] at kept
    rwa [kept]
  | frame _ _ f top elseYs ih => exact ih

end Layout.Setting

namespace Document
open Layout
variable {α : Type} [Scalar α]

/-- Messages move boxes down, and at the end everything moves to the right alike, or stays: boxes on
the canvas stand and are as wide as their columns. -/
theorem strips_layout (document : Document) (config : Config α) :
    ∃ move : α → α, (move = id ∨ ∃ dx, move = (· + dx)) ∧
      (document.layout config).boxes.map (fun box => (box.1, box.2.x, box.2.width)) =
        (setting document config).columns.boxes.map fun column =>
          (column.1, move column.2.x, column.2.width) := by
  let drawn := placeAll (setting document config)
  have centered := (document.reaches_placeAll config).centered fun entry mem => by
    unfold beginning drawTitle at mem
    split at mem <;> exact absurd mem List.not_mem_nil
  have once : (setting document config).columns.order.Nodup :=
    (Columns.order_ofDocument document config _).symm ▸ document.nodup_roster
  have plain : ((setting document config).finalBoxes drawn).map
      (fun box => (box.1, box.2.x, box.2.width)) =
      (setting document config).columns.boxes.map fun column =>
        (column.1, column.2.x, column.2.width) := by
    rw [Setting.finalBoxes, List.map_map]
    refine List.map_congr_left fun column mem => ?_
    cases created : drawn.created.lookup column.1 with
    | none => simp [created]
    | some box =>
      obtain ⟨start, found, x, width⟩ : IsCentered (setting document config).columns column.1 box :=
        centered _ (mem_of_lookup created)
      obtain rfl := Option.some.inj ((lookup_of_mem once mem).symm.trans found)
      simp [created, x, width]
  obtain ⟨geometry, frame, framed⟩ := document.exists_layout config
  rw [framed]
  change ∃ move : α → α, _ ∧ (Canvas.moveIn _ _).boxes.map _ = _
  unfold Canvas.moveIn
  split
  · exact ⟨id, Or.inl rfl, plain⟩
  · split
    · rename_i left _ _
      refine ⟨_, Or.inr ⟨config.margin - left, rfl⟩, ?_⟩
      have moved := congrArg (List.map fun strip : String × α × α =>
        (strip.1, strip.2.1 + (config.margin - left), strip.2.2)) plain
      rw [List.map_map, List.map_map] at moved
      exact List.map_map.trans moved
    · exact ⟨id, Or.inl rfl, plain⟩

def mentions (document : Document) : List String :=
  document.nodes.flatMap fun node => node.element.mentions

section
variable (document : Document) (config : Config Rat)

end

end Document

end SequenceDiagram
