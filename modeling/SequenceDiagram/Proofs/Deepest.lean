import SequenceDiagram.Proofs.Activations
import SequenceDiagram.Proofs.Headway

set_option autoImplicit false

namespace SequenceDiagram.Layout

namespace ActivationTracker

structure EndsBy (y : Rat) (tracker : ActivationTracker Rat) : Prop where
  active : ∀ activation ∈ tracker.active, activation.startY ≤ y
  finished : ∀ interval ∈ tracker.finished, interval.endY ≤ y

namespace EndsBy
variable {y y' : Rat} {tracker : ActivationTracker Rat}

theorem mono (h : tracker.EndsBy y) (le : y ≤ y') : tracker.EndsBy y' :=
  ⟨fun activation mem => (h.active activation mem).trans le,
    fun interval mem => (h.finished interval mem).trans le⟩

theorem activate (h : tracker.EndsBy y) (participant : String) (le : y' ≤ y)
    (color : Option String) : (tracker.activate participant y' color).EndsBy y :=
  ⟨List.forall_mem_cons.2 ⟨le, h.active⟩, h.finished⟩

theorem interval {activation : OpenActivation Rat} (started : activation.startY ≤ y)
    (le : y' ≤ y) (depth : Nat) :
    (ActivationTracker.interval activation y' depth).endY ≤ y :=
  (Scalar.max_eq_max _ _).trans_le (max_le le started)

theorem deactivate (h : tracker.EndsBy y) (participant : String) (le : y' ≤ y) :
    (tracker.deactivate participant y').EndsBy y := by
  rw [ActivationTracker.deactivate]
  cases closes : tracker.deactivate? participant y' with
  | none => exact h
  | some closed =>
    obtain ⟨earlier, activation, rest, -, -, parts, rfl⟩ := deactivate?_eq_some closes
    have active := h.active
    rw [parts] at active
    obtain ⟨before, inner⟩ := List.forall_mem_append.1 active
    obtain ⟨started, after⟩ := List.forall_mem_cons.1 inner
    exact ⟨List.forall_mem_append.2 ⟨before, after⟩,
      List.forall_mem_cons.2 ⟨interval started le _, h.finished⟩⟩

theorem deactivateTimes (h : tracker.EndsBy y) (participant : String) (le : y' ≤ y)
    (count : Nat) : (ActivationTracker.deactivateTimes participant y' count tracker).EndsBy y := by
  induction count generalizing tracker with
  | zero => exact h
  | succ count ih => exact ih (h.deactivate participant le)

theorem deactivateAll (h : tracker.EndsBy y) (participant : String) (le : y' ≤ y) :
    (tracker.deactivateAll participant y').EndsBy y :=
  have closed := h.deactivateTimes participant le (tracker.depth participant)
  ⟨closed.active, closed.finished⟩

theorem onMessage (h : tracker.EndsBy y) (sender receiver : String) {sendY arriveY : Rat}
    (sent : sendY ≤ y) (arrived : arriveY ≤ y) :
    (tracker.onMessage sender receiver sendY arriveY).EndsBy y := by
  unfold ActivationTracker.onMessage
  dsimp only
  split
  · have answered : EndsBy y { tracker with calls := tracker.calls.erase ⟨receiver, sender⟩ } :=
      ⟨h.active, h.finished⟩
    exact answered.deactivate sender sent
  · split
    · have opened := h.activate receiver arrived none
      exact ⟨opened.active, opened.finished⟩
    · exact h

theorem finish (h : tracker.EndsBy y) (le : y ≤ y') :
    ∀ interval ∈ tracker.finish y', interval.endY ≤ y' := by
  have closing (active : List (OpenActivation Rat)) (started : ∀ a ∈ active, a.startY ≤ y') :
      ∀ interval ∈ ActivationTracker.closing y' active, interval.endY ≤ y' := by
    induction active with
    | nil => exact fun _ mem => absurd mem List.not_mem_nil
    | cons activation rest ih =>
      obtain ⟨first, later⟩ := List.forall_mem_cons.1 started
      exact List.forall_mem_cons.2 ⟨interval first (le_refl _) _, ih later⟩
  intro interval mem
  rcases List.mem_append.1 ((List.mergeSort_perm _ _).mem_iff.1 mem) with mem | mem
  · exact (h.finished interval (List.mem_reverse.1 mem)).trans le
  · exact closing _ (fun activation mem => (h.active activation mem).trans le) interval mem

end EndsBy

end ActivationTracker

/-- What has been noted for later has been noted no deeper than the cursor has come. Boxes that
messages created have the height of all boxes and their middle where the message arrived. -/
structure Setting.IsNoted (setting : Setting Rat) (low : Rat) (progress : Progress Rat) : Prop where
  created : ∀ entry ∈ progress.created, entry.2.height = setting.config.participantHeight ∧
    low ≤ entry.2.y + entry.2.height / 2 ∧ entry.2.y + entry.2.height / 2 ≤ progress.reach
  endings : ∀ entry ∈ progress.endings, entry.2.y ≤ progress.reach
  activations : progress.activations.EndsBy progress.reach

namespace Setting.IsNoted
open Progress

variable {setting : Setting Rat} {low : Rat} {progress after : Progress Rat}

theorem mono (h : setting.IsNoted low progress) (reach : progress.reach ≤ after.reach)
    (created : after.created = progress.created) (endings : after.endings = progress.endings)
    (activations : after.activations = progress.activations) : setting.IsNoted low after := by
  refine ⟨?_, ?_, activations ▸ h.activations.mono reach⟩
  · rw [created]
    exact fun entry mem => let ⟨height, above, below⟩ := h.created entry mem
      ⟨height, above, below.trans reach⟩
  · rw [endings]
    exact fun entry mem => (h.endings entry mem).trans reach

theorem activations_of (h : setting.IsNoted low progress) {tracker : ActivationTracker Rat}
    (ends : tracker.EndsBy progress.reach) :
    setting.IsNoted low { progress with activations := tracker } :=
  ⟨h.created, h.endings, ends⟩

theorem draw (h : setting.IsNoted low progress) (id : NodeId) (geometry : Geometry Rat) :
    setting.IsNoted low (progress.draw id geometry) :=
  ⟨h.created, h.endings, h.activations⟩

theorem endLifeline (h : setting.IsNoted low progress) (key : String) {y : Rat}
    (le : y ≤ progress.reach) (kind : LifelineEnd) :
    setting.IsNoted low (progress.endLifeline key y kind) := by
  refine ⟨h.created, ?_, h.activations.deactivateAll key le⟩
  unfold Progress.endLifeline
  dsimp only
  split
  · exact h.endings
  · exact List.forall_mem_cons.2 ⟨le, h.endings⟩

theorem destroyDoomed (h : setting.IsNoted low progress) {y : Rat} (le : y ≤ progress.reach)
    (key : String) : setting.IsNoted low (progress.destroyDoomed y key) := by
  unfold Progress.destroyDoomed
  split
  · have spared :
        setting.IsNoted low { progress with doomed := progress.doomed.filter (· ≠ key) } :=
      h.mono (le_refl _) rfl rfl rfl
    exact spared.endLifeline key le _
  · exact h

theorem reach_remember (key : String) (box : Rect Rat) (progress : Progress Rat) :
    (remember key box progress).reach = progress.reach := by
  unfold remember
  split <;> rfl

theorem remember (h : setting.IsNoted low progress) {key : String} {box : Rect Rat}
    (height : box.height = setting.config.participantHeight)
    (above : low ≤ box.y + box.height / 2) (below : box.y + box.height / 2 ≤ progress.reach) :
    setting.IsNoted low (Setting.remember key box progress) := by
  unfold Setting.remember
  split
  · exact h
  · exact ⟨List.forall_mem_cons.2 ⟨⟨height, above, below⟩, h.created⟩, h.endings, h.activations⟩

/-- A box is put where the message arrives that creates it, unless it has been put before. -/
theorem createdBox? (h : setting.IsNoted low progress)
    (even : ∀ box ∈ setting.columns.boxes, box.2.height = setting.config.participantHeight)
    {key : String} {y : Rat} (above : low ≤ y) (below : y ≤ progress.reach) {box : Rect Rat}
    (found : setting.createdBox? key y progress = some box) :
    box.height = setting.config.participantHeight ∧ low ≤ box.y + box.height / 2 ∧
      box.y + box.height / 2 ≤ progress.reach := by
  unfold Setting.createdBox? at found
  split at found
  · rename_i known
    obtain rfl := Option.some.inj found
    exact h.created (key, _) (mem_of_lookup known)
  · obtain ⟨column, known, rfl⟩ := Option.map_eq_some_iff.1 found
    have middle : y - Scalar.half column.height + column.height / 2 = y := sub_add_cancel y _
    dsimp only
    rw [middle]
    exact ⟨even _ (Columns.mem_of_rect? known), above, below⟩

theorem placeCreated (h : setting.IsNoted low progress)
    (even : ∀ box ∈ setting.columns.boxes, box.2.height = setting.config.participantHeight)
    (m : Message) {arrow : MessageGeometry Rat} (above : low ≤ arrow.endY)
    (below : arrow.endY ≤ progress.reach) :
    setting.IsNoted low (setting.placeCreated m arrow progress).2 ∧
      (setting.placeCreated m arrow progress).2.reach = progress.reach := by
  have creates := setting.creates_placeCreated m arrow progress
  generalize setting.placeCreated m arrow progress = result at creates ⊢
  obtain ⟨drawn, created⟩ := result
  have remembered {box : Rect Rat}
      (found : setting.createdBox? m.receiver arrow.endY progress = some box) :
      setting.IsNoted low (Setting.remember m.receiver box progress) ∧
        (Setting.remember m.receiver box progress).reach = progress.reach :=
    have ⟨height, above, below⟩ := h.createdBox? even above below found
    ⟨h.remember height above below, reach_remember _ _ _⟩
  cases creates with
  | plain => exact ⟨h, rfl⟩
  | hidden box found => exact remembered found
  | forward box found => exact remembered found
  | backward box found => exact remembered found

theorem of_reserve (h : setting.IsNoted low progress) (keeps : progress.KeepsBelow low)
    (span : Span Rat) {height : Rat} (nonneg : 0 ≤ height) :
    setting.IsNoted low (countMessage (progress.reserve span height)) := by
  have reach := (keeps.reserve span nonneg).1.reach_le
  unfold Progress.reserve at reach ⊢
  split
  · rename_i packing
    rw [if_pos packing] at reach
    exact h.mono reach rfl rfl rfl
  · rename_i single
    rw [if_neg single] at reach
    exact h.mono reach rfl rfl rfl

theorem reach_destroyDoomed (progress : Progress Rat) (y : Rat) (key : String) :
    (progress.destroyDoomed y key).reach = progress.reach := by
  unfold Progress.destroyDoomed
  split <;> rfl

variable (valid : setting.config.validate = .ok ())
  (even : ∀ box ∈ setting.columns.boxes, box.2.height = setting.config.participantHeight)
include valid even

theorem placeMessage (h : setting.IsNoted low progress) (keeps : progress.KeepsBelow low)
    (id : NodeId) (m : Message) : setting.IsNoted low (setting.placeMessage id m progress) := by
  cases measured : setting.messageShape? progress.entrySpacing m with
  | none =>
    rw [Setting.placeMessage, measured]
    exact h
  | some shape =>
    obtain ⟨lead, delay, loop⟩ := MessageShape.measures valid keeps.spacing measured
    have height := MessageShape.height_pos valid keeps.spacing measured
    have top := keeps.slotTop shape.span
    have bottom := (keeps.reserve shape.span height.le).2
    let arrow := shape.arrow progress
    let counted := countMessage (progress.reserve shape.span shape.height)
    have slot : low ≤ arrow.endY ∧ arrow.y ≤ arrow.endY ∧ arrow.endY ≤ counted.reach := by
      have deep : (progress.reserve shape.span shape.height).cursor ≤ counted.reach :=
        counted.cursor_le_reach
      simp only [MessageShape.height] at bottom
      simp only [arrow, MessageShape.arrow]
      refine ⟨by linarith, by linarith, le_trans ?_ deep⟩
      simp only [MessageShape.height]
      linarith
    obtain ⟨above, falls, below⟩ := slot
    obtain ⟨placed, reach⟩ := (h.of_reserve keeps shape.span height.le).placeCreated even m
      above below
    rw [Setting.placeMessage, measured]
    refine IsNoted.draw ?_ id _
    change setting.IsNoted low ((Progress.destroyDoomed
      { (setting.placeCreated m arrow counted).2 with
        activations := (setting.placeCreated m arrow counted).2.activations.onMessage m.sender
          m.receiver arrow.y arrow.endY } arrow.endY m.source).destroyDoomed arrow.endY m.target)
    rw [← reach] at below
    generalize (setting.placeCreated m arrow counted).2 = created at placed below ⊢
    have activated := placed.activations_of
      (placed.activations.onMessage m.sender m.receiver (falls.trans below) below)
    refine IsNoted.destroyDoomed (activated.destroyDoomed below m.source) ?_ m.target
    rw [reach_destroyDoomed]
    exact below

omit even in
theorem applyDirective (h : setting.IsNoted low progress) (keeps : progress.KeepsBelow low)
    (ahead : low ≤ setting.bodyTop) (id : NodeId) (directive : Directive) :
    setting.IsNoted low (setting.applyDirective id directive progress) := by
  have here := progress.cursor_le_reach
  have closed : setting.IsNoted low progress.closeLevel := h.mono (le_refl _) rfl rfl rfl
  cases directive with
  | space steps =>
    exact h.mono (keepsBelow_placeSpace valid keeps (Or.inl ahead)).2.1 rfl rfl rfl
  | activate key color => exact h.activations_of (h.activations.activate key here color)
  | deactivate key => exact h.activations_of (h.activations.deactivate key here)
  | deactivateAfter key => exact h.activations_of (h.activations.deactivate key here)
  | autoActivation on => exact h.activations_of ⟨h.activations.active, h.activations.finished⟩
  | activeColor color => exact h.activations_of ⟨h.activations.active, h.activations.finished⟩
  | destroy key =>
    have deeper : (0 : Rat) ≤ setting.config.destroyHeight :=
      Config.nonneg_of_validate valid (by simp [Config.fields])
    exact (closed.endLifeline key here .destroyed).mono
      (max_le_max (le_add_of_nonneg_right deeper) (le_refl _)) rfl rfl rfl
  | destroySilent key => exact h.endLifeline key here .silent
  | _ => exact h.mono (le_refl _) rfl rfl rfl

theorem placeLeaf (h : setting.IsNoted low progress) (keeps : progress.KeepsBelow low)
    (ahead : low ≤ setting.bodyTop) (node : Node) :
    setting.IsNoted low (setting.placeLeaf node progress) := by
  have reach : progress.reach ≤ (setting.placeLeaf node progress).reach :=
    (keepsBelow_placeLeaf valid keeps (Or.inl ahead)).2.1
  obtain ⟨id, lineStart, lineEnd, element⟩ := node
  cases element with
  | message m => exact h.placeMessage valid even keeps id m
  | directive d => exact h.applyDirective valid keeps ahead id d
  | note n =>
    change setting.IsNoted low (setting.placeNote id n progress)
    change _ ≤ (setting.placeNote id n progress).reach at reach
    rw [placeNote_eq] at reach ⊢
    exact h.mono reach rfl rfl rfl
  | divider => exact h.mono reach rfl rfl rfl
  | blankLine => exact h.mono reach rfl rfl rfl
  | error => exact h.mono reach rfl rfl rfl
  | _ => exact h

/-- While nodes are placed, nothing is noted deeper than the cursor has come. -/
theorem run (h : setting.IsNoted low progress) (keeps : progress.KeepsBelow low)
    (ahead : low ≤ setting.bodyTop) {nodes : List Node} {after : Progress Rat}
    (steps : setting.Reaches nodes progress after) : setting.IsNoted low after := by
  have below {after : Progress Rat} (steps : setting.Reaches nodes progress after) :=
    (Reaches.keepsBelow valid keeps (Or.inl ahead) steps).1
  induction steps with
  | refl => exact h
  | leaf steps _ ih => exact ih.placeLeaf valid even (below steps) ahead _
  | enter steps f ih =>
    refine ih.mono (advances_enterFragment valid (below steps) f).reach_le ?_ ?_ ?_ <;>
      (unfold enterFragment; split <;> rfl)
  | clause steps ih => exact ih.mono (advances_enterElse valid (below steps)).reach_le rfl rfl rfl
  | ended steps linear parallel ih => exact ih.mono (le_refl _) rfl rfl rfl
  | leave steps f ih =>
    refine ih.mono (advances_leaveFragment valid (below steps) f).reach_le ?_ ?_ ?_ <;>
      (unfold leaveFragment; split <;> rfl)
  | frame steps _ f top elseYs ih => exact ih.draw _ _

end Setting.IsNoted

theorem isNoted_beginning (document : Document) (config : Config Rat) (low : Rat) :
    (setting document config).IsNoted low (document.beginning config) := by
  have start : (setting document config).IsNoted low
      (Progress.start (setting document config).bodyTop) :=
    ⟨fun _ mem => absurd mem List.not_mem_nil, fun _ mem => absurd mem List.not_mem_nil,
      fun _ mem => absurd mem List.not_mem_nil, fun _ mem => absurd mem List.not_mem_nil⟩
  unfold Document.beginning drawTitle
  split
  · exact start.draw _ _
  · exact start

end SequenceDiagram.Layout
