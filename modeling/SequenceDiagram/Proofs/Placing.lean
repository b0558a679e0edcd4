import SequenceDiagram.Proofs.Drawn

set_option autoImplicit false

namespace SequenceDiagram

def Element.asksFrame : Element → Bool
  | .directive (.frame _ _) => true
  | _ => false

/-- Every tree of a tour that is placed, with what stands under its node. Only fragments are gone
into. -/
def Tour.trees : Tour → List (Node × Tour)
  | .nil => []
  | .tree node body next =>
    (node, body) :: ((match node.element with
      | .fragment _ => trees body
      | _ => []) ++ trees next)
  | .mark _ next => trees next

section
variable (node : Node) (body next : Tour)

theorem Tour.subset_body : body.labels ⊆ (Forest.tree node body next : Tour).labels :=
  fun _ mem => List.mem_cons_of_mem _ (List.mem_append_left _ mem)

theorem Tour.subset_next : next.labels ⊆ (Forest.tree node body next : Tour).labels :=
  fun _ mem => List.mem_cons_of_mem _ (List.mem_append_right _ mem)

theorem Tour.subset_tree : node :: body.labels ⊆ (Forest.tree node body next : Tour).labels :=
  List.cons_subset_cons _ (List.subset_append_left _ _)

end

namespace Layout
open Tour

namespace GeometryMap
variable {α : Type}

theorem get?_insert_of_ne (map : GeometryMap α) {id other : NodeId} (apart : other ≠ id)
    (geometry : Geometry α) : (map.insert id geometry).get? other = map.get? other := by
  have kept : (map.filter fun entry => entry.1 ≠ id).lookup other = map.lookup other := by
    induction map with
    | nil => rfl
    | cons entry map ih =>
      obtain ⟨key, value⟩ := entry
      by_cases same : key = id
      · have foreign : (other == key) = false := by simpa [same] using apart
        rw [List.filter_cons_of_neg (by simpa using same), ih, List.lookup_cons, foreign]
      · rw [List.filter_cons_of_pos (by simpa using same), List.lookup_cons, List.lookup_cons, ih]
  have foreign : (other == id) = false := by simpa using apart
  rw [get?, insert, List.lookup_cons, foreign]
  exact kept

end GeometryMap

section
variable {α : Type} [Scalar α]

namespace Setting

def bandRect (setting : Setting α) (progress : Progress α) (height : α) : Rect α :=
  ⟨setting.band.1, progress.cursor, setting.band.2, height⟩

def noteRect (setting : Setting α) (note : Note) (progress : Progress α) : Rect α :=
  let height := noteHeight setting.config note.text
  match note.participants.filterMap setting.columns.center? with
  | [] => setting.bandRect progress height
  | anchor :: others =>
    let extent := noteExtent setting.config note anchor others
    ⟨extent.1, progress.cursor, extent.2, height⟩

theorem placeNote_eq (setting : Setting α) (id : NodeId) (note : Note) (progress : Progress α) :
    setting.placeNote id note progress =
      (progress.stack (noteHeight setting.config note.text)).draw id
        (.box (setting.noteRect note progress)) := by
  unfold placeNote noteRect
  cases note.participants.filterMap setting.columns.center? <;> rfl

end Setting

def Arrival.drawing? (setting : Setting α) (arrival : Arrival α) : Option (Geometry α) :=
  let progress := arrival.before
  match arrival.node.element with
  | .message m => (setting.messageShape? progress.entrySpacing m).map fun shape =>
    .message (setting.placeCreated m (shape.arrow progress)
      (Setting.countMessage (progress.reserve shape.span shape.height))).1
  | .note n => some (.box (setting.noteRect n progress))
  | .divider _ => some (.box (setting.bandRect progress setting.config.dividerHeight))
  | .blankLine => some (.box (setting.bandRect progress setting.config.blankHeight))
  | .error _ => some (.box (setting.bandRect progress setting.config.errorHeight))
  | .participant _ | .group _ | .comment _ | .directive _ | .fragment _ => none

namespace Setting
variable {setting : Setting α}

/-- Placing a node draws that node and asks for a frame if the node is a frame directive. -/
theorem writes_placeLeaf (node : Node) (progress : Progress α) :
    (setting.placeLeaf node progress).geometry =
        (Arrival.drawing? setting ⟨node, progress⟩).elim progress.geometry
          (progress.geometry.insert node.id) ∧
      (setting.placeLeaf node progress).frames =
        if node.element.asksFrame then progress.frames ++ [node.id] else progress.frames := by
  obtain ⟨id, lineStart, lineEnd, element⟩ := node
  cases element with
  | message m =>
    change (setting.placeMessage id m progress).geometry = _ ∧
      (setting.placeMessage id m progress).frames = progress.frames
    unfold Arrival.drawing?
    dsimp only
    cases measured : setting.messageShape? progress.entrySpacing m with
    | none =>
      rw [placeMessage, measured]
      exact ⟨rfl, rfl⟩
    | some shape =>
      have sheet := setting.sheet_placeMessage id measured
      have keeps := (setting.creates_placeCreated m (shape.arrow progress)
        (countMessage (progress.reserve shape.span shape.height))).keeps
      have reserved := progress.sheet_reserve shape.span shape.height
      obtain ⟨geometry, -, frames⟩ : _ ∧ _ ∧ _ := by
        simpa only [Progress.sheet, Prod.mk.injEq] using sheet
      obtain ⟨geometry', -, frames'⟩ : _ ∧ _ ∧ _ := by
        simpa only [Progress.sheet, Prod.mk.injEq] using reserved
      refine ⟨?_, frames.trans (keeps.2.trans frames')⟩
      rw [geometry, Progress.draw]
      exact congrArg (GeometryMap.insert · id _) (keeps.1.trans geometry')
  | note n =>
    change (setting.placeNote id n progress).geometry = _ ∧
      (setting.placeNote id n progress).frames = progress.frames
    rw [placeNote_eq]
    exact ⟨rfl, rfl⟩
  | directive d => cases d <;> exact ⟨rfl, rfl⟩
  | _ => exact ⟨rfl, rfl⟩

theorem get?_placeLeaf_self (node : Node) (progress : Progress α) :
    (setting.placeLeaf node progress).geometry.get? node.id =
      (Arrival.drawing? setting ⟨node, progress⟩).or (progress.geometry.get? node.id) := by
  rw [(writes_placeLeaf node progress).1]
  cases Arrival.drawing? setting ⟨node, progress⟩ with
  | none => rfl
  | some geometry => exact GeometryMap.get?_insert_self _ _ _

theorem get?_placeLeaf_of_ne {node : Node} {id : NodeId} (apart : id ≠ node.id)
    (progress : Progress α) :
    (setting.placeLeaf node progress).geometry.get? id = progress.geometry.get? id := by
  rw [(writes_placeLeaf node progress).1]
  cases Arrival.drawing? setting ⟨node, progress⟩ with
  | none => rfl
  | some geometry => exact GeometryMap.get?_insert_of_ne _ apart _

inductive Reaches (setting : Setting α) (nodes : List Node) (before : Progress α) :
    Progress α → Prop
  | refl : Reaches setting nodes before before
  | leaf {progress : Progress α} (steps : Reaches setting nodes before progress) {node : Node}
      (mem : node ∈ nodes) : Reaches setting nodes before (setting.placeLeaf node progress)
  | enter {progress : Progress α} (steps : Reaches setting nodes before progress) (f : Fragment) :
      Reaches setting nodes before (setting.enterFragment f progress)
  | clause {progress : Progress α} (steps : Reaches setting nodes before progress) :
      Reaches setting nodes before (setting.enterElse progress)
  | ended {progress : Progress α} (steps : Reaches setting nodes before progress)
      (linear parallel : Bool) :
      Reaches setting nodes before (endSection linear parallel progress)
  | leave {progress : Progress α} (steps : Reaches setting nodes before progress) (f : Fragment) :
      Reaches setting nodes before (setting.leaveFragment f progress)
  | frame {progress : Progress α} (steps : Reaches setting nodes before progress) {node : Node}
      (mem : node ∈ nodes) (f : Fragment) (top : α) (elseYs : List α) :
      Reaches setting nodes before (setting.drawFragment node f top elseYs progress)

namespace Reaches
variable {nodes nodes' : List Node} {first second third : Progress α}

theorem trans (early : setting.Reaches nodes first second)
    (late : setting.Reaches nodes second third) : setting.Reaches nodes first third := by
  induction late with
  | refl => exact early
  | leaf _ mem ih => exact ih.leaf mem
  | enter _ f ih => exact ih.enter f
  | clause _ ih => exact ih.clause
  | ended _ linear parallel ih => exact ih.ended linear parallel
  | leave _ f ih => exact ih.leave f
  | frame _ mem f top elseYs ih => exact ih.frame mem f top elseYs

theorem mono (steps : setting.Reaches nodes first second) (more : nodes ⊆ nodes') :
    setting.Reaches nodes' first second := by
  induction steps with
  | refl => exact .refl
  | leaf _ mem ih => exact ih.leaf (more mem)
  | enter _ f ih => exact ih.enter f
  | clause _ ih => exact ih.clause
  | ended _ linear parallel ih => exact ih.ended linear parallel
  | leave _ f ih => exact ih.leave f
  | frame _ mem f top elseYs ih => exact ih.frame (more mem) f top elseYs

/-- Only the nodes that are placed are drawn. -/
theorem get?_eq (steps : setting.Reaches nodes first second) {id : NodeId}
    (apart : ∀ node ∈ nodes, id ≠ node.id) :
    second.geometry.get? id = first.geometry.get? id := by
  induction steps with
  | refl => rfl
  | leaf _ mem ih => exact (get?_placeLeaf_of_ne (apart _ mem) _).trans ih
  | enter _ f ih => rwa [geometry_enterFragment]
  | clause _ ih => exact ih
  | ended _ linear parallel ih => exact ih
  | leave _ f ih => rwa [geometry_leaveFragment]
  | frame _ mem f top elseYs ih =>
    rw [← ih]
    exact GeometryMap.get?_insert_of_ne _ (apart _ mem) _

/-- Frames that were asked for are not forgotten. -/
theorem frames_subset (steps : setting.Reaches nodes first second) :
    first.frames ⊆ second.frames := by
  induction steps with
  | refl => exact List.Subset.refl _
  | leaf _ mem ih =>
    refine List.Subset.trans ih ?_
    rw [(writes_placeLeaf _ _).2]
    split
    · exact List.subset_append_left _ _
    · exact List.Subset.refl _
  | enter _ f ih => rwa [frames_enterFragment]
  | clause _ ih => exact ih
  | ended _ linear parallel ih => exact ih
  | leave _ f ih => rwa [frames_leaveFragment]
  | frame _ mem f top elseYs ih => exact ih

/-- Only frame directives ask for frames. -/
theorem exists_of_mem_frames (steps : setting.Reaches nodes first second) {id : NodeId}
    (mem : id ∈ second.frames) :
    id ∈ first.frames ∨ ∃ node ∈ nodes, node.id = id ∧ node.element.asksFrame = true := by
  induction steps with
  | refl => exact Or.inl mem
  | @leaf progress _ node known ih =>
    rw [(writes_placeLeaf node progress).2] at mem
    split at mem
    · rename_i asks
      rcases List.mem_append.1 mem with mem | mem
      · exact ih mem
      · exact Or.inr ⟨node, known, (List.mem_singleton.1 mem).symm, asks⟩
    · exact ih mem
  | enter _ f ih => exact ih (setting.frames_enterFragment f _ ▸ mem)
  | clause _ ih => exact ih mem
  | ended _ linear parallel ih => exact ih mem
  | leave _ f ih => exact ih (setting.frames_leaveFragment f _ ▸ mem)
  | frame _ known f top elseYs ih => exact ih mem

end Reaches

theorem preserves_reaches (nodes : List Node) (first : Progress α) :
    setting.Preserves nodes (fun _ _ => True) fun _ progress =>
      setting.Reaches nodes first progress where
  leaf _ mem _ _ steps := ⟨trivial, steps.leaf mem⟩
  enter f _ _ steps := steps.enter f
  clause linear parallel _ _ steps := (steps.ended linear parallel).clause
  leave _ mem f _ top elseYs linear parallel _ _ steps :=
    ((steps.ended linear parallel).leave f).frame mem f top elseYs

theorem reaches_placeRow (linear parallel : Bool) (tour : Tour) (progress : Progress α) :
    setting.Reaches tour.labels progress (setting.placeRow linear parallel tour progress).1 :=
  ((setting.preserves_reaches tour.labels progress).run linear parallel (List.Subset.refl _) []
    .refl).2

theorem reaches_placeTree (node : Node) (body : Tour) (progress : Progress α) :
    setting.Reaches (node :: body.labels) progress (setting.placeTree node body progress) := by
  have row := setting.reaches_placeRow false false (.tree node body .nil) progress
  rw [placeRow_tree] at row
  simpa [Forest.labels, placeRow] using row

theorem labels_of_mem_trees {tour body : Tour} {node : Node} (mem : (node, body) ∈ tour.trees) :
    node :: body.labels ⊆ tour.labels := by
  induction tour with
  | nil => exact absurd mem List.not_mem_nil
  | mark _ next ih => exact ih mem
  | tree other inside next ihb ihn =>
    rw [Tour.trees] at mem
    rcases List.mem_cons.1 mem with same | mem
    · obtain ⟨rfl, rfl⟩ := Prod.mk.inj same
      exact subset_tree node body next
    · rcases List.mem_append.1 mem with mem | mem
      · split at mem
        · exact List.Subset.trans (ihb mem) (subset_body other inside next)
        · exact absurd mem List.not_mem_nil
      · exact List.Subset.trans (ihn mem) (subset_next other inside next)

/-- The state before a tree of a tour is placed: when its node arrives, nothing of the tree has been
drawn, and when it has been placed, nothing of it is drawn again. -/
structure Moment (setting : Setting α) (linear parallel : Bool) (tour : Tour)
    (progress : Progress α) (node : Node) (body : Tour) (before : Progress α) : Prop where
  arrives : ⟨node, before⟩ ∈ setting.arrivals linear parallel tour progress
  early : setting.Reaches tour.labels progress before
  late : setting.Reaches tour.labels (setting.placeTree node body before)
    (setting.placeRow linear parallel tour progress).1
  drawn : ∀ x ∈ node :: body.labels,
    before.geometry.get? x.id = progress.geometry.get? x.id ∧
    (setting.placeRow linear parallel tour progress).1.geometry.get? x.id =
      (setting.placeTree node body before).geometry.get? x.id

section
variable {linear parallel : Bool} {first node : Node} {inside body next : Tour}
  {progress before : Progress α}

theorem apart_of_nodup (nodup : ((Forest.labels (.tree first inside next)).map Node.id).Nodup) :
    (∀ x ∈ first :: inside.labels, ∀ y ∈ next.labels, x.id ≠ y.id) ∧
      ∀ x ∈ inside.labels, x.id ≠ first.id := by
  simp only [Forest.labels, List.map_cons, List.map_append, List.nodup_cons, List.mem_append,
    List.nodup_append, not_or] at nodup
  obtain ⟨⟨fresh, fresh'⟩, -, -, across⟩ := nodup
  refine ⟨fun x hx y hy same => ?_, fun x hx same => fresh (same ▸ List.mem_map_of_mem hx)⟩
  rcases List.mem_cons.1 hx with rfl | hx
  · exact fresh' (same ▸ List.mem_map_of_mem hy)
  · exact across _ (List.mem_map_of_mem hx) _ (List.mem_map_of_mem hy) same

theorem Moment.here
    (nodup : ((Forest.labels (.tree node body next)).map Node.id).Nodup) :
    setting.Moment linear parallel (.tree node body next) progress node body progress where
  arrives := List.mem_cons_self
  early := .refl
  late := by
    rw [placeRow_tree]
    exact (setting.reaches_placeRow linear parallel next _).mono (subset_next node body next)
  drawn x hx := by
    rw [placeRow_tree]
    exact ⟨rfl, (setting.reaches_placeRow linear parallel next _).get?_eq
      ((apart_of_nodup nodup).1 x hx)⟩

theorem Moment.within {f : Fragment} (element : first.element = .fragment f)
    (nodup : ((Forest.labels (.tree first inside next)).map Node.id).Nodup)
    (mem : (node, body) ∈ inside.trees)
    (moment : setting.Moment progress.linear progress.parallel inside
      (setting.enterFragment f progress) node body before) :
    setting.Moment linear parallel (.tree first inside next) progress node body before where
  arrives := by
    rw [arrivals, element]
    exact List.mem_cons_of_mem _ (List.mem_append_left _ moment.arrives)
  early := (Reaches.refl.enter f).trans (moment.early.mono (subset_body first inside next))
  late := by
    have after := setting.reaches_placeRow linear parallel next
      (setting.placeTree first inside progress)
    have placed := moment.late.mono (subset_body first inside next)
    rw [placeRow_tree]
    rw [placeTree_fragment element] at after ⊢
    exact (((placed.ended _ _).leave f).frame List.mem_cons_self f _ _).trans
      (after.mono (subset_next first inside next))
  drawn x hx := by
    obtain ⟨apart, other⟩ := apart_of_nodup nodup
    have mem' := labels_of_mem_trees mem hx
    obtain ⟨none, some⟩ := moment.drawn x hx
    refine ⟨none.trans ?_, ?_⟩
    · exact (Reaches.refl.enter f).get?_eq fun _ mem => absurd mem List.not_mem_nil
    · rw [placeRow_tree, (setting.reaches_placeRow linear parallel next _).get?_eq
        (apart x (List.mem_cons_of_mem _ mem')), placeTree_fragment element, ← some]
      refine (GeometryMap.get?_insert_of_ne _ (other x mem') _).trans ?_
      exact ((Reaches.refl.ended _ _).leave f).get?_eq fun _ mem => absurd mem List.not_mem_nil

theorem Moment.behind
    (nodup : ((Forest.labels (.tree first inside next)).map Node.id).Nodup)
    (mem : (node, body) ∈ next.trees)
    (moment : setting.Moment linear parallel next (setting.placeTree first inside progress) node
      body before) :
    setting.Moment linear parallel (.tree first inside next) progress node body before where
  arrives := List.mem_cons_of_mem _ (List.mem_append_right _ moment.arrives)
  early := ((setting.reaches_placeTree first inside progress).mono
    (subset_tree first inside next)).trans (moment.early.mono (subset_next first inside next))
  late := by
    rw [placeRow_tree]
    exact moment.late.mono (subset_next first inside next)
  drawn x hx := by
    have mem' := labels_of_mem_trees mem hx
    obtain ⟨none, some⟩ := moment.drawn x hx
    rw [placeRow_tree]
    exact ⟨none.trans ((setting.reaches_placeTree first inside progress).get?_eq fun y hy =>
      ((apart_of_nodup nodup).1 y hy x mem').symm), some⟩

end

/-- Every tree that is placed has its moment. -/
theorem exists_moment (linear parallel : Bool) {tour : Tour} (progress : Progress α)
    (nodup : (tour.labels.map Node.id).Nodup) {node : Node} {body : Tour}
    (mem : (node, body) ∈ tour.trees) :
    ∃ before, setting.Moment linear parallel tour progress node body before := by
  induction tour generalizing linear parallel progress with
  | nil => exact absurd mem List.not_mem_nil
  | mark _ next ih =>
    obtain ⟨before, arrives, early, late, drawn⟩ :=
      ih linear parallel (setting.enterElse (endSection linear parallel progress)) nodup mem
    exact ⟨before, arrives, ((Reaches.refl.ended linear parallel).clause).trans early, late,
      drawn⟩
  | tree first inside next ihb ihn =>
    have parts := nodup
    simp only [Forest.labels, List.map_cons, List.map_append, List.nodup_cons,
      List.nodup_append] at parts
    obtain ⟨-, nodupInside, nodupNext, -⟩ := parts
    rw [Tour.trees] at mem
    rcases List.mem_cons.1 mem with same | mem
    · obtain ⟨rfl, rfl⟩ := Prod.mk.inj same
      exact ⟨progress, .here nodup⟩
    rcases List.mem_append.1 mem with mem | mem
    · split at mem
      · rename_i f element
        obtain ⟨before, moment⟩ := ihb progress.linear progress.parallel
          (setting.enterFragment f progress) nodupInside mem
        exact ⟨before, moment.within element nodup mem⟩
      · exact absurd mem List.not_mem_nil
    · obtain ⟨before, moment⟩ :=
        ihn linear parallel (setting.placeTree first inside progress) nodupNext mem
      exact ⟨before, moment.behind nodup mem⟩

end Setting

end

end Layout

end SequenceDiagram
