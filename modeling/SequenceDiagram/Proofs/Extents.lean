import SequenceDiagram.Layout.Canvas
import SequenceDiagram.Proofs.Drawn

set_option autoImplicit false

namespace SequenceDiagram.Layout

theorem foldl_max_le_iff {row : List Rat} {x y : Rat} :
    row.foldl Scalar.max x ≤ y ↔ x ≤ y ∧ ∀ z ∈ row, z ≤ y := by
  induction row generalizing x with
  | nil => simp
  | cons first row ih =>
    rw [List.foldl_cons, ih, Scalar.max_eq_max, max_le_iff, List.forall_mem_cons, and_assoc]

theorem le_foldl_min_iff {row : List Rat} {x y : Rat} :
    y ≤ row.foldl Scalar.min x ↔ y ≤ x ∧ ∀ z ∈ row, y ≤ z := by
  induction row generalizing x with
  | nil => simp
  | cons first row ih =>
    rw [List.foldl_cons, ih, Scalar.min_eq_min, le_min_iff, List.forall_mem_cons, and_assoc]

namespace Span

theorem Within.refl (span : Span Rat) : span.Within span :=
  ⟨le_refl _, le_refl _⟩

theorem Within.trans {a b c : Span Rat} (inner : a.Within b) (outer : b.Within c) : a.Within c :=
  ⟨outer.1.trans inner.1, inner.2.trans outer.2⟩

theorem union_within_iff {a b c : Span Rat} : (a.union b).Within c ↔ a.Within c ∧ b.Within c := by
  simp only [Within, union, Scalar.min_eq_min, Scalar.max_eq_max, le_min_iff, max_le_iff]
  exact and_and_and_comm

theorem cover?_within_iff {spans : List (Span Rat)} {cover outer : Span Rat}
    (h : cover? spans = some cover) : cover.Within outer ↔ ∀ span ∈ spans, span.Within outer := by
  have folded (spans : List (Span Rat)) (span : Span Rat) :
      (spans.foldl union span).Within outer ↔
        span.Within outer ∧ ∀ other ∈ spans, other.Within outer := by
    induction spans generalizing span with
    | nil => simp
    | cons first spans ih =>
      rw [List.foldl_cons, ih, union_within_iff, List.forall_mem_cons, and_assoc]
  cases spans with
  | nil => cases h
  | cons span spans =>
    obtain rfl := Option.some.inj h
    rw [folded, List.forall_mem_cons]

theorem within_cover? {spans : List (Span Rat)} {cover span : Span Rat}
    (h : cover? spans = some cover) (mem : span ∈ spans) : span.Within cover :=
  (cover?_within_iff h).1 (.refl cover) span mem

end Span

namespace Geometry
variable (dx : Rat) (geometry : Geometry Rat)

theorem leftX_shiftX : (geometry.shiftX dx).leftX = geometry.leftX + dx := by
  cases geometry with
  | message arrow =>
    simp only [shiftX, leftX, MessageGeometry.span, MessageGeometry.shiftX, Span.between,
      Scalar.min_eq_min, min_add_add_right]
  | _ => rfl

theorem shiftX_zero : geometry.shiftX 0 = geometry := by
  cases geometry <;> simp [shiftX, Rect.shiftX, MessageGeometry.shiftX]

end Geometry

namespace Canvas
variable (canvas : Canvas Rat) (config : Config Rat)

theorem shiftX_zero : canvas.shiftX 0 = canvas := by
  simp [shiftX, Geometry.shiftX_zero, Rect.shiftX]

/-- Everything is moved to the right alike, and nothing is left of the margin then. -/
theorem exists_moveIn (margin : Rat) : ∃ dx, canvas.moveIn margin = canvas.shiftX dx ∧
    (∀ entry ∈ canvas.geometry, margin ≤ entry.2.leftX + dx) ∧
    ∀ box ∈ canvas.boxes, margin ≤ box.2.x + dx := by
  -- the least coordinate is what decides
  have least {left : Rat} (found : canvas.leftX? = some left) :
      (∀ entry ∈ canvas.geometry, left ≤ entry.2.leftX) ∧ ∀ box ∈ canvas.boxes, left ≤ box.2.x := by
    unfold leftX? at found
    split at found
    · cases found
    · rename_i x xs coordinates
      obtain rfl := Option.some.inj found
      have all : ∀ z ∈ x :: xs, xs.foldl Scalar.min x ≤ z :=
        List.forall_mem_cons.2 (le_foldl_min_iff.1 (le_refl _))
      rw [← coordinates] at all
      obtain ⟨drawn, boxes⟩ := List.forall_mem_append.1 all
      exact ⟨List.forall_mem_map.1 drawn, List.forall_mem_map.1 boxes⟩
  unfold moveIn
  split
  · rename_i none
    unfold leftX? at none
    split at none
    · rename_i nothing
      obtain ⟨geometry, boxes⟩ := List.append_eq_nil_iff.1 nothing
      rw [List.map_eq_nil_iff] at geometry boxes
      refine ⟨0, canvas.shiftX_zero.symm, ?_, ?_⟩
      · simp [geometry]
      · simp [boxes]
    · cases none
  · rename_i left found
    obtain ⟨drawn, boxes⟩ := least found
    split
    · refine ⟨margin - left, rfl, fun entry mem => ?_, fun box mem => ?_⟩
      · linarith [drawn entry mem]
      · linarith [boxes box mem]
    · rename_i right
      have behind : margin ≤ left := by simpa [Scalar.isFinite] using right
      refine ⟨0, canvas.shiftX_zero.symm, fun entry mem => ?_, fun box mem => ?_⟩
      · linarith [drawn entry mem]
      · linarith [boxes box mem]

theorem rightX_le_reach (wide : 0 ≤ config.selfMessageWidth) (geometry : Geometry Rat) :
    geometry.rightX ≤ reach config geometry := by
  cases geometry with
  | message arrow =>
    unfold reach
    dsimp only
    split
    · rename_i self
      have same : arrow.fromX = arrow.toX := by simpa [Scalar.same_rat] using self
      simp only [Geometry.rightX, MessageGeometry.span, Span.between, same, Scalar.max_eq_max,
        max_self]
      exact le_add_of_nonneg_right wide
    · exact le_refl _
  | _ => exact le_refl _

/-- The width leaves a margin at the right of everything. -/
theorem right_widen (wide : 0 ≤ config.selfMessageWidth) :
    config.margin + config.margin ≤ (canvas.widen config).width ∧
      (∀ entry ∈ canvas.geometry,
        entry.2.rightX + config.margin ≤ (canvas.widen config).width) ∧
      ∀ box ∈ canvas.boxes, box.2.right + config.margin ≤ (canvas.widen config).width := by
  obtain ⟨start, all⟩ := foldl_max_le_iff.1 (le_refl (canvas.rightX config))
  obtain ⟨drawn, boxes⟩ := List.forall_mem_append.1 all
  refine ⟨add_le_add_left start _, fun entry mem => ?_, fun box mem => ?_⟩
  · exact add_le_add_left ((rightX_le_reach config wide entry.2).trans
      (List.forall_mem_map.1 drawn entry mem)) _
  · exact add_le_add_left (List.forall_mem_map.1 boxes box mem) _

end Canvas

end SequenceDiagram.Layout
