import Mathlib.Tactic.Linarith
import SequenceDiagram.Layout.Columns
import SequenceDiagram.Proofs.Magnitudes

set_option autoImplicit false

namespace SequenceDiagram

namespace Scalar

theorem max_eq_max (x y : Rat) : Scalar.max x y = Max.max x y := by
  rw [max_rat]
  split
  · rename_i less
    exact (max_eq_right less.le).symm
  · rename_i less
    exact (max_eq_left (not_lt.1 less)).symm

theorem min_eq_min (x y : Rat) : Scalar.min x y = Min.min x y := by
  rw [min_rat]
  split
  · rename_i less
    exact (min_eq_right less.le).symm
  · rename_i less
    exact (min_eq_left (not_lt.1 less)).symm

theorem half_rat (x : Rat) : Scalar.half x = x / 2 := rfl

theorem ofNat_nonneg (n : Nat) : (0 : Rat) ≤ Scalar.ofNat n := Nat.cast_nonneg n

end Scalar

theorem mem_of_lookup {α β : Type} [BEq α] [LawfulBEq α] {entries : List (α × β)} {key : α}
    {value : β} (found : entries.lookup key = some value) : (key, value) ∈ entries := by
  obtain ⟨before, after, parts, -⟩ := List.lookup_eq_some_iff.1 found
  exact parts ▸ List.mem_append_right before List.mem_cons_self

namespace Layout

namespace Config

variable {config : Config Rat}

theorem nonneg_of_validate (valid : config.validate = .ok ()) {size : Rat}
    (field : size ∈ config.fields.map Prod.snd) : 0 ≤ size := by
  obtain ⟨⟨name, size⟩, mem, rfl⟩ := List.mem_map.1 field
  unfold validate at valid
  split at valid
  · contradiction
  · rename_i none
    have kept := List.find?_eq_none.1 none _ mem
    have le : ¬size < Scalar.ofNat 0 := by simpa [isSize, Scalar.isFinite] using kept
    exact not_lt.1 le

theorem margin_nonneg (valid : config.validate = .ok ()) : 0 ≤ config.margin :=
  nonneg_of_validate valid (by simp [fields])

theorem participantHeight_nonneg (valid : config.validate = .ok ()) :
    0 ≤ config.participantHeight :=
  nonneg_of_validate valid (by simp [fields])

theorem messageHeight_pos (valid : config.validate = .ok ()) : 0 < config.messageHeight := by
  unfold validate at valid
  split at valid
  · contradiction
  · split at valid
    · contradiction
    · rename_i positive
      exact not_le.1 positive

end Config

namespace Columns

def Exceeds (large small : List Rat) : Prop :=
  ∀ (i : Nat) (x : Rat), small[i]? = some x → ∃ y, large[i]? = some y ∧ x ≤ y

theorem Exceeds.refl (row : List Rat) : Exceeds row row :=
  fun _ x h => ⟨x, h, le_refl x⟩

theorem Exceeds.trans {a b c : List Rat} (hab : Exceeds a b) (hbc : Exceeds b c) :
    Exceeds a c := by
  intro i x h
  obtain ⟨y, hy, le⟩ := hbc i x h
  obtain ⟨z, hz, le'⟩ := hab i y hy
  exact ⟨z, hz, le.trans le'⟩

theorem exceeds_widenBetween (low high : Nat) {extra : Rat} (nonneg : 0 ≤ extra)
    (distances : List Rat) : Exceeds (widenBetween low high extra distances) distances := by
  intro i x h
  simp only [widenBetween, List.getElem?_mapIdx, h, Option.map_some, Option.some.injEq,
    exists_eq_left']
  split
  · exact le_add_of_nonneg_right nonneg
  · exact le_refl x

theorem exceeds_widenFor (config : Config Rat) (roster : List String) (distances : List Rat)
    (message : Message) : Exceeds (widenFor config roster distances message) distances := by
  unfold widenFor
  simp only
  split
  · intro i x h
    simp only [List.getElem?_modify, h, Option.map_eq_map, Option.map_some, Option.some.injEq,
      exists_eq_left']
    split
    · rw [Scalar.max_eq_max]
      exact le_max_left x _
    · exact le_refl x
  · split
    · rename_i short
      exact exceeds_widenBetween _ _
        (div_nonneg (sub_nonneg.2 short.le) (Scalar.ofNat_nonneg _)) distances
    · exact .refl distances

theorem exceeds_foldl (config : Config Rat) (roster : List String) (messages : List Message)
    (distances : List Rat) :
    Exceeds (messages.foldl (widenFor config roster) distances) distances := by
  induction messages generalizing distances with
  | nil => exact .refl distances
  | cons message messages ih =>
    exact (ih _).trans (exceeds_widenFor config roster distances message)

def Beside (a b : Rect Rat) : Prop :=
  a.right ≤ b.centerX ∧ a.centerX ≤ b.x

structure IsSpaced (columns : Columns Rat) : Prop where
  beside : columns.boxes.Pairwise fun a b => Beside a.2 b.2
  width : ∀ box ∈ columns.boxes, 0 ≤ box.2.width

theorem mem_of_rect? {columns : Columns Rat} {key : String} {box : Rect Rat}
    (h : columns.rect? key = some box) : (key, box) ∈ columns.boxes :=
  mem_of_lookup h

/-- Two participants stand beside each other, one way or the other. -/
theorem IsSpaced.beside_or {columns : Columns Rat} (h : columns.IsSpaced) {key key' : String}
    (other : key ≠ key') {box box' : Rect Rat} (found : columns.rect? key = some box)
    (found' : columns.rect? key' = some box') : Beside box box' ∨ Beside box' box := by
  let either (a b : String × Rect Rat) : Prop := Beside a.2 b.2 ∨ Beside b.2 a.2
  have pairwise : columns.boxes.Pairwise either := h.beside.imp Or.inl
  have symm : Std.Symm either := ⟨fun _ _ => Or.symm⟩
  exact pairwise.forall (mem_of_rect? found) (mem_of_rect? found')
    fun same => other (congrArg Prod.fst same)

def boxAt (config : Config Rat) (top center width : Rat) : Rect Rat :=
  ⟨center - Scalar.half width, top, width, config.participantHeight⟩

theorem centerX_boxAt (config : Config Rat) (top center width : Rat) :
    (boxAt config top center width).centerX = center :=
  sub_add_cancel center _

theorem right_boxAt (config : Config Rat) (top center width : Rat) :
    (boxAt config top center width).right = center + width / 2 := by
  simp only [boxAt, Rect.right, Scalar.half_rat]
  linarith

theorem Exceeds.uncons {spread rest : List Rat} {x : Rat} (h : Exceeds spread (x :: rest)) :
    ∃ y ys, spread = y :: ys ∧ x ≤ y ∧ Exceeds ys rest := by
  obtain ⟨y, hy, le⟩ := h 0 x rfl
  cases spread with
  | nil => contradiction
  | cons z zs =>
    obtain rfl : z = y := Option.some.inj hy
    exact ⟨z, zs, rfl, le, fun i => h (i + 1)⟩

theorem boxesFrom_beside (config : Config Rat) (top : Rat) {gap : Rat} (nonneg : 0 ≤ gap)
    {first : String × Rat} {row : List (String × Rat)} (wide : ∀ entry ∈ first :: row, 0 ≤ entry.2)
    {spread : List Rat} (room : Exceeds spread (distances gap ((first :: row).map Prod.snd)))
    (center : Rat) :
    (boxesFrom config top center spread (first :: row)).Pairwise (fun a b => Beside a.2 b.2) ∧
      ∀ box ∈ boxesFrom config top center spread (first :: row),
        center - first.2 / 2 ≤ box.2.x ∧ center ≤ box.2.centerX := by
  induction row generalizing first spread center with
  | nil =>
    have alone : boxesFrom config top center spread [first] =
        [(first.1, boxAt config top center first.2)] := by
      cases spread <;> rfl
    rw [alone]
    refine ⟨List.pairwise_singleton _ _, fun box mem => ?_⟩
    obtain rfl := List.mem_singleton.1 mem
    exact ⟨le_refl _, (centerX_boxAt config top center first.2).ge⟩
  | cons second row ih =>
    obtain ⟨distance, later, rfl, apart, behind⟩ := room.uncons
    have width : 0 ≤ first.2 := wide first List.mem_cons_self
    have width' : 0 ≤ second.2 := wide second (List.mem_cons_of_mem _ List.mem_cons_self)
    obtain ⟨pairwise, lower⟩ := ih (fun entry mem => wide entry (List.mem_cons_of_mem _ mem))
      behind (center + distance)
    simp only [Scalar.half_rat] at apart
    have split : boxesFrom config top center (distance :: later) (first :: second :: row) =
        (first.1, boxAt config top center first.2) ::
          boxesFrom config top (center + distance) later (second :: row) := rfl
    rw [split]
    refine ⟨List.pairwise_cons.2 ⟨fun box mem => ?_, pairwise⟩, fun box mem => ?_⟩
    · obtain ⟨left, middle⟩ := lower box mem
      constructor
      · rw [right_boxAt]
        linarith
      · rw [centerX_boxAt]
        linarith
    · rcases List.mem_cons.1 mem with rfl | mem
      · exact ⟨le_refl _, (centerX_boxAt config top center first.2).ge⟩
      · obtain ⟨left, middle⟩ := lower box mem
        exact ⟨by linarith, by linarith⟩

theorem le_foldl_max (row : List Rat) (x : Rat) : x ≤ row.foldl Scalar.max x := by
  induction row generalizing x with
  | nil => exact le_refl x
  | cons y row ih =>
    refine le_trans ?_ (ih (Scalar.max x y))
    rw [Scalar.max_eq_max]
    exact le_max_left x y

theorem length_widths {α : Type} [Scalar α] (document : Document) (config : Config α) :
    (widths document config).length = document.roster.length := by
  unfold widths
  simp only
  split <;> simp

theorem exists_of_mem_boxesFrom {config : Config Rat} {top center : Rat} {spread : List Rat}
    {row : List (String × Rat)} {box : String × Rect Rat}
    (h : box ∈ boxesFrom config top center spread row) :
    ∃ entry ∈ row, box.1 = entry.1 ∧ box.2.width = entry.2 := by
  induction row generalizing center spread with
  | nil => simp [boxesFrom] at h
  | cons first row ih =>
    rcases List.mem_cons.1 h with rfl | h
    · exact ⟨first, List.mem_cons_self, rfl, rfl⟩
    · cases spread with
      | nil =>
        obtain ⟨entry, mem, same⟩ := ih h
        exact ⟨entry, List.mem_cons_of_mem _ mem, same⟩
      | cons distance spread =>
        obtain ⟨entry, mem, same⟩ := ih h
        exact ⟨entry, List.mem_cons_of_mem _ mem, same⟩

section
variable {config : Config Rat} (valid : config.validate = .ok ()) (document : Document)
include valid

theorem widths_nonneg : ∀ width ∈ widths document config, 0 ≤ width := by
  have least : 0 ≤ config.participantMinWidth :=
    Config.nonneg_of_validate valid (by simp [Config.fields])
  unfold widths
  simp only
  split
  · intro width mem
    obtain ⟨-, -, rfl⟩ := List.mem_map.1 mem
    exact (Scalar.ofNat_nonneg 0).trans (le_foldl_max _ _)
  · intro width mem
    obtain ⟨key, -, rfl⟩ := List.mem_map.1 mem
    rw [boxWidth, Scalar.max_eq_max]
    exact least.trans (le_max_right _ _)

theorem gap_nonneg : 0 ≤ gap document config := by
  have apart : 0 ≤ config.participantGap :=
    Config.nonneg_of_validate valid (by simp [Config.fields])
  unfold gap
  split
  · rename_i amount _
    exact amount.toRat_pos.le
  · exact apart
  · exact apart

/-- The columns of a document are spaced. -/
theorem isSpaced_ofDocument (top : Rat) : (ofDocument document config top).IsSpaced := by
  have wide := widths_nonneg valid document
  have zipped : (document.roster.zip (widths document config)).map Prod.snd =
      widths document config :=
    List.map_snd_zip (length_widths document config).le
  have room := exceeds_foldl config document.roster document.messages
    (distances (gap document config) (widths document config))
  unfold ofDocument
  simp only
  split
  · exact ⟨List.Pairwise.nil, by simp⟩
  · generalize config.margin + _ = center
    generalize document.messages.foldl _ _ = spread at room ⊢
    generalize document.roster.zip _ = row at zipped ⊢
    rw [← zipped] at wide room
    refine ⟨?_, fun box mem => ?_⟩
    · cases row with
      | nil => exact List.Pairwise.nil
      | cons first row =>
        exact (boxesFrom_beside config top (gap_nonneg valid document)
          (fun entry mem => wide _ (List.mem_map_of_mem mem)) room center).1
    · obtain ⟨entry, mem', -, same⟩ := exists_of_mem_boxesFrom mem
      rw [same]
      exact wide _ (List.mem_map_of_mem mem')

end

end Columns

end Layout

end SequenceDiagram
