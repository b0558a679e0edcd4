import SequenceDiagram.Proofs.Arrivals

set_option autoImplicit false

/-!
# Rows keep clear of one another

Everything placed so far ends above the cursor. While a level is open, what was placed so far
either ends above that level or stands on it with a span that the packer knows. Every step keeps
this up, and so does every tour.
-/
namespace SequenceDiagram

namespace Layout

structure Arrival.StandsOn (setting : Setting Rat) (arrival : Arrival Rat) (level : Level Rat)
    (span : Span Rat) : Prop where
  packed : arrival.packed? setting = some span
  claimed : span ∈ level.claimed
  slot : ∃ bottom, arrival.slot? setting = some ⟨level.top, bottom⟩

theorem Arrival.exists_slot {setting : Setting Rat} {arrival : Arrival Rat} {span : Span Rat}
    (h : arrival.packed? setting = some span) : ∃ slot, arrival.slot? setting = some slot := by
  unfold packed? at h
  split at h
  · obtain ⟨shape, measured, -⟩ := Option.map_eq_some_iff.1 h
    have message := measured
    unfold shape? at message
    unfold slot?
    split at message
    · rename_i m element
      rw [element, measured]
      exact ⟨_, rfl⟩
    · contradiction
  · contradiction

/-- Two packed messages share a level: when the second one arrives, the first one stands on the
open level, the second one goes to the same height, and their spans at most touch. -/
def Arrival.SharesLevel (setting : Setting Rat) (a b : Arrival Rat) : Prop :=
  ∃ level span span', b.before.packer.level = some level ∧ a.StandsOn setting level span ∧
    b.packed? setting = some span' ∧ (∃ bottom, b.slot? setting = some ⟨level.top, bottom⟩) ∧
    span.overlaps span' = false

/-- The first node ends where the second one starts or above, unless they share a level. -/
def Arrival.Apart (setting : Setting Rat) (a b : Arrival Rat) : Prop :=
  ∀ slot ∈ a.slot? setting, ∀ slot' ∈ b.slot? setting,
    slot.bottom ≤ slot'.top ∨ a.SharesLevel setting b

/-- A packed message that finds a level open and leaves another one found its place taken. -/
def Arrival.Crowded (setting : Setting Rat) (past : List (Arrival Rat)) (b : Arrival Rat) : Prop :=
  ∀ span ∈ b.packed? setting, ∀ level ∈ b.before.packer.level,
    (setting.placeLeaf b.node b.before).packer.level.map Level.top ≠ some level.top →
      ∃ a ∈ past, ∃ claimed, a.StandsOn setting level claimed ∧ claimed.overlaps span = true

structure Level.IsKnown (setting : Setting Rat) (past : List (Arrival Rat)) (cursor : Rat)
    (level : Level Rat) : Prop where
  top : level.top < cursor
  bottom : level.bottom ≤ cursor
  above : ∀ a ∈ past, ∀ slot ∈ a.slot? setting,
    slot.bottom ≤ level.top ∨ ∃ span, a.StandsOn setting level span
  claimed : ∀ span ∈ level.claimed, ∃ a ∈ past, a.StandsOn setting level span

/-- What has been placed is above the cursor, and the open level is known. -/
structure Setting.IsClear (setting : Setting Rat) (past : List (Arrival Rat))
    (progress : Progress Rat) : Prop where
  spacing : 0 < progress.entrySpacing
  above : ∀ a ∈ past, ∀ slot ∈ a.slot? setting, slot.bottom ≤ progress.cursor
  level : ∀ level ∈ progress.packer.level, level.IsKnown setting past progress.cursor

namespace Setting.IsClear
variable {setting : Setting Rat} {past : List (Arrival Rat)} {progress after : Progress Rat}

theorem close (h : setting.IsClear past progress) (spacing : 0 < after.entrySpacing)
    (cursor : progress.cursor ≤ after.cursor) (level : after.packer.level = none) :
    setting.IsClear past after where
  spacing := spacing
  above a mem slot taken := (h.above a mem slot taken).trans cursor
  level open' opened := by simp [level] at opened

variable {node : Node}

theorem rest (h : setting.IsClear past progress) (spacing : 0 < after.entrySpacing)
    (slot : Arrival.slot? setting ⟨node, progress⟩ = none) (cursor : after.cursor = progress.cursor)
    (packer : after.packer = progress.packer) :
    setting.IsClear (past ++ [⟨node, progress⟩]) after where
  spacing := spacing
  above := by
    rw [cursor]
    exact List.forall_mem_append.2 ⟨h.above, by simp [slot]⟩
  level := by
    intro level opened
    rw [packer] at opened
    have known := h.level level opened
    refine ⟨by rw [cursor]; exact known.top, by rw [cursor]; exact known.bottom, ?_, ?_⟩
    · exact List.forall_mem_append.2 ⟨known.above, by simp [slot]⟩
    · intro span claimed
      obtain ⟨a, mem, stands⟩ := known.claimed span claimed
      exact ⟨a, List.mem_append_left _ mem, stands⟩

theorem above_row (h : setting.IsClear past progress) {bottom : Rat}
    (slot : Arrival.slot? setting ⟨node, progress⟩ = some ⟨progress.cursor, bottom⟩)
    (cursor : progress.cursor ≤ bottom) :
    ∀ a ∈ past ++ [⟨node, progress⟩], ∀ slot' ∈ a.slot? setting, slot'.bottom ≤ bottom := by
  refine List.forall_mem_append.2 ⟨?_, List.forall_mem_singleton.2 ?_⟩
  · exact fun a mem slot' taken => (h.above a mem slot' taken).trans cursor
  · intro slot' taken
    obtain rfl : _ = slot' := Option.some.inj (slot.symm.trans taken)
    exact le_refl _

theorem open_level (h : setting.IsClear past progress) (spacing : 0 < after.entrySpacing)
    {span : Span Rat} (packed : Arrival.packed? setting ⟨node, progress⟩ = some span)
    (slot : Arrival.slot? setting ⟨node, progress⟩ = some ⟨progress.cursor, after.cursor⟩)
    (cursor : progress.cursor < after.cursor)
    (level : after.packer.level = some ⟨progress.cursor, after.cursor, [span]⟩) :
    setting.IsClear (past ++ [⟨node, progress⟩]) after where
  spacing := spacing
  above := h.above_row slot cursor.le
  level := by
    intro level' opened
    obtain rfl : _ = level' := Option.some.inj (level.symm.trans opened)
    have stands : Arrival.StandsOn setting ⟨node, progress⟩
        ⟨progress.cursor, after.cursor, [span]⟩ span :=
      ⟨packed, List.mem_singleton_self span, after.cursor, slot⟩
    refine ⟨cursor, le_refl _, ?_, ?_⟩
    · refine List.forall_mem_append.2 ⟨?_, List.forall_mem_singleton.2 ?_⟩
      · exact fun a mem slot' taken => Or.inl (h.above a mem slot' taken)
      · exact fun _ _ => Or.inr ⟨span, stands⟩
    · intro span' claimed
      obtain rfl := List.mem_singleton.1 claimed
      exact ⟨_, List.mem_append_right _ (List.mem_singleton_self _), stands⟩

theorem join_level (h : setting.IsClear past progress) (spacing : 0 < after.entrySpacing)
    {span : Span Rat} (packed : Arrival.packed? setting ⟨node, progress⟩ = some span)
    {level : Level Rat} (opened : progress.packer.level = some level) {bottom : Rat}
    (slot : Arrival.slot? setting ⟨node, progress⟩ = some ⟨level.top, bottom⟩)
    (level' : after.packer.level =
      some ⟨level.top, Scalar.max level.bottom bottom, span :: level.claimed⟩)
    (cursor : after.cursor = Scalar.max progress.cursor (Scalar.max level.bottom bottom)) :
    setting.IsClear (past ++ [⟨node, progress⟩]) after := by
  let joined : Level Rat := ⟨level.top, Scalar.max level.bottom bottom, span :: level.claimed⟩
  have known := h.level level opened
  have lower : progress.cursor ≤ after.cursor ∧ joined.bottom ≤ after.cursor ∧
      bottom ≤ joined.bottom := by
    simp only [cursor, Scalar.max_eq_max, joined]
    exact ⟨le_max_left _ _, le_max_right _ _, le_max_right _ _⟩
  obtain ⟨ahead, inside, deep⟩ := lower
  have stands : Arrival.StandsOn setting ⟨node, progress⟩ joined span :=
    ⟨packed, List.mem_cons_self, bottom, slot⟩
  have still {a : Arrival Rat} {span' : Span Rat} (on : a.StandsOn setting level span') :
      a.StandsOn setting joined span' :=
    ⟨on.packed, List.mem_cons_of_mem _ on.claimed, on.slot⟩
  refine ⟨spacing, ?_, ?_⟩
  · refine List.forall_mem_append.2 ⟨?_, List.forall_mem_singleton.2 ?_⟩
    · exact fun a mem slot' taken => (h.above a mem slot' taken).trans ahead
    · intro slot' taken
      obtain rfl : _ = slot' := Option.some.inj (slot.symm.trans taken)
      exact deep.trans inside
  · intro other isOpen
    obtain rfl : joined = other := Option.some.inj (level'.symm.trans isOpen)
    refine ⟨known.top.trans_le ahead, inside, ?_, ?_⟩
    · refine List.forall_mem_append.2 ⟨?_, List.forall_mem_singleton.2 ?_⟩
      · intro a mem slot' taken
        exact (known.above a mem slot' taken).imp_right fun ⟨span', on⟩ => ⟨span', still on⟩
      · exact fun _ _ => Or.inr ⟨span, stands⟩
    · intro span' claimed
      rcases List.mem_cons.1 claimed with rfl | claimed
      · exact ⟨_, List.mem_append_right _ (List.mem_singleton_self _), stands⟩
      · obtain ⟨a, mem, on⟩ := known.claimed span' claimed
        exact ⟨a, List.mem_append_left _ mem, still on⟩

theorem step (h : setting.IsClear past progress) (spacing : 0 < after.entrySpacing)
    (moves : setting.Moves ⟨node, progress⟩ after) :
    setting.IsClear (past ++ [⟨node, progress⟩]) after := by
  cases moves with
  | rests slot cursor packer => exact h.rest spacing slot cursor packer
  | closes slot cursor level => exact (h.rest h.spacing slot rfl rfl).close spacing cursor level
  | adds slot alone cursor level =>
    exact ⟨spacing, h.above_row slot cursor, fun level' opened => by simp [level] at opened⟩
  | opens span packed slot cursor crowded level =>
    exact h.open_level spacing packed slot cursor level
  | joins span packed level opened bottom slot room level' cursor =>
    exact h.join_level spacing packed opened slot level' cursor

theorem apart (h : setting.IsClear past progress) (moves : setting.Moves ⟨node, progress⟩ after) :
    ∀ a ∈ past, a.Apart setting ⟨node, progress⟩ := by
  intro a mem slot taken slot' taken'
  cases moves with
  | rests none => simp [none] at taken'
  | closes none => simp [none] at taken'
  | adds row =>
    obtain rfl : _ = slot' := Option.some.inj (row.symm.trans taken')
    exact Or.inl (h.above a mem slot taken)
  | opens span packed row =>
    obtain rfl : _ = slot' := Option.some.inj (row.symm.trans taken')
    exact Or.inl (h.above a mem slot taken)
  | joins span packed level opened bottom row room =>
    obtain rfl : _ = slot' := Option.some.inj (row.symm.trans taken')
    refine ((h.level level opened).above a mem slot taken).imp_right ?_
    rintro ⟨span', on⟩
    exact ⟨level, span', span, opened, on, packed, ⟨bottom, row⟩, room span' on.claimed⟩

/-- A packed message that leaves an open level overlaps what stands there. -/
theorem crowded (h : setting.IsClear past progress)
    (moves : setting.Moves ⟨node, progress⟩ (setting.placeLeaf node progress)) :
    Arrival.Crowded setting past ⟨node, progress⟩ := by
  intro span packed level opened left
  obtain ⟨slot, taken⟩ := Arrival.exists_slot packed
  cases moves with
  | rests none => exact absurd (none.symm.trans taken) nofun
  | closes none => exact absurd (none.symm.trans taken) nofun
  | adds row alone => exact absurd (alone.symm.trans packed) nofun
  | opens span' packed' row cursor crowded =>
    obtain rfl : span' = span := Option.some.inj (packed'.symm.trans packed)
    obtain ⟨claimed, mem, overlap⟩ := crowded level opened
    obtain ⟨a, before, on⟩ := (h.level level opened).claimed claimed mem
    exact ⟨a, before, claimed, on, overlap⟩
  | joins span' packed' level' opened' bottom row room joined =>
    obtain rfl : level' = level := Option.some.inj (opened'.symm.trans opened)
    exact absurd (by rw [joined]; rfl) left

end Setting.IsClear

namespace Setting
variable {setting : Setting Rat}

/-- A node that comes up when all is clear is apart from all before it, and leaves an open level
only where it finds no room. -/
def Fits (setting : Setting Rat) (past : List (Arrival Rat)) (b : Arrival Rat) : Prop :=
  (∀ a ∈ past, a.Apart setting b) ∧ b.Crowded setting past

theorem level_enterFragment (setting : Setting Rat) (f : Fragment) (progress : Progress Rat) :
    (setting.enterFragment f progress).packer.level = none ∧
      (setting.enterFragment f progress).entrySpacing = progress.entrySpacing := by
  unfold enterFragment
  split <;> exact ⟨rfl, rfl⟩

theorem level_leaveFragment (setting : Setting Rat) (f : Fragment) (progress : Progress Rat) :
    (setting.leaveFragment f progress).packer = progress.packer ∧
      (setting.leaveFragment f progress).entrySpacing = progress.entrySpacing := by
  unfold leaveFragment
  split <;> exact ⟨rfl, rfl⟩

variable (valid : setting.config.validate = .ok ())
include valid

theorem cursor_enterFragment (f : Fragment) (progress : Progress Rat) :
    progress.cursor ≤ (setting.enterFragment f progress).cursor := by
  have size {size : Rat} (field : size ∈ setting.config.fields.map Prod.snd) :=
    Config.nonneg_of_validate valid field
  unfold enterFragment
  split
  · exact le_add_of_nonneg_right (size (by simp [Config.fields]))
  · exact le_add_of_nonneg_right
      (add_nonneg (size (by simp [Config.fields])) (size (by simp [Config.fields])))

theorem cursor_leaveFragment (f : Fragment) (progress : Progress Rat) :
    progress.cursor ≤ (setting.leaveFragment f progress).cursor := by
  unfold leaveFragment
  split
  · exact le_refl _
  · exact le_add_of_nonneg_right (Config.nonneg_of_validate valid (by simp [Config.fields]))

theorem cursor_enterElse (progress : Progress Rat) :
    progress.cursor ≤ (setting.enterElse progress).cursor :=
  le_add_of_nonneg_right (add_nonneg (Config.nonneg_of_validate valid (by simp [Config.fields]))
    (Config.nonneg_of_validate valid (by simp [Config.fields])))

theorem IsClear.leaf {past : List (Arrival Rat)} {progress : Progress Rat}
    (clear : setting.IsClear past progress) {node : Node}
    (forward : ∀ steps, node.element = .directive (.space steps) → 0 ≤ steps) :
    setting.Fits past ⟨node, progress⟩ ∧
      setting.IsClear (past ++ [⟨node, progress⟩]) (setting.placeLeaf node progress) := by
  have moves := moves_placeLeaf valid forward clear.spacing fun level opened =>
    (clear.level level opened).top
  exact ⟨⟨clear.apart moves, clear.crowded moves⟩,
    clear.step (entrySpacing_placeLeaf node clear.spacing) moves⟩

/-- However a tour goes, every node comes up clear of what is before it. -/
theorem preserves_isClear {nodes : List Node}
    (forward : ∀ node ∈ nodes, ∀ steps, node.element = .directive (.space steps) → 0 ≤ steps) :
    setting.Preserves nodes setting.Fits setting.IsClear where
  leaf node mem _ _ clear := clear.leaf valid (forward node mem)
  enter f _ progress clear := by
    obtain ⟨level, spacing⟩ := level_enterFragment setting f progress
    exact clear.close (spacing ▸ clear.spacing) (cursor_enterFragment valid f progress) level
  clause _ _ _ _ clear := clear.close clear.spacing (cursor_enterElse valid _) rfl
  leave _ _ f _ _ _ linear parallel _ progress clear := by
    obtain ⟨packer, spacing⟩ := level_leaveFragment setting f (endSection linear parallel progress)
    have ahead := cursor_leaveFragment valid f (endSection linear parallel progress)
    exact clear.close (spacing.symm ▸ clear.spacing) ahead (congrArg Packer.level packer)

end Setting

end Layout

end SequenceDiagram
