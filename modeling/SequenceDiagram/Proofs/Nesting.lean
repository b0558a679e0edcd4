import SequenceDiagram.Layout.Canvas
import SequenceDiagram.Number.Scalar
import SequenceDiagram.Proofs.Turns
import SequenceDiagram.Script.Reader

set_option autoImplicit false

/-!
# Bars stand in bars

As long as a run does not go back up, the bars of one participant are side by side or inside one
another. The chart of a run has every activation in the order of opening, with its end once it is
closed. An activation that is opened while another one of its participant is open stands on it and
is closed before it, so any two entries of the chart keep to this from the moment when the later
one is opened.
-/
namespace SequenceDiagram

/-- These numbers compare as in a linear order: there is no NaN, and if one of two is at most the
other one, the other one is not less. -/
structure Scalar.AreOrdered {α : Type} [Scalar α] (numbers : List α) : Prop where
  same : ∀ x ∈ numbers, Scalar.same x x = true
  le_refl : ∀ x ∈ numbers, x ≤ x
  not_lt : ∀ x ∈ numbers, ∀ y ∈ numbers, x ≤ y → ¬y < x

theorem Scalar.areOrdered_rat (numbers : List Rat) : Scalar.AreOrdered numbers :=
  ⟨fun _ _ => decide_eq_true rfl, fun _ _ => Rat.le_refl, fun _ _ _ _ => Rat.not_lt.2⟩

namespace Scalar.AreOrdered
variable {α : Type} [Scalar α] {numbers : List α}

theorem of_subset (ordered : Scalar.AreOrdered numbers) {fewer : List α}
    (known : fewer ⊆ numbers) : Scalar.AreOrdered fewer :=
  ⟨fun x mem => ordered.same x (known mem), fun x mem => ordered.le_refl x (known mem),
    fun x hx y hy => ordered.not_lt x (known hx) y (known hy)⟩

theorem max_eq (ordered : Scalar.AreOrdered numbers) {x y : α} (hx : x ∈ numbers)
    (hy : y ∈ numbers) (le : x ≤ y) : Scalar.max y x = y := by
  rw [Scalar.max, if_pos (ordered.same y hy), if_neg (ordered.not_lt x hx y hy le)]

end Scalar.AreOrdered

namespace Layout

/-- Of two intervals of a participant the one that was opened later begins when the other one is
over, or its bar lies within the other one's bar, further in. -/
def ActivationInterval.Nests {α : Type} [Scalar α] (setting : Setting α) (box : Rect α)
    (early late : ActivationInterval α) : Prop :=
  early.participant = late.participant → early.endY ≤ late.startY ∨
    (setting.barOf box early).contains (setting.barOf box late) = true ∧ early.depth < late.depth

structure Life (α : Type) where
  opening : Opening α
  /-- Where it ended, once it is closed. -/
  endY? : Option α

namespace Life
variable {α : Type} [Scalar α]

/-- Of two activations of a participant the later one was opened when the earlier one was over, or
it was opened further in and is over if the earlier one is. -/
def Nests (early late : Life α) : Prop :=
  early.opening.participant = late.opening.participant →
    (∃ y, early.endY? = some y ∧ y ≤ late.opening.startY) ∨
    (early.opening.startY ≤ late.opening.startY ∧ early.opening.depth < late.opening.depth ∧
      ∀ y, early.endY? = some y → ∃ y', late.endY? = some y' ∧ y' ≤ y)

def interval (endY : α) (life : Life α) : ActivationInterval α where
  participant := life.opening.participant
  startY := life.opening.startY
  endY := life.endY?.getD (Scalar.max endY life.opening.startY)
  depth := life.opening.depth
  color := life.opening.color

theorem endY_interval_of_over {life : Life α} {y : α} (past : life.endY? = some y) (endY : α) :
    (life.interval endY).endY = y :=
  congrArg (Option.getD · _) past

theorem endY_interval_of_waits {life : Life α} {numbers : List α}
    (ordered : Scalar.AreOrdered numbers) (start : life.opening.startY ∈ numbers) {endY : α}
    (known : endY ∈ numbers) (le : life.opening.startY ≤ endY) (waits : life.endY? = none) :
    (life.interval endY).endY = endY :=
  (congrArg (Option.getD · _) waits).trans (ordered.max_eq start known le)

end Life

namespace ActivationTracker
variable {α : Type} [Scalar α]

def lives (tracker : ActivationTracker α) : List (Life α) :=
  tracker.finished.map (fun interval => ⟨interval.opening, some interval.endY⟩) ++
    (pending tracker.active).map fun opening => ⟨opening, none⟩

/-- The activations of a tracker in the order of opening, when `used` are the heights that were
used so far. -/
structure IsChart (tracker : ActivationTracker α) (used : List α) (chart : List (Life α)) :
    Prop where
  tells : chart.Perm tracker.lives
  nested : chart.Pairwise Life.Nests
  starts : ∀ life ∈ chart, life.opening.startY ∈ used
  ends : ∀ life ∈ chart, ∀ y, life.endY? = some y → y ∈ used ∧ life.opening.startY ≤ y

namespace IsChart
variable {tracker next : ActivationTracker α} {used : List α} {chart : List (Life α)}

theorem start : IsChart ({} : ActivationTracker α) [] [] :=
  ⟨.refl _, .nil, nofun, nofun⟩

theorem more (charts : tracker.IsChart used chart) (later : List α) :
    tracker.IsChart (used ++ later) chart :=
  ⟨charts.tells, charts.nested, fun life mem => List.mem_append_left _ (charts.starts life mem),
    fun life mem y past => (charts.ends life mem y past).imp_left (List.mem_append_left _)⟩

theorem of_books (charts : tracker.IsChart used chart) (active : next.active = tracker.active)
    (finished : next.finished = tracker.finished) : next.IsChart used chart := by
  have same : next.lives = tracker.lives := by rw [lives, lives, active, finished]
  exact ⟨same ▸ charts.tells, charts.nested, charts.starts, charts.ends⟩

theorem mem_pending (charts : tracker.IsChart used chart) {life : Life α} (mem : life ∈ chart)
    (waits : life.endY? = none) : life.opening ∈ pending tracker.active := by
  rcases List.mem_append.1 (charts.tells.mem_iff.1 mem) with past | still
  · obtain ⟨interval, -, rfl⟩ := List.mem_map.1 past
    cases waits
  · obtain ⟨opening, known, rfl⟩ := List.mem_map.1 still
    exact known

/-- An activation that is opened stands on every open one of its participant and begins after
every closed one. -/
theorem opens (charts : tracker.IsChart used chart) {opening : Opening α}
    (rising : ∀ y ∈ used, y ≤ opening.startY)
    (level : opening.depth = tracker.depth opening.participant)
    (told : pending next.active = opening :: pending tracker.active)
    (finished : next.finished = tracker.finished) :
    next.IsChart (used ++ [opening.startY]) (chart ++ [⟨opening, none⟩]) := by
  have old := charts.more [opening.startY]
  have members {P : Life α → Prop} (before : ∀ life ∈ chart, P life) (here : P ⟨opening, none⟩) :
      ∀ life ∈ chart ++ [⟨opening, none⟩], P life := by
    simpa [or_imp, forall_and] using ⟨before, here⟩
  refine ⟨?_, ?_, members old.starts (by simp), members old.ends nofun⟩
  · rw [lives, told, finished, List.map_cons]
    exact (charts.tells.append_right _).trans (List.perm_append_singleton _ _ |>.trans
      List.perm_middle.symm)
  · refine List.pairwise_append.2 ⟨charts.nested, List.pairwise_singleton _ _, ?_⟩
    intro early mem late here same
    obtain rfl := List.mem_singleton.1 here
    cases past : early.endY? with
    | some y => exact .inl ⟨y, rfl, rising y (charts.ends early mem y past).1⟩
    | none =>
      have under := depth_lt_of_mem_pending (charts.mem_pending mem past)
      refine .inr ⟨rising _ (charts.starts early mem), ?_, nofun⟩
      rw [level]
      exact same ▸ under

/-- What is open on the chart behind an open activation of the same participant stands on it, so
the innermost one has only closed ones behind it. -/
theorem closed_of_deeper (charts : tracker.IsChart used chart) {y : α}
    (rising : ∀ y' ∈ used, y' ≤ y)
    {interval : ActivationInterval α} (retires : tracker.Retires next interval y) {life : Life α}
    (mem : life ∈ chart) (same : interval.participant = life.opening.participant)
    (deeper : interval.depth < life.opening.depth) : ∃ y', life.endY? = some y' ∧ y' ≤ y := by
  cases past : life.endY? with
  | some y' => exact ⟨y', rfl, rising y' (charts.ends life mem y' past).1⟩
  | none =>
    have under : life.opening.depth < tracker.depth life.opening.participant :=
      depth_lt_of_mem_pending (charts.mem_pending mem past)
    rw [← same, retires.innermost] at under
    omega

theorem lives_of_retires {y : α} {interval : ActivationInterval α}
    (retires : tracker.Retires next interval y) :
    ∃ rest, tracker.lives.Perm (⟨interval.opening, none⟩ :: rest) ∧
      next.lives = ⟨interval.opening, some interval.endY⟩ :: rest := by
  refine ⟨tracker.finished.map (fun interval => ⟨interval.opening, some interval.endY⟩) ++
    (pending next.active).map fun opening => ⟨opening, none⟩, ?_, ?_⟩
  · exact ((retires.pending.map _).append_left _).trans List.perm_middle
  · rw [lives, retires.finished]
    rfl

theorem retires (charts : tracker.IsChart used chart) {numbers : List α}
    (ordered : Scalar.AreOrdered numbers) (known : used ⊆ numbers) {y : α} (last : y ∈ used)
    (rising : ∀ y' ∈ used, y' ≤ y) {interval : ActivationInterval α}
    (retires : tracker.Retires next interval y) :
    ∃ chart', next.IsChart used chart' ∧
      chart'.map Life.opening = chart.map Life.opening := by
  obtain ⟨rest, before, after⟩ := lives_of_retires retires
  have mem : ⟨interval.opening, none⟩ ∈ chart :=
    (charts.tells.trans before).mem_iff.2 List.mem_cons_self
  have started := charts.starts _ mem
  have ended : interval.endY = y := by
    rw [retires.endY]
    exact ordered.max_eq (known started) (known last) (rising _ started)
  obtain ⟨early, late, rfl⟩ := List.append_of_mem mem
  have starts := charts.starts
  have ends := charts.ends
  obtain ⟨sorted, behind, across⟩ := List.pairwise_append.1 charts.nested
  obtain ⟨ahead, behind⟩ := List.pairwise_cons.1 behind
  simp only [List.forall_mem_append, List.forall_mem_cons] at starts ends
  refine ⟨early ++ ⟨interval.opening, some interval.endY⟩ :: late, ⟨?_, ?_, ?_, ?_⟩, by simp⟩
  · rw [after]
    refine List.perm_middle.trans (List.Perm.cons _ ?_)
    exact (List.perm_cons _).1 (List.perm_middle.symm.trans (charts.tells.trans before))
  · refine List.pairwise_append.2 ⟨sorted, List.pairwise_cons.2 ⟨?_, behind⟩, fun life front =>
      List.forall_mem_cons.2 ⟨?_, fun other mem =>
        across life front other (List.mem_cons_of_mem _ mem)⟩⟩
    · intro life mem same
      obtain ⟨_, open_now, -⟩ | ⟨starts, deeper, -⟩ := ahead life mem same
      · cases open_now
      · refine .inr ⟨starts, deeper, fun y' past => ?_⟩
        obtain rfl : interval.endY = y' := Option.some.inj past
        exact ended ▸ charts.closed_of_deeper rising retires
          (List.mem_append_right _ (List.mem_cons_of_mem _ mem)) same deeper
    · -- what has an open activation in it is open itself
      intro same
      obtain before | ⟨starts, deeper, inner⟩ := across life front _ List.mem_cons_self same
      · exact .inl before
      · refine .inr ⟨starts, deeper, fun y' past => ?_⟩
        obtain ⟨_, open_now, -⟩ := inner y' past
        cases open_now
  · simp only [List.forall_mem_append, List.forall_mem_cons]
    exact ⟨starts.1, started, starts.2.2⟩
  · simp only [List.forall_mem_append, List.forall_mem_cons]
    refine ⟨ends.1, fun y' past => ?_, ends.2.2⟩
    obtain rfl := Option.some.inj past
    rw [ended]
    exact ⟨last, rising _ started⟩

theorem retreats (charts : tracker.IsChart used chart) {numbers : List α}
    (ordered : Scalar.AreOrdered numbers) (known : used ⊆ numbers) {y : α} (last : y ∈ used)
    (rising : ∀ y' ∈ used, y' ≤ y) {participant : String}
    (retreats : Retreats participant y tracker next) :
    ∃ chart', next.IsChart used chart' ∧
      chart'.map Life.opening = chart.map Life.opening := by
  induction retreats generalizing chart with
  | still active finished => exact ⟨chart, charts.of_books active finished, rfl⟩
  | close interval _ retires _ ih =>
    obtain ⟨chart', charts', same⟩ := charts.retires ordered known last rising retires
    obtain ⟨chart'', charts'', same'⟩ := ih charts'
    exact ⟨chart'', charts'', same'.trans same⟩

end IsChart

/-- Every run that does not go back up has a chart. -/
theorem exists_isChart (steps : List (ActivationStep α))
    (ordered : Scalar.AreOrdered (heights [] steps))
    (rising : (heights [] steps).Pairwise (· ≤ ·)) :
    ∃ chart, (after steps).IsChart (heights [] steps) chart ∧
      chart.map Life.opening = openings [] steps := by
  induction steps using List.reverseRecOn with
  | nil => exact ⟨[], .start, rfl⟩
  | append_singleton past step ih =>
    rw [heights_append, List.nil_append, heights_singleton] at ordered rising ⊢
    rw [openings_append, List.nil_append, openings_singleton]
    obtain ⟨earlier, -, later⟩ := List.pairwise_append.1 rising
    obtain ⟨chart, charts, same⟩ := ih
      (ordered.of_subset (List.subset_append_left _ _)) earlier
    cases turns past step with
    | opens opening told height level pending finished =>
      rw [height] at later ⊢
      rw [told]
      exact ⟨_, charts.opens (fun y mem => later y mem _ (by simp)) level pending finished,
        by simp [same]⟩
    | closes participant y told height retreats =>
      rw [height] at ordered later ⊢
      rw [told, Option.toList_none, List.append_nil, ← same]
      have last : y ∈ heights [] past ++ (some y).toList := by simp
      refine (charts.more [y]).retreats ordered (List.Subset.refl _) last ?_ retreats
      intro y' mem
      rcases List.mem_append.1 mem with before | here
      · exact later y' before y (by simp)
      · exact List.mem_singleton.1 here ▸ ordered.le_refl y last
    | rests told height active finished =>
      rw [height, told, Option.toList_none, Option.toList_none, List.append_nil, List.append_nil]
      exact ⟨chart, charts.of_books active finished, same⟩

theorem closing_eq_map (endY : α) (active : List (OpenActivation α)) :
    closing endY active =
      (pending active).map fun opening => Life.interval endY ⟨opening, none⟩ := by
  induction active with
  | nil => rfl
  | cons activation rest ih =>
    rw [closing, pending, List.map_cons, ih]
    rfl

theorem finish_perm_lives (tracker : ActivationTracker α) (endY : α) :
    (tracker.finish endY).Perm (tracker.lives.map (Life.interval endY)) := by
  refine (List.mergeSort_perm _ _).trans ?_
  rw [lives, List.map_append, List.map_map, List.map_map, closing_eq_map]
  refine List.Perm.append_right _ ?_
  rw [show Life.interval endY ∘ (fun interval : ActivationInterval α =>
    ⟨interval.opening, some interval.endY⟩) = id from rfl, List.map_id]
  exact List.reverse_perm _

end ActivationTracker

/-- Lives that nest are bars that nest once whatever is open is closed at the end. -/
theorem Life.Nests.interval {α : Type} [Scalar α] {early late : Life α} (nests : early.Nests late)
    {endY : α} {numbers : List α} (ordered : Scalar.AreOrdered numbers) (known : endY ∈ numbers)
    (last : ∀ y ∈ numbers, y ≤ endY)
    (starts : early.opening.startY ∈ numbers ∧ late.opening.startY ∈ numbers)
    (ends : ∀ y, late.endY? = some y → y ∈ numbers)
    (setting : Setting α) (box : Rect α) :
    (early.interval endY).Nests setting box (late.interval endY) := by
  have closed {life : Life α} (start : life.opening.startY ∈ numbers) :=
    life.endY_interval_of_waits ordered start known (last _ start)
  intro same
  obtain ⟨y, ended, le⟩ | ⟨starts_in, deeper, inner⟩ := nests same
  · exact .inl ((endY_interval_of_over ended endY).symm ▸ le)
  · refine .inr ⟨?_, deeper⟩
    have ends_in : (late.interval endY).endY ≤ (early.interval endY).endY := by
      cases ended : early.endY? with
      | some y =>
        obtain ⟨y', ended', le⟩ := inner y ended
        rw [endY_interval_of_over ended, endY_interval_of_over ended']
        exact le
      | none =>
        rw [closed starts.1 ended]
        cases ended' : late.endY? with
        | some y' =>
          rw [endY_interval_of_over ended']
          exact last y' (ends y' ended')
        | none =>
          rw [closed starts.2 ended']
          exact ordered.le_refl endY known
    rw [ActivationBar.contains, Bool.and_eq_true, decide_eq_true_eq, decide_eq_true_eq]
    exact ⟨starts_in, ends_in⟩

namespace ActivationTracker
variable {α : Type} [Scalar α]

/-- Activation bars nest. In a run whose heights do not go back up and which is finished at or
below the last one, the bars can be listed in the order in which they were opened, and each one
ends at or below its start. Of any two bars of a participant the later one then begins when the
earlier one is over, or it lies within the earlier one and further in. -/
theorem finish_nests (steps : List (ActivationStep α)) (endY : α)
    (ordered : Scalar.AreOrdered (heights [] steps ++ [endY]))
    (rising : (heights [] steps ++ [endY]).Pairwise (· ≤ ·))
    (setting : Setting α) (box : Rect α) :
    ∃ bars : List (ActivationInterval α),
      bars.Perm ((after steps).finish endY) ∧
      bars.map ActivationInterval.opening = openings [] steps ∧
      bars.Pairwise (ActivationInterval.Nests setting box) ∧
      ∀ bar ∈ bars, bar.startY ≤ bar.endY := by
  obtain ⟨earlier, -, later⟩ := List.pairwise_append.1 rising
  obtain ⟨chart, charts, same⟩ :=
    exists_isChart steps (ordered.of_subset (List.subset_append_left _ _)) earlier
  have known : endY ∈ heights [] steps ++ [endY] := by simp
  have last : ∀ y ∈ heights [] steps ++ [endY], y ≤ endY := by
    intro y mem
    rcases List.mem_append.1 mem with before | here
    · exact later y before endY (List.mem_singleton.2 rfl)
    · exact List.mem_singleton.1 here ▸ ordered.le_refl endY known
  have charts := charts.more [endY]
  refine ⟨chart.map (Life.interval endY), ?_, ?_, ?_, ?_⟩
  · exact (charts.tells.map _).trans (finish_perm_lives _ endY).symm
  · rw [List.map_map, ← same]
    rfl
  · refine List.pairwise_map.2 (charts.nested.imp_of_mem ?_)
    intro early late hearly hlate nests
    exact nests.interval ordered known last ⟨charts.starts early hearly, charts.starts late hlate⟩
      (fun y ended => (charts.ends late hlate y ended).1) setting box
  · refine List.forall_mem_map.2 fun life mem => ?_
    have start := charts.starts life mem
    cases ended : life.endY? with
    | some y =>
      rw [life.endY_interval_of_over ended]
      exact (charts.ends life mem y ended).2
    | none =>
      rw [life.endY_interval_of_waits ordered start known (last _ start) ended]
      exact last _ start

/-- A call that `b` answers while an explicit activation stands on its own one, and activations of
`a` that are closed together or not at all. -/
theorem finish_nests_of_stacked :
    let steps : List (ActivationStep Rat) :=
      [.setAutomatic true, .message "a" "b" 0 1, .activate "b" 2 none, .message "b" "a" 3 4,
        .activate "a" 4 none, .activate "a" 5 none, .deactivateAll "a" 6, .activate "a" 6 none]
    let setting := setting (Document.readFrom 0 "a->b") (Config.default : Config Rat)
    heights [] steps = [1, 2, 3, 4, 5, 6, 6] ∧
      ∃ bars : List (ActivationInterval Rat),
        bars.Perm ((after steps).finish 7) ∧
        bars.map ActivationInterval.opening = openings [] steps ∧
        bars.Pairwise (ActivationInterval.Nests setting ⟨0, 0, 10, 10⟩) ∧
        ∀ bar ∈ bars, bar.startY ≤ bar.endY := by
  intro steps setting
  have told : heights [] steps = [1, 2, 3, 4, 5, 6, 6] := by decide +kernel
  have rising : (heights [] steps ++ [7]).Pairwise (· ≤ ·) := by
    rw [told]
    decide +kernel
  exact ⟨told, finish_nests steps 7 (Scalar.areOrdered_rat _) rising setting ⟨0, 0, 10, 10⟩⟩

end ActivationTracker

end Layout

end SequenceDiagram
