import Mathlib.Data.List.Induction
import Mathlib.Data.List.Perm.Basic
import SequenceDiagram.Layout.Activation

set_option autoImplicit false

/-!
# Every activation is told of once

A run of a tracker opens activations, each at some height, in some color and on so many others
of its participant. What a tracker has finished and what it still holds open are together exactly
what the run has opened, whatever closed it and in whatever order.
-/
namespace SequenceDiagram.Layout

inductive ActivationStep (α : Type)
  | activate (participant : String) (y : α) (color : Option String)
  | deactivate (participant : String) (y : α)
  | deactivateAll (participant : String) (y : α)
  | message (sender receiver : String) (sendY arriveY : α)
  | setAutomatic (on : Bool)
  | setColor (color : String)
deriving DecidableEq, Repr

structure Opening (α : Type) where
  participant : String
  startY : α
  /-- How many activations of the participant were open. -/
  depth : Nat
  color : Option String
deriving DecidableEq, Repr

namespace ActivationInterval
variable {α : Type}

def opening (interval : ActivationInterval α) : Opening α :=
  ⟨interval.participant, interval.startY, interval.depth, interval.color⟩

end ActivationInterval

namespace ActivationStep
variable {α : Type}

def color? : ActivationStep α → Option String
  | .setColor color => some color
  | .activate .. | .deactivate .. | .deactivateAll .. | .message .. | .setAutomatic .. => none

def lastColor (steps : List (ActivationStep α)) : Option String :=
  (steps.filterMap color?).getLast?

theorem lastColor_append (past : List (ActivationStep α)) (step : ActivationStep α) :
    lastColor (past ++ [step]) = step.color?.or (lastColor past) := by
  rw [lastColor, List.filterMap_append, List.getLast?_append, lastColor]
  cases step <;> rfl

def apply [Scalar α] : ActivationStep α → ActivationTracker α → ActivationTracker α
  | .activate participant y color, tracker => tracker.activate participant y color
  | .deactivate participant y, tracker => tracker.deactivate participant y
  | .deactivateAll participant y, tracker => tracker.deactivateAll participant y
  | .message sender receiver sendY arriveY, tracker =>
    tracker.onMessage sender receiver sendY arriveY
  | .setAutomatic on, tracker => tracker.setAutomatic on
  | .setColor color, tracker => tracker.setColor color

end ActivationStep

namespace ActivationTracker
variable {α : Type}

section
variable [Scalar α]

def after (steps : List (ActivationStep α)) : ActivationTracker α :=
  steps.foldl (fun tracker step => step.apply tracker) {}

theorem after_append (past : List (ActivationStep α)) (step : ActivationStep α) :
    after (past ++ [step]) = step.apply (after past) := by
  simp [after]

/-- The activation that a step opens after a run. A message opens one if more activations of its
receiver are open afterwards. -/
def opening? (past : List (ActivationStep α)) (step : ActivationStep α) : Option (Opening α) :=
  match step with
  | .activate participant y color =>
    some ⟨participant, y, (after past).depth participant,
      color.or (ActivationStep.lastColor past)⟩
  | .message _ receiver _ arriveY =>
    if (after past).depth receiver < (after (past ++ [step])).depth receiver then
      some ⟨receiver, arriveY, (after past).depth receiver, ActivationStep.lastColor past⟩
    else none
  | .deactivate .. | .deactivateAll .. | .setAutomatic .. | .setColor .. => none

def openings (past : List (ActivationStep α)) : List (ActivationStep α) → List (Opening α)
  | [] => []
  | step :: steps => (opening? past step).toList ++ openings (past ++ [step]) steps

end

/-- What a stack of open activations tells of their openings. -/
def pending : List (OpenActivation α) → List (Opening α)
  | [] => []
  | activation :: rest =>
    ⟨activation.participant, activation.startY, rest.countP (isOf activation.participant),
      activation.color⟩ :: pending rest

def account (tracker : ActivationTracker α) : List (Opening α) :=
  tracker.finished.map ActivationInterval.opening ++ pending tracker.active

/-- Taking out the innermost activation of a participant leaves what the others tell: none of
those above it counts it. -/
theorem pending_append {participant : String} {activation : OpenActivation α}
    (of : isOf participant activation) {earlier : List (OpenActivation α)}
    (others : ∀ other ∈ earlier, !isOf participant other) (rest : List (OpenActivation α)) :
    (pending (earlier ++ activation :: rest)).Perm
      (⟨activation.participant, activation.startY, rest.countP (isOf participant),
        activation.color⟩ :: pending (earlier ++ rest)) := by
  have same : activation.participant = participant := by simpa [isOf] using of
  induction earlier with
  | nil => simp [pending, same]
  | cons other earlier ih =>
    obtain ⟨apart, others⟩ := List.forall_mem_cons.mp others
    have uncounted : isOf other.participant activation = false := by
      simp only [isOf, same, Bool.not_eq_true', decide_eq_false_iff_not] at apart ⊢
      exact fun equal => apart equal.symm
    have counts : (earlier ++ activation :: rest).countP (isOf other.participant) =
        (earlier ++ rest).countP (isOf other.participant) := by
      simp [uncounted]
    simp only [List.cons_append, pending, counts]
    exact ((ih others).cons _).trans (.swap _ _ _)

theorem countP_pending (participant : String) (active : List (OpenActivation α)) :
    (pending active).countP (·.participant = participant) = active.countP (isOf participant) := by
  induction active with
  | nil => rfl
  | cons activation rest ih => simp [pending, List.countP_cons, ih, isOf]

/-- Of the activations that were opened for a participant, those that are not finished are
open. -/
theorem countP_account (tracker : ActivationTracker α) (participant : String) :
    tracker.account.countP (·.participant = participant) =
      tracker.finished.countP (·.participant = participant) + tracker.depth participant := by
  rw [account, List.countP_append, List.countP_map, countP_pending, depth]
  rfl

theorem account_activate (tracker : ActivationTracker α) (participant : String) (y : α)
    (color : Option String) :
    (tracker.activate participant y color).account.Perm
      (⟨participant, y, tracker.depth participant, color.or tracker.color⟩ :: tracker.account) :=
  List.perm_middle

structure Closed (tracker closed : ActivationTracker α) : Prop where
  account : closed.account.Perm tracker.account
  active : closed.active.Sublist tracker.active
  color : closed.color = tracker.color

namespace Closed

theorem refl (tracker : ActivationTracker α) : tracker.Closed tracker :=
  ⟨.refl _, .refl _, rfl⟩

theorem trans {first second third : ActivationTracker α} (early : first.Closed second)
    (late : second.Closed third) : first.Closed third :=
  ⟨late.account.trans early.account, late.active.trans early.active, late.color.trans early.color⟩

theorem depth_le {tracker closed : ActivationTracker α} (closes : tracker.Closed closed)
    (participant : String) : closed.depth participant ≤ tracker.depth participant :=
  closes.active.countP_le

end Closed

variable [Scalar α]

/-- What closing does: the innermost activation of the participant leaves the stack and is
recorded with the number of those under it. -/
theorem deactivate?_eq_some {tracker closed : ActivationTracker α} {participant : String} {y : α}
    (closes : tracker.deactivate? participant y = some closed) :
    ∃ earlier activation rest,
      isOf participant activation ∧ (∀ other ∈ earlier, !isOf participant other) ∧
      tracker.active = earlier ++ activation :: rest ∧
      closed = { tracker with
        active := earlier ++ rest
        finished := interval activation y (rest.countP (isOf participant)) ::
          tracker.finished } := by
  unfold deactivate? at closes
  split at closes
  · cases closes
  · rename_i activation found
    obtain ⟨of, earlier, rest, parts, others⟩ := List.find?_eq_some_iff_append.mp found
    have without : tracker.active.eraseP (isOf participant) = earlier ++ rest := by
      rw [parts, List.eraseP_append_right _ (by simpa using others), List.eraseP_cons_of_pos of]
    have none_earlier : earlier.countP (isOf participant) = 0 :=
      List.countP_eq_zero.mpr (by simpa using others)
    refine ⟨earlier, activation, rest, of, others, parts, ?_⟩
    rw [← Option.some.inj closes, without, List.countP_append, none_earlier, Nat.zero_add]

theorem closed_deactivate (tracker : ActivationTracker α) (participant : String) (y : α) :
    tracker.Closed (tracker.deactivate participant y) := by
  rw [deactivate]
  cases closes : tracker.deactivate? participant y with
  | none => exact .refl tracker
  | some closed =>
    obtain ⟨earlier, activation, rest, of, others, parts, rfl⟩ := deactivate?_eq_some closes
    refine ⟨?_, ?_, rfl⟩
    · have told := (pending_append of others rest).append_left
        (tracker.finished.map ActivationInterval.opening)
      rw [account, account, parts]
      exact List.perm_middle.symm.trans told.symm
    · rw [parts]
      exact (List.sublist_cons_self _ _).append_left earlier

theorem closed_deactivateTimes (participant : String) (y : α) (count : Nat)
    (tracker : ActivationTracker α) :
    tracker.Closed (deactivateTimes participant y count tracker) := by
  induction count generalizing tracker with
  | zero => exact .refl tracker
  | succ count ih => exact (closed_deactivate tracker participant y).trans (ih _)

theorem closed_deactivateAll (tracker : ActivationTracker α) (participant : String) (y : α) :
    tracker.Closed (tracker.deactivateAll participant y) :=
  have closes := closed_deactivateTimes participant y (tracker.depth participant) tracker
  ⟨closes.account, closes.active, closes.color⟩

theorem map_opening_closing (endY : α) (active : List (OpenActivation α)) :
    (closing endY active).map ActivationInterval.opening = pending active := by
  induction active with
  | nil => rfl
  | cons activation rest ih =>
    rw [closing, List.map_cons, ih]
    rfl

theorem map_opening_finish (tracker : ActivationTracker α) (endY : α) :
    ((tracker.finish endY).map ActivationInterval.opening).Perm tracker.account := by
  refine ((List.mergeSort_perm _ _).map _).trans ?_
  rw [List.map_append, map_opening_closing, account]
  exact ((List.reverse_perm _).map _).append_right _

theorem closed_or_activate_onMessage (tracker : ActivationTracker α) (sender receiver : String)
    (sendY arriveY : α) :
    tracker.Closed (tracker.onMessage sender receiver sendY arriveY) ∨
      tracker.onMessage sender receiver sendY arriveY =
        { tracker.activate receiver arriveY none with
          calls := ⟨sender, receiver⟩ :: tracker.calls } := by
  rw [onMessage]
  split
  · have closes := closed_deactivate
      { tracker with calls := tracker.calls.erase ⟨receiver, sender⟩ } sender sendY
    exact .inl ⟨closes.account, closes.active, closes.color⟩
  · split
    · exact .inr rfl
    · exact .inl (.refl tracker)

theorem color_after (past : List (ActivationStep α)) :
    (after past).color = ActivationStep.lastColor past := by
  induction past using List.reverseRecOn with
  | nil => rfl
  | append_singleton past step ih =>
    rw [after_append, ActivationStep.lastColor_append, ← ih]
    cases step with
    | activate participant y color => rfl
    | deactivate participant y => exact (closed_deactivate _ participant y).color
    | deactivateAll participant y => exact (closed_deactivateAll _ participant y).color
    | message sender receiver sendY arriveY =>
      rcases closed_or_activate_onMessage (after past) sender receiver sendY arriveY with
        closes | opens
      · exact closes.color
      · rw [ActivationStep.apply, opens]
        rfl
    | setAutomatic on => rfl
    | setColor color => rfl

theorem account_step (past : List (ActivationStep α)) (step : ActivationStep α) :
    (after (past ++ [step])).account.Perm
      ((opening? past step).toList ++ (after past).account) := by
  cases step with
  | activate participant y color =>
    rw [opening?, after_append, ← color_after]
    exact account_activate (after past) participant y color
  | deactivate participant y =>
    rw [opening?, after_append]
    exact (closed_deactivate _ participant y).account
  | deactivateAll participant y =>
    rw [opening?, after_append]
    exact (closed_deactivateAll _ participant y).account
  | message sender receiver sendY arriveY =>
    rw [opening?, after_append, ← color_after, ActivationStep.apply]
    rcases closed_or_activate_onMessage (after past) sender receiver sendY arriveY with
      closes | opens
    · rw [if_neg (Nat.not_lt.mpr (closes.depth_le receiver))]
      exact closes.account
    · have deeper : (after past).depth receiver <
          ((after past).onMessage sender receiver sendY arriveY).depth receiver := by
        rw [opens]
        simp [depth, activate, isOf]
      rw [if_pos deeper, opens]
      exact account_activate (after past) receiver arriveY none
  | setAutomatic on =>
    rw [opening?, after_append]
    exact .refl _
  | setColor color =>
    rw [opening?, after_append]
    exact .refl _

/-- A run adds to the account what its steps open. -/
theorem account_run (past steps : List (ActivationStep α)) :
    (after (past ++ steps)).account.Perm (openings past steps ++ (after past).account) := by
  induction steps generalizing past with
  | nil => rw [List.append_nil]; exact .refl _
  | cons step steps ih =>
    have later := ih (past ++ [step])
    rw [List.append_assoc, List.singleton_append] at later
    rw [openings, List.append_assoc]
    refine later.trans (((account_step past step).append_left _).trans ?_)
    exact List.perm_append_comm_assoc _ _ _

theorem account_after (steps : List (ActivationStep α)) :
    (after steps).account.Perm (openings [] steps) := by
  have run := account_run [] steps
  rwa [List.nil_append, show (after ([] : List (ActivationStep α))).account = [] from rfl,
    List.append_nil] at run

def ClosesOne (tracker closed : ActivationTracker α) (participant : String) : Prop :=
  ∃ interval : ActivationInterval α, interval.participant = participant ∧
    closed.finished = interval :: tracker.finished ∧
    closed.depth participant + 1 = tracker.depth participant

theorem closesOne_of_deactivate? {tracker closed : ActivationTracker α} {participant : String}
    {y : α} (closes : tracker.deactivate? participant y = some closed) :
    tracker.ClosesOne closed participant := by
  obtain ⟨earlier, activation, rest, of, -, parts, rfl⟩ := deactivate?_eq_some closes
  refine ⟨_, by simpa [isOf, interval] using of, rfl, ?_⟩
  simp only [depth, parts, List.countP_append, List.countP_cons, of, if_true]
  rfl

theorem deactivate?_isSome_iff (tracker : ActivationTracker α) (participant : String) (y : α) :
    (tracker.deactivate? participant y).isSome ↔
      tracker.ClosesOne (tracker.deactivate participant y) participant := by
  rw [deactivate]
  cases closes : tracker.deactivate? participant y with
  | none =>
    refine ⟨nofun, fun ⟨_, _, _, shrinks⟩ => ?_⟩
    rw [Option.getD_none] at shrinks
    omega
  | some closed => exact ⟨fun _ => closesOne_of_deactivate? closes, fun _ => rfl⟩

/-- Whatever operations a run is made of, finishing it tells of each activation that it opened
exactly once, with its participant, start, color and depth. The depth is what was opened for the
participant less what was finished, and closing succeeds exactly when it closes one. -/
theorem finish_tells_openings (steps : List (ActivationStep α)) (endY : α) :
    (((after steps).finish endY).map ActivationInterval.opening).Perm (openings [] steps) ∧
      ∀ participant : String,
        (openings [] steps).countP (·.participant = participant) =
          (after steps).finished.countP (·.participant = participant) +
            (after steps).depth participant ∧
        ∀ y : α,
          ((after steps).deactivate? participant y).isSome ↔
            (after steps).ClosesOne ((after steps).deactivate participant y) participant := by
  refine ⟨(map_opening_finish _ endY).trans (account_after steps), fun participant => ⟨?_, ?_⟩⟩
  · rw [← (account_after steps).countP_eq, countP_account]
  · exact deactivate?_isSome_iff _ participant

end ActivationTracker

end SequenceDiagram.Layout
