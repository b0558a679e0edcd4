import SequenceDiagram.Proofs.Activations

set_option autoImplicit false

namespace SequenceDiagram.Layout

namespace ActivationTracker
variable {α : Type}

theorem depth_lt_of_mem_pending {active : List (OpenActivation α)} {opening : Opening α}
    (mem : opening ∈ pending active) :
    opening.depth < active.countP (isOf opening.participant) := by
  induction active with
  | nil => exact absurd mem List.not_mem_nil
  | cons activation rest ih =>
    rcases List.mem_cons.1 mem with rfl | mem
    · simp [isOf]
    · exact Nat.lt_of_lt_of_le (ih mem) (List.sublist_cons_self activation rest).countP_le

variable [Scalar α]

structure Retires (tracker closed : ActivationTracker α) (interval : ActivationInterval α)
    (y : α) : Prop where
  finished : closed.finished = interval :: tracker.finished
  pending : (pending tracker.active).Perm (interval.opening :: pending closed.active)
  depth : closed.depth interval.participant = interval.depth
  innermost : tracker.depth interval.participant = interval.depth + 1
  endY : interval.endY = Scalar.max y interval.startY

theorem Retires.of_books {tracker before closed : ActivationTracker α}
    {interval : ActivationInterval α} {y : α} (retires : before.Retires closed interval y)
    (active : before.active = tracker.active) (finished : before.finished = tracker.finished) :
    tracker.Retires closed interval y :=
  ⟨finished ▸ retires.finished, active ▸ retires.pending, retires.depth,
    (congrArg (List.countP _) active).symm.trans retires.innermost, retires.endY⟩

theorem Retires.depth_le {tracker closed : ActivationTracker α} {interval : ActivationInterval α}
    {y : α} (retires : tracker.Retires closed interval y) (participant : String) :
    closed.depth participant ≤ tracker.depth participant := by
  rw [ActivationTracker.depth, ActivationTracker.depth, ← countP_pending, ← countP_pending,
    retires.pending.countP_eq]
  exact (List.sublist_cons_self _ _).countP_le

theorem retires_of_deactivate? {tracker closed : ActivationTracker α} {participant : String} {y : α}
    (closes : tracker.deactivate? participant y = some closed) :
    ∃ interval : ActivationInterval α, interval.participant = participant ∧
      tracker.Retires closed interval y := by
  obtain ⟨earlier, activation, rest, of, others, parts, rfl⟩ := deactivate?_eq_some closes
  have same : activation.participant = participant := by simpa [isOf] using of
  have above : earlier.countP (isOf participant) = 0 :=
    List.countP_eq_zero.2 (by simpa using others)
  refine ⟨interval activation y (rest.countP (isOf participant)), same, rfl, ?_, ?_, ?_, rfl⟩
  · rw [parts]
    exact pending_append of others rest
  · simp only [depth, interval, same, List.countP_append, above, Nat.zero_add]
  · simp only [depth, interval, same, parts, List.countP_append, List.countP_cons, of, above,
      Nat.zero_add, if_true]

/-- Closing does nothing if nothing is open. -/
theorem deactivate_cases (tracker : ActivationTracker α) (participant : String) (y : α) :
    (tracker.depth participant = 0 ∧ tracker.deactivate participant y = tracker) ∨
      ∃ interval : ActivationInterval α, interval.participant = participant ∧
        tracker.Retires (tracker.deactivate participant y) interval y := by
  rw [deactivate]
  cases closes : tracker.deactivate? participant y with
  | none =>
    refine .inl ⟨List.countP_eq_zero.2 fun activation mem => ?_, rfl⟩
    rw [deactivate?] at closes
    split at closes
    · rename_i absent
      exact List.find?_eq_none.1 absent activation mem
    · cases closes
  | some closed => exact .inr (retires_of_deactivate? closes)

inductive Retreats (participant : String) (y : α) :
    ActivationTracker α → ActivationTracker α → Prop
  | still {tracker closed : ActivationTracker α} (active : closed.active = tracker.active)
      (finished : closed.finished = tracker.finished) : Retreats participant y tracker closed
  | close {tracker middle closed : ActivationTracker α} (interval : ActivationInterval α)
      (of : interval.participant = participant) (retires : tracker.Retires middle interval y)
      (rest : Retreats participant y middle closed) : Retreats participant y tracker closed

theorem Retreats.depth_le {participant : String} {y : α} {tracker closed : ActivationTracker α}
    (retreats : Retreats participant y tracker closed) (other : String) :
    closed.depth other ≤ tracker.depth other := by
  induction retreats with
  | still active _ => exact Nat.le_of_eq (congrArg (List.countP _) active)
  | close interval _ retires _ ih => exact Nat.le_trans ih (retires.depth_le other)

theorem Retreats.of_books {participant : String} {y : α}
    {tracker closed after : ActivationTracker α}
    (retreats : Retreats participant y tracker closed) (active : after.active = closed.active)
    (finished : after.finished = closed.finished) : Retreats participant y tracker after := by
  induction retreats with
  | still active' finished' => exact .still (active.trans active') (finished.trans finished')
  | close interval of retires _ ih => exact .close interval of retires (ih active finished)

theorem retreats_deactivateTimes (participant : String) (y : α) (count : Nat)
    (tracker : ActivationTracker α) :
    Retreats participant y tracker (deactivateTimes participant y count tracker) := by
  induction count generalizing tracker with
  | zero => exact .still rfl rfl
  | succ count ih =>
    rw [deactivateTimes]
    rcases tracker.deactivate_cases participant y with ⟨-, same⟩ | ⟨interval, of, retires⟩
    · rw [same]
      exact ih tracker
    · exact .close interval of retires (ih _)

theorem retreats_deactivateAll (tracker : ActivationTracker α) (participant : String) (y : α) :
    Retreats participant y tracker (tracker.deactivateAll participant y) :=
  (retreats_deactivateTimes participant y _ tracker).of_books rfl rfl

/-- The height that a step after a run makes use of, when it opens or closes something. A message
uses the height at which it arrives if more activations of its receiver are open afterwards, and
that at which it is sent if fewer of its sender are. -/
def height? (past : List (ActivationStep α)) (step : ActivationStep α) : Option α :=
  match step with
  | .activate _ y _ => some y
  | .deactivate participant y | .deactivateAll participant y =>
    if (after past).depth participant = 0 then none else some y
  | .message sender receiver sendY arriveY =>
    let now := after (past ++ [step])
    if (after past).depth receiver < now.depth receiver then some arriveY
    else if now.depth sender < (after past).depth sender then some sendY
    else none
  | .setAutomatic _ | .setColor _ => none

def heights (past : List (ActivationStep α)) : List (ActivationStep α) → List α
  | [] => []
  | step :: steps => (height? past step).toList ++ heights (past ++ [step]) steps

theorem openings_append (past early late : List (ActivationStep α)) :
    openings past (early ++ late) = openings past early ++ openings (past ++ early) late := by
  induction early generalizing past with
  | nil => rw [List.nil_append, openings, List.append_nil, List.nil_append]
  | cons step early ih =>
    rw [List.cons_append, openings, openings, ih, List.append_assoc, List.append_assoc,
      List.singleton_append]

theorem heights_append (past early late : List (ActivationStep α)) :
    heights past (early ++ late) = heights past early ++ heights (past ++ early) late := by
  induction early generalizing past with
  | nil => rw [List.nil_append, heights, List.append_nil, List.nil_append]
  | cons step early ih =>
    rw [List.cons_append, heights, heights, ih, List.append_assoc, List.append_assoc,
      List.singleton_append]

theorem openings_singleton (past : List (ActivationStep α)) (step : ActivationStep α) :
    openings past [step] = (opening? past step).toList :=
  List.append_nil _

theorem heights_singleton (past : List (ActivationStep α)) (step : ActivationStep α) :
    heights past [step] = (height? past step).toList :=
  List.append_nil _

/-- Everything that a step after a run can do to what is open and what is finished. -/
inductive Turns (past : List (ActivationStep α)) (step : ActivationStep α) : Prop
  | opens (opening : Opening α) (told : opening? past step = some opening)
      (height : height? past step = some opening.startY)
      (level : opening.depth = (after past).depth opening.participant)
      (pending : pending (after (past ++ [step])).active = opening :: pending (after past).active)
      (finished : (after (past ++ [step])).finished = (after past).finished)
  | closes (participant : String) (y : α) (told : opening? past step = none)
      (height : height? past step = some y)
      (retreats : Retreats participant y (after past) (after (past ++ [step])))
  | rests (told : opening? past step = none) (height : height? past step = none)
      (active : (after (past ++ [step])).active = (after past).active)
      (finished : (after (past ++ [step])).finished = (after past).finished)

/-- A message answers a call and closes an activation of its sender, or opens one of a receiver
that has none, or does nothing. -/
theorem onMessage_cases (tracker : ActivationTracker α) (sender receiver : String)
    (sendY arriveY : α) :
    (⟨receiver, sender⟩ ∈ tracker.calls ∧
      tracker.onMessage sender receiver sendY arriveY =
        { tracker with calls := tracker.calls.erase ⟨receiver, sender⟩ }.deactivate sender
          sendY) ∨
    (⟨receiver, sender⟩ ∉ tracker.calls ∧ sender ≠ receiver ∧ tracker.depth receiver = 0 ∧
      tracker.onMessage sender receiver sendY arriveY =
        { tracker.activate receiver arriveY none with
          calls := ⟨sender, receiver⟩ :: tracker.calls }) ∨
    (⟨receiver, sender⟩ ∉ tracker.calls ∧
      tracker.onMessage sender receiver sendY arriveY = tracker) := by
  rw [onMessage]
  by_cases answers : tracker.calls.contains ⟨receiver, sender⟩ = true
  · exact .inl ⟨by simpa using answers, if_pos answers⟩
  · rw [if_neg answers]
    have open_call : (⟨receiver, sender⟩ : ImplicitCall) ∉ tracker.calls := by simpa using answers
    split
    · rename_i calls
      simp only [Bool.and_eq_true, decide_eq_true_eq] at calls
      exact .inr (.inl ⟨open_call, calls.1.2, calls.2, rfl⟩)
    · exact .inr (.inr ⟨open_call, rfl⟩)

theorem depth_lt_of_call {past : List (ActivationStep α)} {sender receiver : String}
    {sendY arriveY : α}
    (call : (after past).onMessage sender receiver sendY arriveY =
      { (after past).activate receiver arriveY none with
        calls := ⟨sender, receiver⟩ :: (after past).calls }) :
    (after past).depth receiver <
      (after (past ++ [.message sender receiver sendY arriveY])).depth receiver := by
  rw [after_append, ActivationStep.apply, call]
  simp [depth, activate, isOf]

/-- What a call opens. -/
theorem opening?_of_call {past : List (ActivationStep α)} {sender receiver : String}
    {sendY arriveY : α}
    (call : (after past).onMessage sender receiver sendY arriveY =
      { (after past).activate receiver arriveY none with
        calls := ⟨sender, receiver⟩ :: (after past).calls }) :
    opening? past (.message sender receiver sendY arriveY) =
      some ⟨receiver, arriveY, (after past).depth receiver, ActivationStep.lastColor past⟩ := by
  rw [opening?, if_pos (depth_lt_of_call call)]

theorem turns_message (past : List (ActivationStep α)) (sender receiver : String)
    (sendY arriveY : α) : Turns past (.message sender receiver sendY arriveY) := by
  have next := after_append past (.message sender receiver sendY arriveY)
  rw [ActivationStep.apply] at next
  -- which height is used shows in how many activations are open before and afterwards
  have still (active : (after (past ++ [.message sender receiver sendY arriveY])).active =
      (after past).active) (finished : (after (past ++ [.message sender receiver sendY
        arriveY])).finished = (after past).finished) :
      Turns past (.message sender receiver sendY arriveY) := by
    have same (participant : String) : (after (past ++ [.message sender receiver sendY
        arriveY])).depth participant = (after past).depth participant :=
      congrArg (List.countP _) active
    refine .rests ?_ ?_ active finished
    · rw [opening?, same, if_neg (Nat.lt_irrefl _)]
    · simp only [height?, same, Nat.lt_irrefl, if_false]
  rcases (after past).onMessage_cases sender receiver sendY arriveY with
    ⟨-, answer⟩ | ⟨-, -, rest, call⟩ | ⟨-, nothing⟩
  · rw [answer] at next
    rcases deactivate_cases { after past with
        calls := (after past).calls.erase ⟨receiver, sender⟩ } sender sendY with
      ⟨-, same⟩ | ⟨interval, rfl, retires⟩
    · rw [same] at next
      exact still (by rw [next]) (by rw [next])
    · rw [← next] at retires
      have retires : (after past).Retires _ interval sendY := retires.of_books rfl rfl
      have fewer : (after (past ++ [.message interval.participant receiver sendY arriveY])).depth
          interval.participant < (after past).depth interval.participant := by
        rw [retires.depth, retires.innermost]
        exact Nat.lt_succ_self _
      have unopened := Nat.not_lt.2 (retires.depth_le receiver)
      refine .closes interval.participant sendY ?_ ?_ (.close interval rfl retires (.still rfl rfl))
      · rw [opening?, if_neg unopened]
      · rw [height?, if_neg unopened, if_pos fewer]
  · refine .opens _ (opening?_of_call call) ?_ rfl ?_ (by rw [next, call]; rfl)
    · rw [height?, if_pos (depth_lt_of_call call)]
    · rw [next, call, ← color_after]
      rfl
  · rw [nothing] at next
    exact still (by rw [next]) (by rw [next])

theorem turns (past : List (ActivationStep α)) (step : ActivationStep α) : Turns past step := by
  have next := after_append past step
  cases step with
  | activate participant y color =>
    refine .opens _ rfl rfl rfl ?_ (by rw [next]; rfl)
    rw [next, ← color_after]
    rfl
  | deactivate participant y =>
    rw [ActivationStep.apply] at next
    rcases (after past).deactivate_cases participant y with ⟨rest, same⟩ | ⟨interval, of, retires⟩
    · rw [same] at next
      exact .rests rfl (if_pos rest) (by rw [next]) (by rw [next])
    · have some_open : (after past).depth participant ≠ 0 := by
        rw [← of, retires.innermost]
        exact Nat.succ_ne_zero _
      refine .closes participant y rfl (if_neg some_open) ?_
      rw [next]
      exact .close interval of retires (.still rfl rfl)
  | deactivateAll participant y =>
    rw [ActivationStep.apply] at next
    by_cases rest : (after past).depth participant = 0
    · rw [deactivateAll, rest, deactivateTimes] at next
      exact .rests rfl (if_pos rest) (by rw [next]) (by rw [next])
    · refine .closes participant y rfl (if_neg rest) ?_
      rw [next]
      exact retreats_deactivateAll (after past) participant y
  | message sender receiver sendY arriveY =>
    exact turns_message past sender receiver sendY arriveY
  | setAutomatic on => exact .rests rfl rfl (by rw [next]; rfl) (by rw [next]; rfl)
  | setColor color => exact .rests rfl rfl (by rw [next]; rfl) (by rw [next]; rfl)

end ActivationTracker

end SequenceDiagram.Layout
