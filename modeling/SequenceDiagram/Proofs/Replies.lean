import SequenceDiagram.Proofs.Turns

set_option autoImplicit false

/-!
# What an answer closes

A message that answers a call closes the innermost activation of its sender, whatever opened that
one. It is the one of the call if nothing stands on it, as long as no `deactivate` has closed an
activation that a message had opened: the call stays unanswered then, and its answer closes
something else.
-/
namespace SequenceDiagram.Layout

namespace ActivationStep
variable {α : Type}

def IsMessage (caller callee : String) : ActivationStep α → Prop
  | .message sender receiver _ _ => sender = caller ∧ receiver = callee
  | .activate .. | .deactivate .. | .deactivateAll .. | .setAutomatic _ | .setColor _ => False

def IsDirective (participant : String) : ActivationStep α → Prop
  | .activate other _ _ | .deactivate other _ => other = participant
  | .deactivateAll .. | .message .. | .setAutomatic _ | .setColor _ => False

end ActivationStep

namespace ActivationTracker
variable {α : Type} [Scalar α]

/-- A step of a run opened an activation, and since then its participant has had more activations
open than this one stands on. -/
inductive OpenedBy : List (ActivationStep α) → Opening α → ActivationStep α → Prop
  | opens {past : List (ActivationStep α)} {step : ActivationStep α} {opening : Opening α}
      (told : opening? past step = some opening) : OpenedBy (past ++ [step]) opening step
  | stays {past : List (ActivationStep α)} {opener : ActivationStep α} {opening : Opening α}
      (opened : OpenedBy past opening opener) (step : ActivationStep α)
      (under : opening.depth < (after (past ++ [step])).depth opening.participant) :
      OpenedBy (past ++ [step]) opening opener

namespace OpenedBy
variable {past : List (ActivationStep α)} {opening : Opening α} {opener : ActivationStep α}

theorem not_nil : ¬OpenedBy [] opening opener := by
  intro opened
  generalize start : ([] : List (ActivationStep α)) = run at opened
  cases opened with
  | opens _ => exact List.append_ne_nil_of_right_ne_nil _ (List.cons_ne_nil _ _) start.symm
  | stays _ _ _ => exact List.append_ne_nil_of_right_ne_nil _ (List.cons_ne_nil _ _) start.symm

theorem cases_append {step : ActivationStep α} (opened : OpenedBy (past ++ [step]) opening opener) :
    (opener = step ∧ opening? past step = some opening) ∨
      (OpenedBy past opening opener ∧
        opening.depth < (after (past ++ [step])).depth opening.participant) := by
  generalize whole : past ++ [step] = run at opened
  cases opened with
  | opens told =>
    obtain ⟨rfl, last⟩ := List.append_inj' whole rfl
    obtain rfl := List.singleton_inj.1 last
    exact .inl ⟨rfl, told⟩
  | stays opened _ under =>
    obtain ⟨rfl, last⟩ := List.append_inj' whole rfl
    obtain rfl := List.singleton_inj.1 last
    exact .inr ⟨opened, under⟩

theorem split (opened : OpenedBy past opening opener) :
    ∃ before later, past = before ++ opener :: later ∧ opening? before opener = some opening := by
  induction opened with
  | opens told => exact ⟨_, [], rfl, told⟩
  | stays _ step _ ih =>
    obtain ⟨before, later, rfl, told⟩ := ih
    exact ⟨before, later ++ [step], by simp, told⟩

end OpenedBy

theorem Retreats.pending_subset {participant : String} {y : α}
    {tracker closed : ActivationTracker α}
    (retreats : Retreats participant y tracker closed) :
    pending closed.active ⊆ pending tracker.active := by
  induction retreats with
  | still active _ => exact active ▸ List.Subset.refl _
  | close interval _ retires _ ih =>
    exact fun opening mem => retires.pending.mem_iff.2 (List.mem_cons_of_mem _ (ih mem))

theorem Retreats.mem_pending {participant : String} {y : α} {tracker closed : ActivationTracker α}
    (retreats : Retreats participant y tracker closed) {opening : Opening α}
    (mem : opening ∈ pending tracker.active)
    (under : opening.depth < closed.depth opening.participant) :
    opening ∈ pending closed.active := by
  induction retreats with
  | still active _ => exact active ▸ mem
  | close interval _ retires rest ih =>
    rcases List.mem_cons.1 (retires.pending.mem_iff.1 mem) with rfl | mem
    · have below := rest.depth_le interval.participant
      rw [retires.depth] at below
      exact absurd under (Nat.not_lt.2 below)
    · exact ih mem under

theorem exists_openedBy_iff (past : List (ActivationStep α)) (opening : Opening α) :
    (∃ opener, OpenedBy past opening opener) ↔ opening ∈ pending (after past).active := by
  induction past using List.reverseRecOn with
  | nil => exact ⟨fun ⟨_, opened⟩ => absurd opened OpenedBy.not_nil, nofun⟩
  | append_singleton past step ih =>
    -- an open activation of before that is still open was opened by the same step
    have stays (mem : opening ∈ pending (after (past ++ [step])).active)
        (before : opening ∈ pending (after past).active) :
        ∃ opener, OpenedBy (past ++ [step]) opening opener :=
      (ih.2 before).imp fun _ opened => opened.stays step (depth_lt_of_mem_pending mem)
    constructor
    · rintro ⟨opener, opened⟩
      rcases opened.cases_append with ⟨-, told⟩ | ⟨opened, under⟩
      · cases turns past step with
        | opens opening' told' _ _ known _ =>
          obtain rfl := Option.some.inj (told.symm.trans told')
          exact known ▸ List.mem_cons_self
        | closes _ _ told' _ _ => exact nomatch told.symm.trans told'
        | rests told' _ _ _ => exact nomatch told.symm.trans told'
      · have before := ih.1 ⟨opener, opened⟩
        cases turns past step with
        | opens _ _ _ _ known _ => exact known ▸ List.mem_cons_of_mem _ before
        | closes _ _ _ _ retreats => exact retreats.mem_pending before under
        | rests _ _ active _ => exact active.symm ▸ before
    · intro mem
      cases turns past step with
      | opens opening' told _ _ known _ =>
        rcases List.mem_cons.1 (known ▸ mem) with rfl | before
        · exact ⟨step, .opens told⟩
        · exact stays mem before
      | closes _ _ _ _ retreats => exact stays mem (retreats.pending_subset mem)
      | rests _ _ active _ => exact stays mem (active ▸ mem)

theorem depth_of_opening? {past : List (ActivationStep α)} {step : ActivationStep α}
    {opening : Opening α} (told : opening? past step = some opening) :
    opening.depth = (after past).depth opening.participant := by
  cases turns past step with
  | opens opening' told' _ level _ _ =>
    obtain rfl := Option.some.inj (told.symm.trans told')
    exact level
  | closes _ _ told' _ _ => exact nomatch told.symm.trans told'
  | rests told' _ _ _ => exact nomatch told.symm.trans told'

/-- No two steps of a run have opened the activation that stands on so many others. -/
theorem OpenedBy.unique {past : List (ActivationStep α)} {first second : Opening α}
    {opener opener' : ActivationStep α} (opened : OpenedBy past first opener)
    (opened' : OpenedBy past second opener') (same : first.participant = second.participant)
    (level : first.depth = second.depth) : opener = opener' := by
  -- what a step opens stands on whatever was open before it
  have higher {past : List (ActivationStep α)} {step opener : ActivationStep α}
      {new old : Opening α} (told : opening? past step = some new)
      (opened : OpenedBy past old opener) (same : old.participant = new.participant) :
      old.depth < new.depth := by
    rw [depth_of_opening? told, ← same]
    exact depth_lt_of_mem_pending ((exists_openedBy_iff _ _).1 ⟨opener, opened⟩)
  induction past using List.reverseRecOn with
  | nil => exact absurd opened OpenedBy.not_nil
  | append_singleton past step ih =>
    rcases opened.cases_append with ⟨rfl, told⟩ | ⟨before, -⟩ <;>
      rcases opened'.cases_append with ⟨rfl, told'⟩ | ⟨before', -⟩
    · rfl
    · exact absurd level (Nat.ne_of_gt (higher told before' same.symm))
    · exact absurd level (Nat.ne_of_lt (higher told' before same))
    · exact ih before before'

/-- Activations are opened by name, and by messages to participants that have none open. -/
theorem opening?_cases {past : List (ActivationStep α)} {step : ActivationStep α}
    {opening : Opening α} (told : opening? past step = some opening) :
    (∃ y color, step = .activate opening.participant y color) ∨
      (opening.depth = 0 ∧ ∃ caller, step.IsMessage caller opening.participant) := by
  have level := depth_of_opening? told
  cases step with
  | activate participant y color =>
    obtain rfl := Option.some.inj told
    exact .inl ⟨y, color, rfl⟩
  | message sender receiver sendY arriveY =>
    rw [opening?, after_append, ActivationStep.apply] at told
    split at told
    · rename_i more
      obtain rfl := Option.some.inj told
      rcases (after past).onMessage_cases sender receiver sendY arriveY with
        ⟨-, answer⟩ | ⟨-, -, rest, -⟩ | ⟨-, nothing⟩
      · rw [answer] at more
        exact absurd more (Nat.not_lt.2 ((closed_deactivate _ _ _).depth_le receiver))
      · exact .inr ⟨level.trans rest, sender, rfl, rfl⟩
      · rw [nothing] at more
        exact absurd more (Nat.lt_irrefl _)
    · cases told
  | deactivate _ _ => cases told
  | deactivateAll _ _ => cases told
  | setAutomatic _ => cases told
  | setColor _ => cases told

theorem calls_deactivate (tracker : ActivationTracker α) (participant : String) (y : α) :
    (tracker.deactivate participant y).calls = tracker.calls := by
  rw [deactivate]
  cases closes : tracker.deactivate? participant y with
  | none => rfl
  | some closed =>
    obtain ⟨_, _, _, -, -, -, rfl⟩ := deactivate?_eq_some closes
    rfl

theorem retreats_deactivate (tracker : ActivationTracker α) (participant : String) (y : α) :
    Retreats participant y tracker (tracker.deactivate participant y) :=
  retreats_deactivateTimes participant y 1 tracker

theorem calls_deactivateTimes (participant : String) (y : α) (count : Nat)
    (tracker : ActivationTracker α) :
    (deactivateTimes participant y count tracker).calls = tracker.calls := by
  induction count generalizing tracker with
  | zero => rfl
  | succ count ih => rw [deactivateTimes, ih, calls_deactivate]

theorem Retreats.depth_of_ne {participant other : String} {y : α}
    {tracker closed : ActivationTracker α} (retreats : Retreats participant y tracker closed)
    (apart : other ≠ participant) : closed.depth other = tracker.depth other := by
  induction retreats with
  | still active _ => exact congrArg (List.countP _) active
  | close interval of retires _ ih =>
    rw [ih, depth, depth, ← countP_pending, ← countP_pending, retires.pending.countP_eq,
      List.countP_cons_of_neg]
    simpa [ActivationInterval.opening, of] using apart.symm

def waiting (tracker : ActivationTracker α) (participant : String) : List ImplicitCall :=
  tracker.calls.filter (·.callee = participant)

def CalledBy (past : List (ActivationStep α)) (participant caller : String) : Prop :=
  ∃ opening opener, OpenedBy past opening opener ∧ opener.IsMessage caller participant ∧
    opening.participant = participant ∧ opening.depth = 0

theorem CalledBy.depth_pos {past : List (ActivationStep α)} {participant caller : String}
    (called : CalledBy past participant caller) : 0 < (after past).depth participant := by
  obtain ⟨opening, opener, opened, -, rfl, bottom⟩ := called
  exact bottom ▸ depth_lt_of_mem_pending ((exists_openedBy_iff _ _).1 ⟨opener, opened⟩)

theorem CalledBy.stays {past : List (ActivationStep α)} {participant caller : String}
    (called : CalledBy past participant caller) {step : ActivationStep α}
    (under : 0 < (after (past ++ [step])).depth participant) :
    CalledBy (past ++ [step]) participant caller := by
  obtain ⟨opening, opener, opened, call, rfl, bottom⟩ := called
  exact ⟨opening, opener, opened.stays step (bottom ▸ under), call, rfl, bottom⟩

/-- A `deactivate` of the run has closed an activation of the participant that a message had
opened. -/
def ClosedByHand (past : List (ActivationStep α)) (participant : String) : Prop :=
  ∃ before y later opening opener caller,
    past = before ++ .deactivate participant y :: later ∧ OpenedBy before opening opener ∧
    opening.participant = participant ∧ opening.depth + 1 = (after before).depth participant ∧
    opener.IsMessage caller participant

theorem ClosedByHand.append {past : List (ActivationStep α)} {participant : String}
    (closed : ClosedByHand past participant) (step : ActivationStep α) :
    ClosedByHand (past ++ [step]) participant := by
  obtain ⟨before, y, later, opening, opener, caller, rfl, facts⟩ := closed
  exact ⟨before, y, later ++ [step], opening, opener, caller, by simp, facts⟩

/-- A participant has at most one call to answer, and that call opened the first one of its open
activations. -/
def AnswersOwn (past : List (ActivationStep α)) (participant : String) : Prop :=
  (after past).waiting participant = [] ∨
    ∃ caller, (after past).waiting participant = [⟨caller, participant⟩] ∧
      CalledBy past participant caller

theorem AnswersOwn.stays {past : List (ActivationStep α)} {participant : String}
    (own : AnswersOwn past participant) {step : ActivationStep α}
    (calls : (after (past ++ [step])).waiting participant = (after past).waiting participant)
    (under : ∀ caller, CalledBy past participant caller →
      0 < (after (past ++ [step])).depth participant) :
    AnswersOwn (past ++ [step]) participant := by
  rcases own with none_waits | ⟨caller, waits, called⟩
  · exact .inl (calls.trans none_waits)
  · exact .inr ⟨caller, calls.trans waits, called.stays (under caller called)⟩

theorem AnswersOwn.of_depth {past : List (ActivationStep α)} {participant : String}
    (own : AnswersOwn past participant) {step : ActivationStep α}
    (calls : (after (past ++ [step])).waiting participant = (after past).waiting participant)
    (depth : (after past).depth participant ≤ (after (past ++ [step])).depth participant) :
    AnswersOwn (past ++ [step]) participant :=
  own.stays calls fun _ called => Nat.lt_of_lt_of_le called.depth_pos depth

theorem AnswersOwn.message {past : List (ActivationStep α)} {participant : String}
    (own : AnswersOwn past participant) (sender receiver : String) (sendY arriveY : α) :
    AnswersOwn (past ++ [.message sender receiver sendY arriveY]) participant := by
  have next := after_append past (.message sender receiver sendY arriveY)
  rw [ActivationStep.apply] at next
  rcases (after past).onMessage_cases sender receiver sendY arriveY with
    ⟨known, answer⟩ | ⟨-, -, rest, call⟩ | ⟨-, nothing⟩
  · rw [answer] at next
    have calls : (after (past ++ [.message sender receiver sendY arriveY])).waiting participant =
        ((after past).waiting participant).erase ⟨receiver, sender⟩ := by
      rw [next, waiting, calls_deactivate, ← List.erase_filter, waiting]
    by_cases self : sender = participant
    · -- the only call that waits is the one that is answered
      subst self
      refine .inl (calls.trans ?_)
      rcases own with none_waits | ⟨caller, waits, -⟩
      · rw [none_waits, List.erase_nil]
      · have found : (⟨receiver, sender⟩ : ImplicitCall) ∈ (after past).waiting sender :=
          List.mem_filter.2 ⟨known, decide_eq_true rfl⟩
        rw [waits, List.mem_singleton] at found
        rw [waits, found, List.erase_cons_head]
    · refine own.of_depth (calls.trans (List.erase_of_not_mem fun mem => ?_)) (Nat.le_of_eq ?_)
      · exact self (of_decide_eq_true (List.mem_filter.1 mem).2)
      · rw [next, (retreats_deactivate _ sender sendY).depth_of_ne (Ne.symm self)]
        rfl
  · have calls : (after (past ++ [.message sender receiver sendY arriveY])).calls =
        ⟨sender, receiver⟩ :: (after past).calls := by
      rw [next, call]
    by_cases self : receiver = participant
    · subst self
      have none_waits : (after past).waiting receiver = [] := by
        rcases own with none_waits | ⟨caller, -, called⟩
        · exact none_waits
        · exact absurd rest (Nat.ne_of_gt called.depth_pos)
      refine .inr ⟨sender, ?_, _, _, .opens (opening?_of_call call), ⟨rfl, rfl⟩, rfl, rest⟩
      rw [waiting, calls, List.filter_cons_of_pos (by simp)]
      exact congrArg _ none_waits
    · refine own.of_depth ?_ ?_
      · rw [waiting, calls, List.filter_cons_of_neg (by simpa using self), waiting]
      · rw [next, call]
        exact (List.sublist_cons_self _ _).countP_le
  · rw [nothing] at next
    exact own.of_depth (congrArg (waiting · participant) next)
      (Nat.le_of_eq (congrArg (depth · participant) next.symm))

theorem AnswersOwn.deactivate {past : List (ActivationStep α)} {participant : String}
    (own : AnswersOwn past participant) (other : String) (y : α)
    (kept : ¬ClosedByHand (past ++ [.deactivate other y]) participant) :
    AnswersOwn (past ++ [.deactivate other y]) participant := by
  have next := after_append past (.deactivate other y)
  rw [ActivationStep.apply] at next
  refine own.stays (by rw [next, waiting, calls_deactivate, waiting]) fun caller called => ?_
  by_cases self : participant = other
  · subst self
    rcases (after past).deactivate_cases participant y with ⟨rest, -⟩ | ⟨interval, rfl, retires⟩
    · exact absurd rest (Nat.ne_of_gt called.depth_pos)
    · rw [next, retires.depth]
      refine Nat.pos_of_ne_zero fun bottom => kept ?_
      -- otherwise this closes the activation that the call has opened
      obtain ⟨opening, opener, opened, call, same, low⟩ := called
      refine ⟨past, y, [], opening, opener, caller, rfl, opened, same, ?_, call⟩
      rw [low, retires.innermost, bottom]
  · rw [next, (retreats_deactivate _ other y).depth_of_ne self]
    exact called.depth_pos

theorem AnswersOwn.deactivateAll {past : List (ActivationStep α)} {participant : String}
    (own : AnswersOwn past participant) (other : String) (y : α) :
    AnswersOwn (past ++ [.deactivateAll other y]) participant := by
  have next := after_append past (.deactivateAll other y)
  rw [ActivationStep.apply] at next
  have calls : (after (past ++ [.deactivateAll other y])).waiting participant =
      ((after past).waiting participant).filter fun call => !involves other call := by
    rw [next, waiting, ActivationTracker.deactivateAll, calls_deactivateTimes, waiting,
      List.filter_filter, List.filter_filter]
    simp only [Bool.and_comm]
  rcases own with none_waits | ⟨caller, waits, called⟩
  · exact .inl (by rw [calls, none_waits, List.filter_nil])
  · by_cases forgotten : involves other ⟨caller, participant⟩ = true
    · exact .inl (by rw [calls, waits, List.filter_cons_of_neg (by simpa using forgotten),
        List.filter_nil])
    · have apart : participant ≠ other := fun self => forgotten (by simp [involves, self])
      refine .inr ⟨caller, ?_, called.stays ?_⟩
      · rw [calls, waits, List.filter_cons_of_pos (by simpa using forgotten), List.filter_nil]
      · rw [next, (retreats_deactivateAll _ other y).depth_of_ne apart]
        exact called.depth_pos

/-- Every participant answers its own calls as long as no `deactivate` comes in between. -/
theorem answersOwn (past : List (ActivationStep α)) (participant : String)
    (kept : ¬ClosedByHand past participant) : AnswersOwn past participant := by
  induction past using List.reverseRecOn with
  | nil => exact .inl rfl
  | append_singleton past step ih =>
    have own := ih fun closed => kept (closed.append step)
    have next := after_append past step
    cases step with
    | activate other y color =>
      refine own.of_depth (by rw [next]; rfl) ?_
      rw [next]
      exact (List.sublist_cons_self _ _).countP_le
    | deactivate other y => exact own.deactivate other y kept
    | deactivateAll other y => exact own.deactivateAll other y
    | message sender receiver sendY arriveY => exact own.message sender receiver sendY arriveY
    | setAutomatic on => exact own.of_depth (by rw [next]; rfl) (by rw [next]; exact Nat.le_refl _)
    | setColor color => exact own.of_depth (by rw [next]; rfl) (by rw [next]; exact Nat.le_refl _)

/-- A message of the run has opened an activation and waits for its answer. -/
def HasCalled (past : List (ActivationStep α)) (caller callee : String) : Prop :=
  ∃ before message later opening, past = before ++ message :: later ∧
    message.IsMessage caller callee ∧ opening? before message = some opening

theorem HasCalled.append {past : List (ActivationStep α)} {caller callee : String}
    (called : HasCalled past caller callee) (step : ActivationStep α) :
    HasCalled (past ++ [step]) caller callee := by
  obtain ⟨before, message, later, opening, rfl, facts⟩ := called
  exact ⟨before, message, later ++ [step], opening, by simp, facts⟩

theorem hasCalled_of_mem_calls (past : List (ActivationStep α)) :
    ∀ call ∈ (after past).calls, HasCalled past call.caller call.callee := by
  induction past using List.reverseRecOn with
  | nil => exact nofun
  | append_singleton past step ih =>
    have next := after_append past step
    have keeps (fewer : (after (past ++ [step])).calls ⊆ (after past).calls) :
        ∀ call ∈ (after (past ++ [step])).calls,
          HasCalled (past ++ [step]) call.caller call.callee :=
      fun call mem => (ih call (fewer mem)).append step
    cases step with
    | activate other y color => exact keeps (by rw [next]; exact List.Subset.refl _)
    | deactivate other y =>
      exact keeps (by rw [next, ActivationStep.apply, calls_deactivate]; exact List.Subset.refl _)
    | deactivateAll other y =>
      refine keeps ?_
      rw [next, ActivationStep.apply, deactivateAll, calls_deactivateTimes]
      exact List.filter_subset_self _
    | message sender receiver sendY arriveY =>
      rw [ActivationStep.apply] at next
      rcases (after past).onMessage_cases sender receiver sendY arriveY with
        ⟨-, answer⟩ | ⟨-, -, -, call⟩ | ⟨-, nothing⟩
      · exact keeps (by rw [next, answer, calls_deactivate]; exact List.erase_subset)
      · intro call' mem
        rw [next, call] at mem
        rcases List.mem_cons.1 mem with rfl | mem
        · exact ⟨past, _, [], _, rfl, ⟨rfl, rfl⟩, opening?_of_call call⟩
        · exact (ih call' mem).append _
      · exact keeps (by rw [next, nothing]; exact List.Subset.refl _)
    | setAutomatic on => exact keeps (by rw [next]; exact List.Subset.refl _)
    | setColor color => exact keeps (by rw [next]; exact List.Subset.refl _)

/-- Unless a `deactivate` has come in between, an answer closes the activation of its call or an
explicit one that stands on another one. -/
theorem opener_of_answer {past : List (ActivationStep α)} {sender receiver : String}
    (known : ⟨receiver, sender⟩ ∈ (after past).calls) {opening : Opening α}
    {opener : ActivationStep α} (opened : OpenedBy past opening opener)
    (same : opening.participant = sender) :
    (opening.depth = 0 ∧ opener.IsMessage receiver sender) ∨
      (opening.depth ≠ 0 ∧ ∃ y color, opener = .activate sender y color) ∨
      ClosedByHand past sender := by
  by_cases closed : ClosedByHand past sender
  · exact .inr (.inr closed)
  have waits : (⟨receiver, sender⟩ : ImplicitCall) ∈ (after past).waiting sender :=
    List.mem_filter.2 ⟨known, decide_eq_true rfl⟩
  rcases answersOwn past sender closed with none_waits | ⟨caller, only, called⟩
  · exact absurd (none_waits ▸ waits) List.not_mem_nil
  · rw [only, List.mem_singleton] at waits
    obtain rfl : receiver = caller := congrArg ImplicitCall.caller waits
    by_cases bottom : opening.depth = 0
    · obtain ⟨first, opener', opened', call, same', low⟩ := called
      obtain rfl := opened.unique opened' (same.trans same'.symm) (bottom.trans low.symm)
      exact .inl ⟨bottom, call⟩
    · obtain ⟨before, later, -, told⟩ := opened.split
      rcases opening?_cases told with ⟨y, color, explicit⟩ | ⟨low, -⟩
      · exact .inr (.inl ⟨bottom, y, color, same ▸ explicit⟩)
      · exact absurd low bottom

/-- What a message closes. It closes nothing, or, if a message to its sender from its receiver has
opened an activation before, the innermost activation of its sender. That one is the one of the
call, or an explicit one that stands on others, or else a `deactivate` has closed what a message
had opened. So messages close only what messages have opened as long as no explicit activation or
deactivation comes between them. -/
theorem message_closes_innermost (past : List (ActivationStep α)) (sender receiver : String)
    (sendY arriveY : α) :
    let next := after (past ++ [.message sender receiver sendY arriveY])
    next.finished = (after past).finished ∨
      ∃ interval opener, interval.participant = sender ∧
        (after past).Retires next interval sendY ∧
        OpenedBy past interval.opening opener ∧ HasCalled past receiver sender ∧
        ((interval.depth = 0 ∧ opener.IsMessage receiver sender) ∨
          (interval.depth ≠ 0 ∧ ∃ y color, opener = .activate sender y color) ∨
          ClosedByHand past sender) ∧
        ((∀ step ∈ past, ¬step.IsDirective sender) → opener.IsMessage receiver sender) := by
  intro next
  have step : next = (after past).onMessage sender receiver sendY arriveY := after_append past _
  rcases (after past).onMessage_cases sender receiver sendY arriveY with
    ⟨known, answer⟩ | ⟨-, -, -, call⟩ | ⟨-, nothing⟩
  · rcases deactivate_cases { after past with
        calls := (after past).calls.erase ⟨receiver, sender⟩ } sender sendY with
      ⟨-, same⟩ | ⟨interval, of, retires⟩
    · exact .inl (by rw [step, answer, same])
    · rw [← answer, ← step] at retires
      have retires : (after past).Retires next interval sendY := retires.of_books rfl rfl
      obtain ⟨opener, opened⟩ := (exists_openedBy_iff past interval.opening).2
        (retires.pending.mem_iff.2 List.mem_cons_self)
      have cause := opener_of_answer known opened of
      refine .inr ⟨interval, opener, of, retires, opened, hasCalled_of_mem_calls past _ known,
        cause, fun free => ?_⟩
      rcases cause with ⟨-, own⟩ | ⟨-, y, color, rfl⟩ | ⟨before, y, later, _, _, _, rfl, -⟩
      · exact own
      · obtain ⟨before, later, rfl, -⟩ := opened.split
        exact absurd rfl (free _ (List.mem_append_right _ List.mem_cons_self))
      · exact absurd rfl (free _ (List.mem_append_right _ List.mem_cons_self))
  · exact .inl (by rw [step, call]; rfl)
  · exact .inl (by rw [step, nothing])

/-- An explicit activation that stands on the one of the call is what the answer closes. -/
theorem message_closes_innermost_of_stacked :
    let past : List (ActivationStep Rat) :=
      [.setAutomatic true, .message "a" "b" 0 1, .activate "b" 2 none]
    (after (past ++ [.message "b" "a" 3 4])).finished = [⟨"b", 2, 3, 1, none⟩] ∧
      ∃ opener, OpenedBy past ⟨"b", 2, 1, none⟩ opener ∧ ¬opener.IsMessage "a" "b" := by
  intro past
  have open_now : (after past).finished = [] := by decide +kernel
  have closed : (after (past ++ [.message "b" "a" 3 4])).finished = [⟨"b", 2, 3, 1, none⟩] := by
    decide +kernel
  refine ⟨closed, ?_⟩
  rcases message_closes_innermost past "b" "a" 3 4 with
    same | ⟨interval, opener, -, retires, opened, -, cause, -⟩
  · exact nomatch closed.symm.trans (same.trans open_now)
  · have told := retires.finished
    rw [closed, open_now] at told
    obtain rfl := List.singleton_inj.1 told
    refine ⟨opener, opened, ?_⟩
    rcases cause with ⟨bottom, -⟩ | ⟨-, y, color, rfl⟩ | ⟨before, y, later, _, _, _, split, -⟩
    · cases bottom
    · exact id
    · have mem : .deactivate "b" y ∈ past := split ▸ List.mem_append_right _ List.mem_cons_self
      simp [past] at mem

end ActivationTracker

end SequenceDiagram.Layout
