import SequenceDiagram.Proofs.Ledger

set_option autoImplicit false

namespace SequenceDiagram

namespace Layout

structure Fate where
  pending : Bool := false
  ended : Option LifelineEnd := none
deriving DecidableEq, Repr

namespace Fate

/-- The first end counts. -/
def finish (fate : Fate) (kind : LifelineEnd) : Fate :=
  { fate with ended := some (fate.ended.getD kind) }

def strike (fate : Fate) : Fate :=
  if fate.pending then { fate with pending := false }.finish .destroyed else fate

def meet (key : String) (fate : Fate) : Element → Fate
  | .message m => if m.source = key ∨ m.target = key then fate.strike else fate
  | .directive (.destroyAfter other) => if other = key then { fate with pending := true } else fate
  | .directive (.destroy other) => if other = key then fate.finish .destroyed else fate
  | .directive (.destroySilent other) => if other = key then fate.finish .silent else fate
  | _ => fate

def outcome (fate : Fate) : LifelineEnd :=
  fate.ended.getD .bottom

/-- A message from a participant to itself strikes it no harder. -/
theorem strike_strike (fate : Fate) : fate.strike.strike = fate.strike := by
  cases pending : fate.pending <;> simp [strike, finish, pending]

theorem meet_of_not_mem {key : String} {element : Element} (other : key ∉ element.mentions)
    (fate : Fate) : fate.meet key element = fate := by
  cases element with
  | message m =>
    refine if_neg fun met => other ?_
    obtain rfl | rfl := met <;> simp [Element.mentions]
  | directive d =>
    cases d with
    | destroyAfter | destroy | destroySilent =>
      refine if_neg fun met => other ?_
      obtain rfl := met
      exact List.mem_singleton_self _
    | _ => rfl
  | _ => rfl

end Fate

section
variable {α : Type}

def Progress.fate (key : String) (progress : Progress α) : Fate :=
  ⟨progress.doomed.contains key, (progress.endings.lookup key).map Ending.kind⟩

namespace Progress
variable {key : String} {progress : Progress α}

theorem fate_of_ledger {progress' : Progress α} (same : progress.ledger = progress'.ledger) :
    progress.fate key = progress'.fate key :=
  congrArg (fun ledger : _ × List (String × Ending α) × List String × Bool =>
    Fate.mk (ledger.2.2.1.contains key) ((ledger.2.1.lookup key).map Ending.kind)) same

theorem fate_endLifeline [Scalar α] (other : String) (y : α) (kind : LifelineEnd) :
    (progress.endLifeline other y kind).fate key =
      if other = key then (progress.fate key).finish kind else progress.fate key := by
  unfold endLifeline fate Fate.finish
  by_cases same : other = key
  · subst same
    cases found : progress.endings.lookup other <;> simp [found]
  · have foreign : (key == other) = false := by simpa using Ne.symm same
    rw [if_neg same]
    dsimp only
    split
    · rfl
    · rw [List.lookup_cons, foreign]

theorem fate_doom (other : String) :
    { progress with doomed := other :: progress.doomed.filter (· ≠ other) }.fate key =
      if other = key then { progress.fate key with pending := true } else progress.fate key := by
  unfold fate
  by_cases same : other = key
  · simp [same]
  · simp [same, Ne.symm same]

theorem fate_destroyDoomed [Scalar α] (y : α) (other : String) :
    (progress.destroyDoomed y other).fate key =
      if other = key then (progress.fate key).strike else progress.fate key := by
  unfold destroyDoomed
  by_cases same : other = key
  · subst same
    rw [if_pos rfl]
    split
    · rename_i pending
      rw [fate_endLifeline, if_pos rfl]
      simp_all [fate, Fate.strike]
    · rename_i calm
      simp_all [fate, Fate.strike]
  · rw [if_neg same]
    split
    · rw [fate_endLifeline, if_neg same]
      simp [fate, Ne.symm same]
    · rfl

end Progress

section
variable [Scalar α]

theorem Setting.isTold_fate (setting : Setting α) (key : String) :
    setting.IsTold (Progress.fate key) (Fate.meet key) where
  ledger _ _ same := Progress.fate_of_ledger same
  leaf node progress known := by
    obtain ⟨id, lineStart, lineEnd, element⟩ := node
    cases element with
    | message m =>
      obtain ⟨y, placed⟩ := setting.ledger_placeMessage id progress known
      refine (Progress.fate_of_ledger placed).trans ?_
      have counted : (countMessage progress).fate key = progress.fate key := rfl
      rw [Progress.fate_destroyDoomed, Progress.fate_destroyDoomed, counted]
      change _ = if m.source = key ∨ m.target = key then (progress.fate key).strike
        else progress.fate key
      by_cases source : m.source = key <;> by_cases target : m.target = key <;>
        simp [source, target, Fate.strike_strike]
    | note n =>
      change (setting.placeNote id n progress).fate key = progress.fate key
      rw [placeNote_eq]
      rfl
    | directive d =>
      cases d with
      | destroy other =>
        change (progress.closeLevel.endLifeline other progress.cursor .destroyed).fate key = _
        rw [Progress.fate_endLifeline]
        rfl
      | destroySilent other =>
        change (progress.endLifeline other progress.cursor .silent).fate key = _
        rw [Progress.fate_endLifeline]
        rfl
      | destroyAfter other => exact Progress.fate_doom other
      | _ => rfl
    | _ => rfl
  beside fate element beside := by
    cases element with
    | participant | group => rfl
    | _ => cases beside

def wish (wished : Bool) : Element → Bool
  | .directive .bottomParticipants => true
  | _ => wished

theorem recount_wish (wished : Bool) (nodes : List Node) :
    recount wish wished nodes = true ↔
      wished = true ∨ ∃ node ∈ nodes, node.element = .directive .bottomParticipants := by
  induction nodes generalizing wished with
  | nil => simp [recount]
  | cons node nodes ih =>
    rw [recount_cons, ih, List.exists_mem_cons_iff, ← or_assoc]
    refine or_congr_left ?_
    unfold wish
    split
    · rename_i element
      simp [element]
    · rename_i other
      exact ⟨Or.inl, fun wished => wished.resolve_right other⟩

theorem Progress.bottomParticipants_destroyDoomed (progress : Progress α) (y : α) (key : String) :
    (progress.destroyDoomed y key).bottomParticipants = progress.bottomParticipants := by
  unfold destroyDoomed
  split <;> rfl

theorem Setting.isTold_bottomParticipants (setting : Setting α) :
    setting.IsTold Progress.bottomParticipants wish where
  ledger _ _ same := congrArg (fun ledger => ledger.2.2.2) same
  leaf node progress known := by
    obtain ⟨id, lineStart, lineEnd, element⟩ := node
    cases element with
    | message m =>
      obtain ⟨y, placed⟩ := setting.ledger_placeMessage id progress known
      have wished : (setting.placeMessage id m progress).bottomParticipants = _ :=
        congrArg (fun ledger => ledger.2.2.2) placed
      refine wished.trans ?_
      change Progress.bottomParticipants _ = _
      rw [Progress.bottomParticipants_destroyDoomed, Progress.bottomParticipants_destroyDoomed]
      rfl
    | note n =>
      change (setting.placeNote id n progress).bottomParticipants = progress.bottomParticipants
      rw [placeNote_eq]
      rfl
    | directive d => cases d <;> rfl
    | _ => rfl
  beside wished element beside := by
    cases element with
    | participant | group => rfl
    | _ => cases beside

theorem Setting.kind_endingOf (setting : Setting α) (progress : Progress α) (key : String) :
    (setting.endingOf progress key).kind = (progress.fate key).outcome := by
  unfold endingOf Progress.fate Fate.outcome
  dsimp only
  cases progress.endings.lookup key <;> rfl

end

end

end Layout

namespace Document
open Layout

noncomputable def fate (document : Document) (key : String) : Fate :=
  recount (Fate.meet key) {} (document.visible.filter fun node => key ∈ node.element.mentions)

section
variable {α : Type} [Scalar α]

theorem fate_beginning (document : Document) (config : Config α) (key : String) :
    (document.beginning config).fate key = {} := by
  unfold beginning drawTitle
  split <;> rfl

theorem bottomParticipants_beginning (document : Document) (config : Config α) :
    (document.beginning config).bottomParticipants = false :=
  congrArg (fun ledger => ledger.2.2.2) (ledger_beginning config)

theorem fate_placeAll (first : UInt32) (text : String) (config : Config α)
    (fits : (readFrom first text).nodes.length ≤ 2 ^ 32) (key : String) :
    (placeAll (setting (readFrom first text) config)).fate key =
      (readFrom first text).fate key := by
  have told := (setting (readFrom first text) config).isTold_fate key
  rw [recount_visible first text fits told, fate_beginning, fate, recount_filter]
  exact fun node _ other => Fate.meet_of_not_mem (by simpa using other)

theorem bottomParticipants_placeAll (first : UInt32) (text : String) (config : Config α)
    (fits : (readFrom first text).nodes.length ≤ 2 ^ 32) :
    (placeAll (setting (readFrom first text) config)).bottomParticipants = true ↔
      ∃ node ∈ (readFrom first text).visible, node.element = .directive .bottomParticipants := by
  have told := (setting (readFrom first text) config).isTold_bottomParticipants
  rw [recount_visible first text fits told, recount_wish, bottomParticipants_beginning]
  simp

theorem ends_layout (document : Document) (config : Config α) :
    let canvas := document.layout config
    let placed := placeAll (setting document config)
    canvas.lifelines.map (fun line => (line.participant, line.endKind)) =
        canvas.order.map (fun key => (key, (placed.fate key).outcome)) ∧
      canvas.footers.map Prod.fst =
        if placed.bottomParticipants then
          canvas.order.filter fun key => (placed.fate key).outcome = .bottom
        else [] := by
  intro canvas placed
  obtain ⟨order, footers, ends⟩ := document.names_layout config
  rw [order, footers, ends]
  let boxes := Setting.finalBoxes (setting document config) placed
  constructor
  · change (boxes.map _).map _ = (boxes.map Prod.fst).map _
    rw [List.map_map, List.map_map]
    exact List.map_congr_left fun box _ => congrArg (Prod.mk box.1) (Setting.kind_endingOf _ _ _)
  · change (Setting.footerBoxes _ placed).map Prod.fst =
      if placed.bottomParticipants then (boxes.map Prod.fst).filter _ else []
    unfold Setting.footerBoxes
    split
    · rw [List.map_map, List.filter_map]
      simp only [Setting.kind_endingOf]
      rfl
    · rfl

/-- Every participant has one lifeline. How it ends is for the visible nodes alone that mention the
participant: it is destroyed by the first `destroy` or by the first message after `destroyafter`,
ends unmarked by `destroysilent`, and otherwise runs down to the bottom. Footers, if a visible
`bottomparticipants` asks for them, repeat those that run down to the bottom. By `fits` the
identifiers, 32-bit words, are all different. -/
theorem lifelines_end_on_their_own (first : UInt32) (text : String) (config : Config α)
    (fits : (readFrom first text).nodes.length ≤ 2 ^ 32) :
    let document := readFrom first text
    let canvas := document.layout config
    canvas.order.Nodup ∧
      canvas.lifelines.map (fun line => (line.participant, line.endKind)) =
        canvas.order.map (fun key => (key, (document.fate key).outcome)) ∧
      canvas.footers.map Prod.fst =
        if ∃ node ∈ document.visible, node.element = .directive .bottomParticipants then
          canvas.order.filter fun key => (document.fate key).outcome = .bottom
        else [] := by
  obtain ⟨ends, footers⟩ := (readFrom first text).ends_layout config
  simp only [fate_placeAll first text config fits] at ends footers
  have wished := bottomParticipants_placeAll first text config fits
  exact ⟨((readFrom first text).order_layout config).1 ▸ nodup_roster _, ends,
    footers.trans (if_congr wished rfl rfl)⟩

end

/-- The message in the collapsed fragment does not destroy `a`, and `b` has ended when `destroy`
comes. -/
theorem lifelines_end_on_their_own_of_collapsed :
    let text := "destroyafter a\nexpandable-\na->b\nend\nbottomparticipants\na->a\n" ++
      "destroysilent b\ndestroy b\nactivate c"
    let document := readFrom 0 text
    let canvas := document.layout (Config.default : Config Rat)
    document.nodes.length ≤ 2 ^ 32 ∧
      canvas.lifelines.map (fun line => (line.participant, line.endKind)) =
        [("a", .destroyed), ("b", .silent), ("c", .bottom)] ∧
      canvas.lifelines.map (fun line => (line.participant, line.endKind)) =
        canvas.order.map (fun key => (key, (document.fate key).outcome)) := by
  intro text document canvas
  obtain ⟨fits, drawn⟩ : document.nodes.length ≤ 2 ^ 32 ∧
      canvas.lifelines.map (fun line => (line.participant, line.endKind)) =
        [("a", .destroyed), ("b", .silent), ("c", .bottom)] := by
    decide +kernel
  exact ⟨fits, drawn, (lifelines_end_on_their_own 0 text Config.default fits).2.1⟩

end Document

end SequenceDiagram
