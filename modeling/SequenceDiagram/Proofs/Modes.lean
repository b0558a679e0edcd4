import SequenceDiagram.Proofs.Shown
import SequenceDiagram.Proofs.Walks

set_option autoImplicit false

namespace SequenceDiagram

def Element.switch (element : Element) (modes : Bool × Bool) : Bool × Bool :=
  match element with
  | .directive (.linear on) => (on, modes.2)
  | .directive (.parallel on) => (modes.1, on)
  | _ => modes

/-- The modes in which each node of a row comes up. Every section of a row begins with the same
modes, and a fragment with those that it comes up in. -/
def Tour.modesAt (begin : Bool × Bool) : Tour → Bool × Bool → List (Node × (Bool × Bool))
  | .nil, _ => []
  | .mark _ next, _ => Tour.modesAt begin next begin
  | .tree node body next, modes =>
    (node, modes) ::
      ((match node.element with
        | .fragment _ => Tour.modesAt modes body modes
        | _ => []) ++
        Tour.modesAt begin next (node.element.switch modes))

namespace Layout
variable {α : Type}

def Progress.modes (progress : Progress α) : Bool × Bool :=
  (progress.linear, progress.parallel)

/-- As it was before for the packing modes, and with no open level. -/
structure Progress.Resumes (progress before : Progress α) : Prop where
  linear : progress.linear = before.linear
  parallel : progress.parallel = before.parallel
  closed : progress.packer.isOpen = false

theorem Progress.Resumes.modes_eq {progress before : Progress α}
    (resumes : progress.Resumes before) : progress.modes = before.modes :=
  Prod.ext resumes.linear resumes.parallel

variable [Scalar α]

theorem Progress.modes_reserve (progress : Progress α) (span : Span α) (height : α) :
    (progress.reserve span height).modes = progress.modes := by
  unfold reserve
  split <;> rfl

theorem Progress.modes_destroyDoomed (progress : Progress α) (y : α) (key : String) :
    (progress.destroyDoomed y key).modes = progress.modes := by
  unfold destroyDoomed
  split <;> rfl

namespace Setting
variable {setting : Setting α}

omit [Scalar α] in
theorem modes_remember (key : String) (box : Rect α) (progress : Progress α) :
    (remember key box progress).modes = progress.modes := by
  unfold remember
  split <;> rfl

theorem Creates.modes {message : Message} {arrow arrow' : MessageGeometry α}
    {progress after : Progress α} (creates : setting.Creates message arrow progress arrow' after) :
    after.modes = progress.modes := by
  cases creates with
  | plain => rfl
  | hidden => exact modes_remember _ _ _
  | forward => exact modes_remember _ _ _
  | backward => exact modes_remember _ _ _

theorem modes_placeMessage (id : NodeId) (message : Message) (progress : Progress α) :
    (setting.placeMessage id message progress).modes = progress.modes := by
  unfold placeMessage
  split
  · rfl
  · rename_i shape measured
    have created := (setting.creates_placeCreated message (shape.arrow progress)
      (countMessage (progress.reserve shape.span shape.height))).modes
    have reserved := progress.modes_reserve shape.span shape.height
    exact (Progress.modes_destroyDoomed _ _ _).trans
      ((Progress.modes_destroyDoomed _ _ _).trans (created.trans reserved))

/-- Only the two directives change the modes. -/
theorem modes_placeLeaf (node : Node) (progress : Progress α) :
    (setting.placeLeaf node progress).modes = node.element.switch progress.modes := by
  obtain ⟨id, lineStart, lineEnd, element⟩ := node
  cases element with
  | message m => exact modes_placeMessage id m progress
  | note n =>
    change (setting.placeNote id n progress).modes = progress.modes
    rw [placeNote_eq]
    rfl
  | directive d => cases d <;> rfl
  | _ => rfl

theorem resumes_placeFragment (node : Node) (f : Fragment)
    (sections : Progress α → Progress α × List α) (before : Progress α) :
    (setting.placeFragment node f sections before).Resumes before := by
  have left : (setting.leaveFragment f (endSection before.linear before.parallel
      (sections (setting.enterFragment f before)).1)).Resumes before := by
    unfold leaveFragment
    split <;> exact ⟨rfl, rfl, rfl⟩
  exact ⟨left.linear, left.parallel, left.closed⟩

theorem resumes_enterFragment (f : Fragment) (before : Progress α) :
    (setting.enterFragment f before).Resumes before := by
  unfold enterFragment
  split <;> exact ⟨rfl, rfl, rfl⟩

theorem modes_placeTree (node : Node) (body : Tour) (progress : Progress α) :
    (setting.placeTree node body progress).modes = node.element.switch progress.modes := by
  by_cases fragment : ∃ f, node.element = .fragment f
  · obtain ⟨f, element⟩ := fragment
    have resumes := setting.resumes_placeFragment node f
      (setting.placeRow progress.linear progress.parallel body) progress
    rw [placeTree, element]
    exact resumes.modes_eq
  · rw [placeTree_leaf (fun f element => fragment ⟨f, element⟩)]
    exact setting.modes_placeLeaf node progress

/-- Every node is placed in the modes that its own section has switched before it. -/
theorem map_modes_arrivals (linear parallel : Bool) (tour : Tour) (progress : Progress α) :
    (setting.arrivals linear parallel tour progress).map
        (fun arrival => (arrival.node, arrival.before.modes)) =
      tour.modesAt (linear, parallel) progress.modes := by
  induction tour generalizing linear parallel progress with
  | nil => rfl
  | mark _ next ih => exact ih linear parallel _
  | tree node body next ihb ihn =>
    rw [arrivals, Tour.modesAt, List.map_cons, List.map_append, ihn, modes_placeTree]
    refine congrArg (fun inside => (node, progress.modes) :: (inside ++ _)) ?_
    cases node.element with
    | fragment f =>
      rw [ihb, (setting.resumes_enterFragment f progress).modes_eq]
      rfl
    | _ => rfl

def beginnings (setting : Setting α) (linear parallel : Bool) :
    Tour → Progress α → List (Progress α)
  | .nil, _ => []
  | .mark _ next, progress =>
    let begun := setting.enterElse (endSection linear parallel progress)
    begun :: setting.beginnings linear parallel next begun
  | .tree node body next, progress =>
    setting.beginnings linear parallel next (setting.placeTree node body progress)

/-- The states in which the sections of a fragment begin. Those of a collapsed one do not. -/
def sectionStarts (setting : Setting α) (f : Fragment) (body : Tour) (before : Progress α) :
    List (Progress α) :=
  if f.isCollapsed then []
  else
    let inside := setting.enterFragment f before
    inside :: setting.beginnings before.linear before.parallel body inside

theorem length_beginnings (linear parallel : Bool) (tour : Tour) (progress : Progress α) :
    (setting.beginnings linear parallel tour progress).length = tour.clauses := by
  induction tour generalizing progress with
  | nil => rfl
  | mark _ next ih => exact congrArg (· + 1) (ih _)
  | tree node body next _ ih => exact ih _

/-- A section begins behind each mark, in the state in which the row in front of the mark leaves
the one before it. -/
theorem mem_beginnings_iff {linear parallel : Bool} {tour : Tour} {progress start : Progress α} :
    start ∈ setting.beginnings linear parallel tour progress ↔
      ∃ front back : Tour, tour = front.append (.mark () back) ∧
        start = setting.enterElse
          (endSection linear parallel (setting.placeRow linear parallel front progress).1) := by
  induction tour generalizing progress with
  | nil =>
    refine iff_of_false List.not_mem_nil ?_
    rintro ⟨front, back, whole, -⟩
    cases front <;> contradiction
  | mark _ next ih =>
    rw [beginnings, List.mem_cons, ih]
    constructor
    · rintro (rfl | ⟨front, back, rfl, rfl⟩)
      · exact ⟨.nil, next, rfl, rfl⟩
      · exact ⟨.mark () front, back, rfl, rfl⟩
    · rintro ⟨front, back, whole, rfl⟩
      cases front with
      | nil => exact Or.inl rfl
      | mark _ front =>
        obtain rfl : next = front.append (.mark () back) := by injection whole
        exact Or.inr ⟨front, back, rfl, rfl⟩
      | tree => contradiction
  | tree node body next _ ih =>
    rw [beginnings, ih]
    constructor
    · rintro ⟨front, back, rfl, rfl⟩
      exact ⟨.tree node body front, back, rfl, rfl⟩
    · rintro ⟨front, back, whole, rfl⟩
      cases front with
      | nil => contradiction
      | mark => contradiction
      | tree node' body' front =>
        obtain ⟨rfl, rfl, rfl⟩ : node = node' ∧ body = body' ∧
            next = front.append (.mark () back) := by
          injection whole with label inside behind
          exact ⟨label, inside, behind⟩
        exact ⟨front, back, rfl, rfl⟩

/-- From the beginning of a section on the pass goes through what is left of the row. -/
theorem goes_on_of_mem_beginnings {linear parallel : Bool} {tour : Tour}
    {progress start : Progress α} (mem : start ∈ setting.beginnings linear parallel tour progress) :
    ∃ rest, setting.arrivals linear parallel rest start <:+
        setting.arrivals linear parallel tour progress ∧
      (setting.placeRow linear parallel rest start).1 =
        (setting.placeRow linear parallel tour progress).1 := by
  obtain ⟨front, back, rfl, rfl⟩ := mem_beginnings_iff.1 mem
  refine ⟨back, ?_, ?_⟩
  · rw [arrivals_append, arrivals]
    exact List.suffix_append _ _
  · simp only [placeRow_append, placeRow]

end Setting

end Layout

namespace Document
variable {document : Document}

theorem countP_entries (sections : List (List NodeId)) :
    (document.entries sections).countP Option.isNone = sections.length - 1 := by
  have named (ids : List NodeId) :
      ((ids.filterMap document.get?).map some).countP Option.isNone = 0 := by
    simp [List.countP_eq_zero]
  have marked (sections : List (List NodeId)) :
      (document.markedEntries sections).countP Option.isNone = sections.length := by
    induction sections with
    | nil => rfl
    | cons ids sections ih =>
      rw [markedEntries, List.countP_cons_of_pos rfl, List.countP_append, named, ih]
      simp
  cases sections with
  | nil => rfl
  | cons ids sections =>
    rw [entries, List.countP_append, named, marked, List.length_cons]
    omega

theorem Walks.clauses_eq {route : Route} {row : List (Option Node)} {visited after : List NodeId}
    {tour : Tour} (walks : document.Walks route row visited tour after) :
    tour.clauses = row.countP Option.isNone := by
  induction walks with
  | done => rfl
  | mark _ ih => rw [Tour.clauses, ih, List.countP_cons_of_pos rfl]
  | again _ _ ih => rw [ih, List.countP_cons_of_neg (by simp)]
  | visit _ _ _ _ ih => rw [Tour.clauses, ih, List.countP_cons_of_neg (by simp)]

end Document

namespace Layout
variable {α : Type} [Scalar α]

/-- However a fragment was entered and whatever is switched in it at any depth, it leaves the
packing modes as it found them and no level open, and each of its sections begins so: the main one
and every else clause, or none if it is collapsed. From each beginning the pass goes on to the end
of the fragment, and every node in it comes up in the modes that its own section has switched. -/
theorem modes_stay_inside (setting : Setting α) (node : Node) (f : Fragment)
    {visited after : List NodeId} {body : Tour}
    (walks : setting.document.Walks .openFragments
      (setting.document.entries (Route.openFragments (.fragment f))) visited body after)
    (before : Progress α) :
    (setting.placeFragment node f (setting.placeRow before.linear before.parallel body)
        before).Resumes before ∧
      (setting.sectionStarts f body before).length =
        (if f.isCollapsed then 0 else f.elseClauses.length + 1) ∧
      (∀ start ∈ setting.sectionStarts f body before, start.Resumes before ∧
        ∃ rest, setting.arrivals before.linear before.parallel rest start <:+
            setting.arrivals before.linear before.parallel body (setting.enterFragment f before) ∧
          (setting.placeRow before.linear before.parallel rest start).1 =
            (setting.placeRow before.linear before.parallel body
              (setting.enterFragment f before)).1) ∧
      (setting.arrivals before.linear before.parallel body (setting.enterFragment f before)).map
          (fun arrival => (arrival.node, arrival.before.modes)) =
        body.modesAt before.modes before.modes := by
  refine ⟨setting.resumes_placeFragment node f _ before, ?_⟩
  have modes := setting.map_modes_arrivals before.linear before.parallel body
    (setting.enterFragment f before)
  rw [(setting.resumes_enterFragment f before).modes_eq] at modes
  rw [← and_assoc]
  refine ⟨?_, modes⟩
  unfold Setting.sectionStarts
  by_cases collapsed : f.isCollapsed
  · simp [collapsed]
  · have clauses : body.clauses = f.elseClauses.length := by
      rw [walks.clauses_eq, Document.countP_entries, Route.openFragments, if_neg collapsed,
        Fragment.sections, List.length_cons, List.length_map]
      rfl
    rw [if_neg collapsed, if_neg collapsed, List.length_cons, Setting.length_beginnings, clauses]
    refine ⟨rfl, fun start mem => ?_⟩
    rcases List.mem_cons.1 mem with rfl | mem
    · exact ⟨setting.resumes_enterFragment f before, body, List.suffix_refl _, rfl⟩
    · refine ⟨?_, Setting.goes_on_of_mem_beginnings mem⟩
      obtain ⟨front, back, -, rfl⟩ := Setting.mem_beginnings_iff.1 mem
      exact ⟨rfl, rfl, rfl⟩

/-- A loop that is entered in parallel mode while a level is open. Its first section and the
fragment in it switch both modes; its else clause begins in parallel mode again. -/
theorem modes_stay_inside_of_loop :
    let document := Document.readFrom 0
      "loop\nlinear\nA->B\nopt\nparallel off\nB->A\nend\nB->A\nelse\nA->B\nend"
    let setting : Setting Rat := setting document .default
    let f : Fragment := ⟨.loop, "", none, [⟨1⟩, ⟨2⟩, ⟨3⟩, ⟨6⟩], [⟨"", none, [⟨7⟩]⟩], none⟩
    let node : Node := ⟨⟨0⟩, 1, 11, .fragment f⟩
    let toured := document.tourBody .openFragments 9 node [⟨0⟩]
    let body := toured.1
    let before : Progress Rat :=
      { Progress.start 60 with parallel := true, packer := ⟨some ⟨40, 60, []⟩⟩ }
    node ∈ document.nodes ∧
      document.Walks .openFragments (document.entries (Route.openFragments (.fragment f))) [⟨0⟩]
        body toured.2 ∧
      (setting.placeFragment node f (setting.placeRow before.linear before.parallel body)
        before).Resumes before ∧
      (setting.sectionStarts f body before).length = 2 ∧
      (∀ start ∈ setting.sectionStarts f body before, start.Resumes before) ∧
      (setting.arrivals before.linear before.parallel body (setting.enterFragment f before)).map
          (fun arrival => (arrival.node.id, arrival.before.modes)) =
        [(⟨1⟩, false, true), (⟨2⟩, true, true), (⟨3⟩, true, true), (⟨4⟩, true, true),
          (⟨5⟩, true, false), (⟨6⟩, true, true), (⟨7⟩, false, true)] := by
  intro document setting f node toured body before
  have few : document.unvisited [⟨0⟩] < 9 := by decide +kernel
  have walks := Document.walks_tourBody .openFragments 9 node few
  have inside := modes_stay_inside setting node f walks before
  exact ⟨by decide +kernel, walks, inside.1, inside.2.1,
    fun start mem => (inside.2.2.1 start mem).1, by decide +kernel⟩

end Layout

end SequenceDiagram
