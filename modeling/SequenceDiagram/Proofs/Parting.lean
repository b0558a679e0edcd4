import SequenceDiagram.Proofs.Turning
import SequenceDiagram.Proofs.Walks

set_option autoImplicit false

/-!
# Where two tours part

The tour of a document and that of the same document with a fragment turned come by the same nodes
until they come to that fragment. Up to there everything is placed alike. What is drawn later is
what comes up after the fragment and the frames of the fragments around it.
-/
namespace SequenceDiagram

namespace Document
open Layout.Setting (isFragment)
variable {document : Document} {id : NodeId} {collapsed : Bool}

theorem filterMap_get?_turned (ids : List NodeId) :
    ids.filterMap (document.turned id collapsed).get? =
      (ids.filterMap document.get?).map (Node.turn id collapsed) := by
  rw [List.map_filterMap]
  exact List.filterMap_congr fun key _ => document.get?_turned id collapsed key

theorem markedEntries_turned (sections : List (List NodeId)) :
    (document.turned id collapsed).markedEntries sections =
      (document.markedEntries sections).map (Option.map (Node.turn id collapsed)) := by
  induction sections with
  | nil => rfl
  | cons ids sections ih =>
    simp [markedEntries, ih, filterMap_get?_turned]

theorem entries_turned (sections : List (List NodeId)) :
    (document.turned id collapsed).entries sections =
      (document.entries sections).map (Option.map (Node.turn id collapsed)) := by
  cases sections with
  | nil => rfl
  | cons ids sections => simp [entries, markedEntries_turned, filterMap_get?_turned]

theorem fragments_turn (node : Node) :
    Route.fragments (node.turn id collapsed).element = Route.fragments node.element :=
  Node.read_turn (fun node => Route.fragments node.element)
    (fun _ _ _ f => f.sections_withCollapsed collapsed) node

theorem Walks.turned {row : List (Option Node)} {visited after : List NodeId} {tour : Tour}
    (walks : document.Walks .fragments row visited tour after) :
    ∃ tour', (document.turned id collapsed).Walks .fragments
        (row.map (Option.map (Node.turn id collapsed))) visited tour' after ∧
      tour'.labels = tour.labels.map (Node.turn id collapsed) ∧
      tour'.nesting isFragment = tour.nesting isFragment := by
  induction walks with
  | done => exact ⟨.nil, .done, rfl, rfl⟩
  | mark _ ih =>
    obtain ⟨next, rest, labels, nesting⟩ := ih
    exact ⟨.mark () next, .mark rest, labels, nesting⟩
  | @again node _ _ _ _ known _ ih =>
    obtain ⟨next, rest, labels, nesting⟩ := ih
    exact ⟨next, .again (node.id_turn.symm ▸ known) rest, labels, nesting⟩
  | @visit node _ _ _ _ _ _ fresh _ _ ihb ihn =>
    obtain ⟨body, below, labels, nesting⟩ := ihb
    obtain ⟨next, rest, labels', nesting'⟩ := ihn
    rw [← entries_turned, ← fragments_turn node, ← node.id_turn] at below
    refine ⟨.tree (node.turn id collapsed) body next,
      .visit (node.id_turn.symm ▸ fresh) below rest, ?_, ?_⟩
    · simp [Forest.labels, labels, labels']
    · have kind : isFragment (node.turn id collapsed).element =
          isFragment node.element :=
        Node.read_turn (fun node => isFragment node.element)
          (fun _ _ _ _ => rfl) node
      rw [Tour.nesting, Tour.nesting, kind, nesting, nesting']

theorem tourUnder_turned (node : Node) :
    ((document.turned id collapsed).tourUnder .fragments (node.turn id collapsed)).labels =
        (document.tourUnder .fragments node).labels.map (Node.turn id collapsed) ∧
      ((document.turned id collapsed).tourUnder .fragments (node.turn id collapsed)).nesting
          isFragment =
        (document.tourUnder .fragments node).nesting isFragment := by
  obtain ⟨inside, _, walks, labels, nesting⟩ :=
    document.exists_walks_tourUnder .fragments node
  obtain ⟨inside', _, walks', labels', nesting'⟩ :=
    (document.turned id collapsed).exists_walks_tourUnder .fragments (node.turn id collapsed)
  obtain ⟨mapped, again, sameLabels, sameNesting⟩ := @Walks.turned _ id collapsed _ _ _ _ walks
  rw [fragments_turn, entries_turned] at walks'
  obtain rfl := (walks'.unique again).1
  exact ⟨by rw [labels', sameLabels, labels], by rw [nesting', sameNesting, nesting]⟩

end Document

/-- Two tours that come by the same nodes up to a node that they show differently. The fragments
around it meet a condition. -/
inductive Tour.Parts (target target' : Node) (around : Node → Prop) : Tour → Tour → Prop
  | here (body body' next next' : Tour) :
      Parts target target' around (.tree target body next) (.tree target' body' next')
  | body {node : Node} {f : Fragment} (element : node.element = .fragment f)
      (above : around node) {body body' : Tour} (inside : Parts target target' around body body')
      (next next' : Tour) :
      Parts target target' around (.tree node body next) (.tree node body' next')
  | next {node : Node} {body : Tour} (apart : ∀ x ∈ node :: body.labels, x.id ≠ target.id)
      {next next' : Tour} (rest : Parts target target' around next next') :
      Parts target target' around (.tree node body next) (.tree node body next')
  | mark {next next' : Tour} (rest : Parts target target' around next next') :
      Parts target target' around (.mark () next) (.mark () next')

theorem Tour.Parts.mem {target target' : Node} {around : Node → Prop} {tour tour' : Tour}
    (parts : Tour.Parts target target' around tour tour') : target ∈ tour.labels := by
  induction parts with
  | here => exact List.mem_cons_self
  | body _ _ _ next _ ih => exact Tour.subset_body _ _ next ih
  | next _ _ ih => exact Tour.subset_next _ _ _ ih
  | mark _ ih => exact ih

namespace Document
variable {document : Document} {collapsed : Bool}

theorem known_entries (node : Node) :
    ∀ child, some child ∈ document.entries (Route.openFragments node.element) →
      child ∈ document.nodes :=
  fun _ entry => mem_nodes_of_stop (mem_entries.1 entry)

theorem Walks.holds_of_mem (ids : (document.nodes.map Node.id).Nodup) {node x : Node}
    {visited after : List NodeId} {body : Tour} (mem : node ∈ document.nodes)
    (below : document.Walks .openFragments (document.entries (Route.openFragments node.element))
      visited body after) (inside : x ∈ body.labels) :
    (∃ f, node.element = .fragment f) ∧ Relation.TransGen document.Holds node x := by
  obtain ⟨child, entry, steps⟩ := below.reached (known_entries node) inside
  have enters : document.Enters .openFragments node child := ⟨mem, mem_entries.1 entry⟩
  have above : Relation.TransGen (document.Enters .openFragments) node x := .head' enters steps
  obtain ⟨-, f, element, -⟩ := (enters_openFragments_iff ids).1 enters
  exact ⟨⟨f, element⟩, above.lift id fun _ _ enters => ((enters_openFragments_iff ids).1 enters).1⟩

/-- Two walks from the same start either never come by the fragment that is turned, or they part
there. -/
theorem Walks.parts (ids : (document.nodes.map Node.id).Nodup) {target : Node}
    {row : List (Option Node)} {visited after after' : List NodeId} {tour tour' : Tour}
    (target_mem : target ∈ document.nodes) (known : ∀ node, some node ∈ row → node ∈ document.nodes)
    (walks : document.Walks .openFragments row visited tour after)
    (walks' : (document.turned target.id collapsed).Walks .openFragments
      (row.map (Option.map (Node.turn target.id collapsed))) visited tour' after') :
    (tour' = tour ∧ after' = after ∧ ∀ x ∈ tour.labels, x.id ≠ target.id) ∨
      Tour.Parts target (target.turn target.id collapsed)
        (fun owner => Relation.TransGen document.Holds owner target) tour tour' := by
  induction walks generalizing tour' after' with
  | done =>
    cases walks'
    exact Or.inl ⟨rfl, rfl, fun _ mem => absurd mem List.not_mem_nil⟩
  | mark _ ih =>
    cases walks' with
    | mark rest =>
      have later := fun node mem => known node (List.mem_cons_of_mem _ mem)
      rcases ih later rest with ⟨rfl, rfl, absent⟩ | parts
      · exact Or.inl ⟨rfl, rfl, absent⟩
      · exact Or.inr (.mark parts)
  | again seen _ ih =>
    have later := fun node mem => known node (List.mem_cons_of_mem _ mem)
    cases walks' with
    | again _ rest => exact ih later rest
    | visit fresh _ _ =>
      rw [Node.id_turn] at fresh
      exact absurd seen fresh
  | @visit node _ _ _ _ _ _ fresh below _ ihb ihn =>
    have mem := known node List.mem_cons_self
    have later := fun node mem => known node (List.mem_cons_of_mem _ mem)
    cases walks' with
    | again seen _ =>
      rw [Node.id_turn] at seen
      exact absurd seen fresh
    | visit _ below' rest' =>
      by_cases same : node.id = target.id
      · obtain rfl := eq_of_id ids mem target_mem same
        exact Or.inr (.here _ _ _ _)
      · -- the node is not the one that is turned, so both walks go on with the same memory
        rw [Node.turn_of_ne same, entries_turned] at below'
        rw [Node.turn_of_ne same]
        rcases ihb (known_entries node) below' with ⟨rfl, rfl, absent⟩ | parts
        · rcases ihn later rest' with ⟨rfl, rfl, absent'⟩ | parts
          · refine Or.inl ⟨rfl, rfl, fun x mem => ?_⟩
            rw [Forest.labels, List.mem_cons, List.mem_append] at mem
            rcases mem with rfl | mem | mem
            · exact same
            · exact absent x mem
            · exact absent' x mem
          · exact Or.inr (.next (List.forall_mem_cons.2 ⟨same, absent⟩) parts)
        · -- they part inside, so the node is a fragment around the one that is turned
          obtain ⟨⟨f, element⟩, above⟩ := below.holds_of_mem ids mem parts.mem
          exact Or.inr (.body element above parts _ _)

end Document

namespace Layout.Setting
variable {α : Type} [Scalar α] (setting : Setting α)

/-- A frame is as wide for a fragment that is turned. -/
theorem fragmentSpan_turned (id : NodeId) (collapsed : Bool) (node : Node) :
    { setting with document := setting.document.turned id collapsed }.fragmentSpan
        (node.turn id collapsed) =
      setting.fragmentSpan node := by
  let other : Setting α := { setting with document := setting.document.turned id collapsed }
  have extents (node : Node) : other.elementExtents (node.turn id collapsed).element =
      setting.elementExtents node.element :=
    Node.read_turn (fun node => setting.elementExtents node.element) (fun _ _ _ _ => rfl) node
  obtain ⟨labels, nesting⟩ := @Document.tourUnder_turned setting.document id collapsed node
  have inside : (other.document.tourUnder .fragments (node.turn id collapsed)).labels.flatMap
        (fun node => other.elementExtents node.element) =
      (setting.document.tourUnder .fragments node).labels.flatMap
        fun node => setting.elementExtents node.element := by
    rw [labels, List.flatMap_map]
    simp only [extents]
  change other.fragmentSpan (node.turn id collapsed) = _
  rw [fragmentSpan, inside, nesting]
  rfl

/-- Placing looks at the document for the width of frames only. -/
theorem placeRow_congr (document : Document) {tour : Tour}
    (spans : ∀ node ∈ tour.labels,
      { setting with document }.fragmentSpan node = setting.fragmentSpan node)
    (linear parallel : Bool) (progress : Progress α) :
    { setting with document }.placeRow linear parallel tour progress =
      setting.placeRow linear parallel tour progress := by
  induction tour generalizing linear parallel progress with
  | nil => rfl
  | mark _ next ih => exact congrArg (fun placed => (placed.1, _ :: placed.2)) (ih spans _ _ _)
  | tree node body next ihb ihn =>
    have tree : { setting with document }.placeTree node body progress =
        setting.placeTree node body progress := by
      by_cases fragment : ∃ f, node.element = .fragment f
      · obtain ⟨f, element⟩ := fragment
        have inside := ihb (fun x mem => spans x (Tour.subset_body node body next mem))
          progress.linear progress.parallel (setting.enterFragment f progress)
        rw [placeTree_fragment element, placeTree_fragment element]
        change { setting with document }.drawFragment node f progress.cursor
          ({ setting with document }.placeRow _ _ body (setting.enterFragment f progress)).2
          (setting.leaveFragment f (endSection _ _
            ({ setting with document }.placeRow _ _ body (setting.enterFragment f progress)).1)) = _
        rw [inside, drawFragment, spans node List.mem_cons_self]
        rfl
      · rw [placeTree_leaf fun f element => fragment ⟨f, element⟩,
          placeTree_leaf fun f element => fragment ⟨f, element⟩]
        rfl
    rw [placeRow_tree, placeRow_tree, tree]
    exact ihn (fun x mem => spans x (Tour.subset_next node body next mem)) _ _ _

/-- A tour comes to a node in some state. What is drawn after that is what the tour comes to later
and what stands around the node. -/
def Passes (setting : Setting α) (tour : Tour) (placed : Progress α) (target : Node)
    (around : List Node) (before : Progress α) : Prop :=
  ∃ past body later, tour.labels = past ++ target :: later ∧ body.labels ⊆ later ∧
    setting.Reaches (later ++ around) (setting.placeTree target body before) placed

section
variable {setting} {target node : Node} {around : List Node} {inner rest : Tour}
  {before inside placed : Progress α}

theorem passes_here (target : Node) (body next : Tour) (linear parallel : Bool)
    (progress : Progress α) :
    setting.Passes (.tree target body next)
      (setting.placeRow linear parallel (.tree target body next) progress).1 target [] progress :=
  ⟨[], body, body.labels ++ next.labels, rfl, List.subset_append_left _ _,
    (setting.reaches_placeRow linear parallel next _).mono
      (List.append_nil _ ▸ List.subset_append_right _ _)⟩

theorem Passes.mark (passes : setting.Passes rest placed target around before) :
    setting.Passes (.mark () rest) placed target around before :=
  passes

theorem Passes.next (passes : setting.Passes rest placed target around before) (node : Node)
    (inner : Tour) : setting.Passes (.tree node inner rest) placed target around before := by
  obtain ⟨past, under, later, labels, below, late⟩ := passes
  exact ⟨node :: (inner.labels ++ past), under, later, by simp [Forest.labels, labels], below, late⟩

theorem Passes.body (passes : setting.Passes inner inside target around before)
    (leaves : setting.Reaches (node :: rest.labels) inside placed) :
    setting.Passes (.tree node inner rest) placed target (node :: around) before := by
  obtain ⟨past, under, later, labels, below, late⟩ := passes
  refine ⟨node :: past, under, later ++ rest.labels, by simp [Forest.labels, labels],
    List.Subset.trans below (List.subset_append_left _ _), ?_⟩
  exact (late.mono (by grind)).trans (leaves.mono (by grind))

/-- When all sections of a fragment are placed, its frame is drawn and what is next is placed. -/
theorem reaches_of_body {f : Fragment} (element : node.element = .fragment f) (rest : Tour)
    (linear parallel : Bool) (progress : Progress α) :
    setting.Reaches (node :: rest.labels)
      (setting.placeRow progress.linear progress.parallel inner
        (setting.enterFragment f progress)).1
      (setting.placeRow linear parallel (.tree node inner rest) progress).1 := by
  rw [placeRow_tree, placeTree_fragment element]
  refine Reaches.trans ?_
    ((setting.reaches_placeRow linear parallel rest _).mono (List.subset_cons_self _ _))
  exact ((Reaches.refl.ended _ _).leave f).frame List.mem_cons_self f _ _

end

/-- Two tours come to the node where they part in the same state. -/
theorem exists_passes {target target' : Node} {within : Node → Prop} {tour tour' : Tour}
    (parts : Tour.Parts target target' within tour tour') (document : Document)
    (spans : ∀ node, node.id ≠ target.id →
      { setting with document }.fragmentSpan node = setting.fragmentSpan node)
    (linear parallel : Bool) (progress : Progress α) :
    ∃ around before, (∀ owner ∈ around, within owner) ∧
      setting.Passes tour (setting.placeRow linear parallel tour progress).1 target around before ∧
      { setting with document }.Passes tour'
        ({ setting with document }.placeRow linear parallel tour' progress).1 target' around
          before := by
  induction parts generalizing linear parallel progress with
  | here body body' next next' =>
    exact ⟨[], progress, fun _ mem => absurd mem List.not_mem_nil,
      passes_here target body next linear parallel progress,
      passes_here target' body' next' linear parallel progress⟩
  | @body node f element above body body' _ next next' ih =>
    obtain ⟨around, before, within, passes, passes'⟩ :=
      ih progress.linear progress.parallel (setting.enterFragment f progress)
    exact ⟨node :: around, before, List.forall_mem_cons.2 ⟨above, within⟩,
      passes.body (reaches_of_body element next linear parallel progress),
      passes'.body (reaches_of_body element next' linear parallel progress)⟩
  | @next node body apart next next' _ ih =>
    obtain ⟨around, before, within, passes, passes'⟩ :=
      ih linear parallel (setting.placeTree node body progress)
    have tree : { setting with document }.placeTree node body progress =
        setting.placeTree node body progress := by
      have row := @placeRow_congr _ _ setting document (.tree node body .nil)
        (fun x mem => spans x (apart x (by simpa [Forest.labels] using mem))) false false progress
      exact congrArg Prod.fst row
    refine ⟨around, before, within, passes.next node body, ?_⟩
    rw [placeRow_tree, tree]
    exact passes'.next node body
  | mark _ ih =>
    obtain ⟨around, before, within, passes, passes'⟩ :=
      ih linear parallel (setting.enterElse (endSection linear parallel progress))
    exact ⟨around, before, within, passes.mark, passes'.mark⟩

section
variable {setting} {document : Document} {tour : Tour} {target : Node} {around : List Node}
  {before placed : Progress α}

/-- What stands before the node in the document, but not around it, was drawn when the tour came to
the node. -/
theorem Passes.get?_eq (passes : setting.Passes tour placed target around before)
    (ids : (document.nodes.map Node.id).Nodup) (order : tour.labels.Sublist document.nodes)
    {node : Node} (mem : node ∈ document.nodes)
    (early : document.place node < document.place target)
    (outside : ∀ owner ∈ around, node.id ≠ owner.id) :
    placed.geometry.get? node.id = before.geometry.get? node.id := by
  obtain ⟨past, body, later, labels, below, late⟩ := passes
  have ascends := (document.pairwise_place ids).sublist order
  rw [labels] at ascends
  have known : ∀ x ∈ target :: later, x ∈ document.nodes := fun x mem =>
    order.subset (labels ▸ List.mem_append_right past mem)
  have apart : ∀ x ∈ target :: later, node.id ≠ x.id := fun x inside same => by
    obtain rfl := Document.eq_of_id ids mem (known x inside) same
    rcases List.mem_cons.1 inside with rfl | inside
    · exact Nat.lt_irrefl _ early
    · have behind := (List.pairwise_cons.1 (List.pairwise_append.1 ascends).2.1).1 node inside
      exact Nat.lt_asymm early behind
  have placing := (setting.reaches_placeTree target body before).mono
    (List.cons_subset_cons target below)
  rw [late.get?_eq fun x inside => ?_, placing.get?_eq apart]
  rcases List.mem_append.1 inside with inside | inside
  · exact apart x (List.mem_cons_of_mem _ inside)
  · exact outside x inside

/-- A fragment has its top where the tour comes to it. -/
theorem Passes.exists_frame (passes : setting.Passes tour placed target around before)
    (once : (tour.labels.map Node.id).Nodup) {f : Fragment} (element : target.element = .fragment f)
    (outside : ∀ owner ∈ around, target.id ≠ owner.id) :
    ∃ frame, placed.geometry.get? target.id = some (.fragment frame) ∧
      frame.rect.y = before.cursor := by
  obtain ⟨past, body, later, labels, -, late⟩ := passes
  rw [labels, List.map_append, List.map_cons] at once
  have fresh := (List.nodup_cons.1 (List.nodup_append.1 once).2.1).1
  rw [late.get?_eq fun x inside => ?_, placeTree_fragment element]
  · exact ⟨_, GeometryMap.get?_insert_self _ _ _, rfl⟩
  · rcases List.mem_append.1 inside with inside | inside
    · exact fun same => fresh (same ▸ List.mem_map_of_mem inside)
    · exact outside x inside

end

end Layout.Setting

end SequenceDiagram
