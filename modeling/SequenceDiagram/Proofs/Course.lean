import SequenceDiagram.Layout.Placement

set_option autoImplicit false

namespace SequenceDiagram

/-- Every item stands in a relation to the items before it. -/
def Successive {α : Type} (R : List α → α → Prop) : List α → List α → Prop
  | _, [] => True
  | past, item :: items => R past item ∧ Successive R (past ++ [item]) items

namespace Successive
variable {α : Type} {R : List α → α → Prop}

theorem append {past a b : List α} (ha : Successive R past a) (hb : Successive R (past ++ a) b) :
    Successive R past (a ++ b) := by
  induction a generalizing past with
  | nil => simpa using hb
  | cons item a ih =>
    refine ⟨ha.1, ih ha.2 ?_⟩
    simpa using hb

theorem at_split {past earlier later : List α} {item : α}
    (h : Successive R past (earlier ++ item :: later)) : R (past ++ earlier) item := by
  induction earlier generalizing past with
  | nil => simpa using h.1
  | cons first earlier ih => simpa using ih h.2

/-- What holds between an item and every item before it holds of every two items. -/
theorem pairwise {S : α → α → Prop} (apart : ∀ past b, R past b → ∀ a ∈ past, S a b)
    {past items : List α} (h : Successive R past items) :
    items.Pairwise S ∧ ∀ a ∈ past, ∀ b ∈ items, S a b := by
  induction items generalizing past with
  | nil => exact ⟨List.Pairwise.nil, by simp⟩
  | cons item items ih =>
    obtain ⟨later, across⟩ := ih h.2
    refine ⟨List.pairwise_cons.2 ⟨fun b mem => ?_, later⟩, fun a before b mem => ?_⟩
    · exact across item (List.mem_append_right _ (List.mem_singleton_self item)) b mem
    · rcases List.mem_cons.1 mem with rfl | mem
      · exact apart past b h.1 a before
      · exact across a (List.mem_append_left _ before) b mem

end Successive

namespace Layout

structure Arrival (α : Type) where
  node : Node
  before : Progress α

namespace Setting
variable {α : Type} [Scalar α]

def placeTree (setting : Setting α) (node : Node) (body : Tour) (progress : Progress α) :
    Progress α :=
  match node.element with
  | .fragment f =>
    setting.placeFragment node f
      (setting.placeRow progress.linear progress.parallel body) progress
  | _ => setting.placeLeaf node progress

def arrivals (setting : Setting α) (linear parallel : Bool) :
    Tour → Progress α → List (Arrival α)
  | .nil, _ => []
  | .mark _ next, progress =>
    setting.arrivals linear parallel next
      (setting.enterElse (endSection linear parallel progress))
  | .tree node body next, progress =>
    ⟨node, progress⟩ ::
      ((match node.element with
        | .fragment f =>
          setting.arrivals progress.linear progress.parallel body
            (setting.enterFragment f progress)
        | _ => []) ++
        setting.arrivals linear parallel next (setting.placeTree node body progress))

theorem arrivals_subset (setting : Setting α) (linear parallel : Bool) (tour : Tour)
    (progress : Progress α) :
    (setting.arrivals linear parallel tour progress).map Arrival.node ⊆ tour.labels := by
  induction tour generalizing linear parallel progress with
  | nil => exact List.nil_subset _
  | mark _ next ih => exact ih linear parallel _
  | tree node body next ihb ihn =>
    rw [arrivals, List.map_cons, List.map_append, Forest.labels]
    refine List.cons_subset_cons node (List.append_subset.2
      ⟨List.subset_append_of_subset_left _ ?_,
        List.subset_append_of_subset_right _ (ihn linear parallel _)⟩)
    split
    · exact ihb _ _ _
    · exact List.nil_subset _

theorem placeRow_tree (setting : Setting α) (linear parallel : Bool) (node : Node)
    (body next : Tour) (progress : Progress α) :
    setting.placeRow linear parallel (.tree node body next) progress =
      setting.placeRow linear parallel next (setting.placeTree node body progress) := rfl

variable {setting : Setting α}

theorem placeTree_fragment {node : Node} {f : Fragment} (element : node.element = .fragment f)
    (body : Tour) (progress : Progress α) :
    setting.placeTree node body progress =
      setting.drawFragment node f progress.cursor
        (setting.placeRow progress.linear progress.parallel body
          (setting.enterFragment f progress)).2
        (setting.leaveFragment f (endSection progress.linear progress.parallel
          (setting.placeRow progress.linear progress.parallel body
            (setting.enterFragment f progress)).1)) := by
  rw [placeTree, element]
  rfl

theorem placeTree_leaf {node : Node} (leaf : ∀ f, node.element ≠ .fragment f) (body : Tour)
    (progress : Progress α) :
    setting.placeTree node body progress = setting.placeLeaf node progress := by
  unfold placeTree
  split
  · rename_i f element
    exact absurd element (leaf f)
  · rfl

/-- What stands behind a row is placed from where the row leaves off. -/
theorem placeRow_append (setting : Setting α) (linear parallel : Bool) (front back : Tour)
    (progress : Progress α) :
    setting.placeRow linear parallel (front.append back) progress =
      let left := setting.placeRow linear parallel front progress
      let placed := setting.placeRow linear parallel back left.1
      (placed.1, left.2 ++ placed.2) := by
  induction front generalizing progress with
  | nil => rfl
  | mark _ next ih => simp only [Forest.append, placeRow, ih, List.cons_append]
  | tree node body next _ ih => exact ih _

theorem arrivals_append (setting : Setting α) (linear parallel : Bool) (front back : Tour)
    (progress : Progress α) :
    setting.arrivals linear parallel (front.append back) progress =
      setting.arrivals linear parallel front progress ++
        setting.arrivals linear parallel back
          (setting.placeRow linear parallel front progress).1 := by
  induction front generalizing progress with
  | nil => rfl
  | mark _ next ih => exact ih _
  | tree node body next _ ih =>
    rw [Forest.append, arrivals, ih, arrivals, placeRow_tree, List.cons_append, List.append_assoc]

/-- Placing the nodes of `items` in their order, each in the state that it is listed with, and
nothing else leads from the state `before` to `after`. The packing modes are those that hold again
at the end of a section, and `elseYs` are the heights at which further sections begin. -/
inductive Places (setting : Setting α) :
    Bool → Bool → Progress α → List (Arrival α) → List α → Progress α → Prop
  | done {linear parallel : Bool} {progress : Progress α} :
      Places setting linear parallel progress [] [] progress
  | clause {linear parallel : Bool} {before after : Progress α} {items : List (Arrival α)}
      {elseYs : List α}
      (rest : Places setting linear parallel
        (setting.enterElse (endSection linear parallel before)) items elseYs after) :
      Places setting linear parallel before items
        ((endSection linear parallel before).cursor :: elseYs) after
  | leaf {linear parallel : Bool} {before after : Progress α} {items : List (Arrival α)}
      {elseYs : List α} {node : Node} (plain : ∀ f, node.element ≠ .fragment f)
      (rest : Places setting linear parallel (setting.placeLeaf node before) items elseYs after) :
      Places setting linear parallel before (⟨node, before⟩ :: items) elseYs after
  | fragment {linear parallel : Bool} {before ended after : Progress α}
      {inside items : List (Arrival α)} {sectionYs elseYs : List α} {node : Node} {f : Fragment}
      (element : node.element = .fragment f)
      (within : Places setting before.linear before.parallel (setting.enterFragment f before)
        inside sectionYs ended)
      (rest : Places setting linear parallel
        (setting.drawFragment node f before.cursor sectionYs
          (setting.leaveFragment f (endSection before.linear before.parallel ended)))
        items elseYs after) :
      Places setting linear parallel before (⟨node, before⟩ :: (inside ++ items)) elseYs after

/-- A tour is placed by placing what comes up in it. -/
theorem places_placeRow (setting : Setting α) (linear parallel : Bool) (tour : Tour)
    (progress : Progress α) :
    setting.Places linear parallel progress (setting.arrivals linear parallel tour progress)
      (setting.placeRow linear parallel tour progress).2
      (setting.placeRow linear parallel tour progress).1 := by
  induction tour generalizing linear parallel progress with
  | nil => exact .done
  | mark _ next ih => exact .clause (ih linear parallel _)
  | tree node body next ihb ihn =>
    rw [arrivals, placeRow_tree]
    have rest := ihn linear parallel (setting.placeTree node body progress)
    -- only a fragment has anything under it that is placed
    cases element : node.element with
    | fragment f =>
      refine .fragment element (ihb _ _ _) ?_
      rwa [← placeTree_fragment element]
    | _ =>
      refine .leaf (by simp [element]) ?_
      rwa [placeTree_leaf (by simp [element])] at rest ⊢

/-- `Inv` is about the nodes that have come up and the state that they leave. Every step with some
nodes keeps it, and a node that comes up is then related to those before it. -/
structure Preserves (setting : Setting α) (nodes : List Node)
    (R : List (Arrival α) → Arrival α → Prop) (Inv : List (Arrival α) → Progress α → Prop) :
    Prop where
  leaf : ∀ node ∈ nodes, ∀ past progress, Inv past progress →
    R past ⟨node, progress⟩ ∧ Inv (past ++ [⟨node, progress⟩]) (setting.placeLeaf node progress)
  enter : ∀ f past progress, Inv past progress → Inv past (setting.enterFragment f progress)
  clause : ∀ linear parallel past progress, Inv past progress →
    Inv past (setting.enterElse (endSection linear parallel progress))
  leave : ∀ node ∈ nodes, ∀ f, node.element = .fragment f → ∀ top elseYs linear parallel past
    progress, Inv past progress → Inv past (setting.drawFragment node f top elseYs
      (setting.leaveFragment f (endSection linear parallel progress)))

section
variable {nodes : List Node} {R : List (Arrival α) → Arrival α → Prop}
  {Inv : List (Arrival α) → Progress α → Prop} (preserves : setting.Preserves nodes R Inv)
include preserves

/-- What every step keeps is kept all along, and every node that comes up is related to the nodes
before it. -/
theorem Preserves.along {linear parallel : Bool} {before after : Progress α}
    {items : List (Arrival α)} {elseYs : List α}
    (places : setting.Places linear parallel before items elseYs after)
    (part : items.map Arrival.node ⊆ nodes) (past : List (Arrival α)) (holds : Inv past before) :
    Successive R past items ∧ Inv (past ++ items) after := by
  induction places generalizing past with
  | done => exact ⟨trivial, by rwa [List.append_nil]⟩
  | clause _ ih => exact ih part past (preserves.clause _ _ past _ holds)
  | leaf plain _ ih =>
    obtain ⟨mem, behind⟩ := List.cons_subset.1 part
    obtain ⟨here, stepped⟩ := preserves.leaf _ mem past _ holds
    obtain ⟨later, done⟩ := ih behind _ stepped
    rw [List.append_assoc] at done
    exact ⟨⟨here, later⟩, done⟩
  | @fragment linear parallel before _ _ _ _ _ _ node f element _ _ ihb ihn =>
    obtain ⟨mem, parts⟩ := List.cons_subset.1 part
    rw [List.map_append] at parts
    obtain ⟨inside, behind⟩ := List.append_subset.1 parts
    obtain ⟨here, stepped⟩ := preserves.leaf node mem past before holds
    -- placed as a leaf, a fragment changes nothing; it is drawn when it is left
    have kept : setting.placeLeaf node before = before := by rw [placeLeaf, element]
    rw [kept] at stepped
    obtain ⟨within, left⟩ := ihb inside _ (preserves.enter f _ _ stepped)
    obtain ⟨later, done⟩ := ihn behind _ (preserves.leave node mem f element _ _ _ _ _ _ left)
    rw [List.append_assoc, List.append_assoc] at done
    exact ⟨⟨here, within.append later⟩, done⟩

theorem Preserves.run (linear parallel : Bool) {tour : Tour} (part : tour.labels ⊆ nodes)
    (past : List (Arrival α)) {progress : Progress α} (holds : Inv past progress) :
    Successive R past (setting.arrivals linear parallel tour progress) ∧
      Inv (past ++ setting.arrivals linear parallel tour progress)
        (setting.placeRow linear parallel tour progress).1 :=
  preserves.along (setting.places_placeRow linear parallel tour progress)
    (List.Subset.trans (setting.arrivals_subset linear parallel tour progress) part) past holds

end

end Setting

end Layout

end SequenceDiagram
