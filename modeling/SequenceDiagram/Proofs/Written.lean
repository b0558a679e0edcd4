import SequenceDiagram.Proofs.Endings
import SequenceDiagram.Script.Writer

set_option autoImplicit false

namespace SequenceDiagram

namespace Forest
variable {ν μ : Type}

def tops : Forest ν μ → List ν
  | nil => []
  | tree label _ next => label :: next.tops
  | mark _ next => next.tops

/-- Right under each label stand the labels that `under` says, in some order. -/
def Follows (under : ν → List ν) : Forest ν μ → Prop
  | nil => True
  | tree label body next =>
    body.tops.Perm (under label) ∧ body.Follows under ∧ next.Follows under
  | mark _ next => next.Follows under

theorem tops_append (a b : Forest ν μ) : (a.append b).tops = a.tops ++ b.tops := by
  induction a with
  | nil => rfl
  | tree label body next _ ih => simp [append, tops, ih]
  | mark label next ih => simp [append, tops, ih]

namespace Follows
variable {under : ν → List ν}

theorem append {a b : Forest ν μ} (h : a.Follows under) (h' : b.Follows under) :
    (a.append b).Follows under := by
  induction a with
  | nil => exact h'
  | tree label body next _ ih => exact ⟨h.1, h.2.1, ih h.2.2⟩
  | mark label next ih => exact ih h

theorem labels_perm {row : Forest ν μ} (h : row.Follows under) :
    row.labels.Perm (row.tops ++ row.labels.flatMap under) := by
  induction row with
  | nil => exact .nil
  | tree label body next ihb ihn =>
    have inside := (ihb h.2.1).trans (h.1.append_right _)
    have behind := ihn h.2.2
    simp only [labels, tops, List.flatMap_cons, List.flatMap_append, List.cons_append]
    refine .cons label ((inside.append behind).trans ?_)
    rw [← List.append_assoc (under label)]
    exact List.perm_append_comm_assoc _ _ _
  | mark label next ih => exact ih h

theorem forall_labels {P : ν → Prop} (step : ∀ label, P label → ∀ child ∈ under label, P child)
    {row : Forest ν μ} (h : row.Follows under) (tops : ∀ label ∈ row.tops, P label) :
    ∀ label ∈ row.labels, P label := by
  induction row with
  | nil => exact nofun
  | tree label body next ihb ihn =>
    obtain ⟨first, rest⟩ := List.forall_mem_cons.1 tops
    have inside := ihb h.2.1 fun child mem => step label first child (h.1.mem_iff.1 mem)
    rw [labels, List.forall_mem_cons, List.forall_mem_append]
    exact ⟨first, inside, ihn h.2.2 rest⟩
  | mark label next ih => exact ih h tops

end Follows

end Forest

namespace OutlineItem

def slot? : OutlineItem → Option Nat
  | .node slot _ => some slot
  | .undeclared _ => none

end OutlineItem

/-- The slots of an outline, each as often as it is written. -/
def Outline.slots (outline : Outline) : List Nat :=
  outline.labels.filterMap OutlineItem.slot?

namespace Document
variable {document : Document}

def itemsUnder (document : Document) : OutlineItem → List OutlineItem
  | .node _ node =>
    match node.element with
    | .fragment f => (document.sectionEntries f.allEntries).map fun entry => .node entry.1 entry.2
    | .group g => (document.groupMembers g).map Prod.snd
    | _ => []
  | .undeclared _ => []

section
variable {body? : OutlineItem → Option Outline} {under : OutlineItem → List OutlineItem}
  (keeps : ∀ item body, body? item = some body → body.tops.Perm (under item) ∧ body.Follows under)
include keeps

theorem follows_outlineRow {items : List OutlineItem} {outline : Outline}
    (row : outlineRow? body? items = some outline) :
    outline.tops = items ∧ outline.Follows under := by
  induction items generalizing outline with
  | nil => cases row; exact ⟨rfl, trivial⟩
  | cons item items ih =>
    simp only [outlineRow?, bind, Option.bind_eq_some_iff, Option.some.injEq] at row
    obtain ⟨body, found, next, rest, rfl⟩ := row
    obtain ⟨tops, behind⟩ := ih rest
    obtain ⟨inside, follows⟩ := keeps item body found
    exact ⟨congrArg (item :: ·) tops, inside, follows, behind⟩

theorem follows_outlineClauses {clauses : List ElseClause} {outline : Outline}
    (rows : document.outlineClauses? body? clauses = some outline) :
    outline.tops = (document.sectionEntries (clauses.flatMap ElseClause.entries)).map
      (fun entry => .node entry.1 entry.2) ∧ outline.Follows under := by
  induction clauses generalizing outline with
  | nil => cases rows; exact ⟨rfl, trivial⟩
  | cons clause clauses ih =>
    simp only [outlineClauses?, bind, Option.bind_eq_some_iff, Option.some.injEq] at rows
    obtain ⟨entries, found, next, rest, rfl⟩ := rows
    obtain ⟨tops, follows⟩ := follows_outlineRow keeps found
    obtain ⟨tops', follows'⟩ := ih rest
    refine ⟨?_, follows.append follows'⟩
    rw [Forest.tops, Forest.tops_append, tops, tops', List.flatMap_cons]
    simp only [sectionEntries, List.filterMap_append, List.filter_append, List.map_append]

end

theorem follows_of_leaf {depth slot : Nat} {node : Node} {body : Outline}
    (leaf : IsLeaf node.element)
    (found : document.outlineBody? depth (.node slot node) = some body) :
    body.tops.Perm (document.itemsUnder (.node slot node)) ∧ body.Follows document.itemsUnder := by
  rw [document.body_of_leaf leaf] at found
  cases found
  cases element : node.element with
  | fragment f => simp [element, IsLeaf] at leaf
  | group g => simp [element, IsLeaf] at leaf
  | _ => simp [itemsUnder, element, Forest.tops, Forest.Follows]

theorem follows_outlineBody {depth : Nat} {item : OutlineItem} {body : Outline}
    (found : document.outlineBody? depth item = some body) :
    body.tops.Perm (document.itemsUnder item) ∧ body.Follows document.itemsUnder := by
  induction depth generalizing item body with
  | zero =>
    cases item with
    | undeclared key => cases found; exact ⟨.nil, trivial⟩
    | node slot node =>
      cases element : node.element with
      | fragment f => simp [outlineBody?, element] at found
      | group g => simp [outlineBody?, element] at found
      | _ => exact follows_of_leaf (by simp [element, IsLeaf]) found
  | succ depth ih =>
    cases item with
    | undeclared key => cases found; exact ⟨.nil, trivial⟩
    | node slot node =>
      cases element : node.element with
      | fragment f =>
        simp only [outlineBody?_of_fragment element, Option.bind_eq_some_iff,
          Option.some.injEq] at found
        obtain ⟨entries, main, clauses, others, rfl⟩ := found
        obtain ⟨tops, follows⟩ := follows_outlineRow (fun _ _ => ih) main
        obtain ⟨tops', follows'⟩ := follows_outlineClauses (fun _ _ => ih) others
        refine ⟨?_, follows.append follows'⟩
        rw [Forest.tops_append, tops, tops']
        simp [itemsUnder, element, Fragment.allEntries, sectionEntries, List.filterMap_append]
      | group g =>
        rw [outlineBody?_of_group element] at found
        obtain ⟨tops, follows⟩ := follows_outlineRow (fun _ _ => ih) found
        refine ⟨?_, follows⟩
        rw [tops]
        simp only [itemsUnder, element, orderedMembers]
        exact (List.mergeSort_perm _ _).map _
      | _ => exact follows_of_leaf (by simp [element, IsLeaf]) found

theorem follows_outlineTo {depth : Nat} {outline : Outline}
    (found : document.outlineTo? depth = some outline) :
    outline.tops = document.topItems ∧ outline.Follows document.itemsUnder :=
  follows_outlineRow (fun _ _ => follows_outlineBody) found

theorem getElem?_findIdx {node : Node} (mem : node ∈ document.nodes) :
    document.nodes[document.nodes.findIdx (· = node)]? = some node := by
  have bound : document.nodes.findIdx (· = node) < document.nodes.length :=
    List.findIdx_lt_length_of_exists ⟨node, mem, by simp⟩
  rw [List.getElem?_eq_getElem bound]
  exact congrArg some (by simpa using List.findIdx_getElem (w := bound))

theorem listedMember_cases {holder : Node} {g : ParticipantGroup} {key : String}
    (mem : holder ∈ document.nodes) (group : holder.element = .group g)
    (listed : key ∈ g.participants) :
    (document.declaredMember key).2 = .undeclared key ∨
    ∃ slot node, (document.declaredMember key).2 = .node slot node ∧
      document.nodes[slot]? = some node ∧ document.isGroupMember node = true := by
  obtain alone | ⟨node, p, stands, known, element, rfl⟩ := declaredMember_cases key
  · exact .inl alone
  · have grouped : p.key ∈ document.groupedAliases :=
      List.mem_flatMap.2 ⟨holder, mem, by simpa [group, Element.groupAliases] using listed⟩
    exact .inr ⟨_, node, stands, getElem?_findIdx known,
      by simpa [isGroupMember, element, isGrouped] using grouped⟩

theorem map_fst_entries (ids : List NodeId) :
    (ids.filterMap document.entry?).map Prod.fst = ids.filterMap document.slot? := by
  rw [List.map_filterMap]
  refine List.filterMap_congr fun id _ => Option.ext fun slot => ?_
  simp only [Option.map_eq_some_iff, Prod.exists, exists_and_right, exists_eq_right,
    entry?_eq_some_iff]
  exact ⟨fun ⟨_, found, _⟩ => found, fun found =>
    let ⟨node, stands, _⟩ := getElem?_of_slot? found
    ⟨node, found, stands⟩⟩

theorem count_entries {ids : List NodeId} {slot : Nat} {node : Node}
    (stands : document.nodes[slot]? = some node) (free : document.isGroupMember node = false) :
    ((document.sectionEntries ids).map Prod.fst).count slot =
      (ids.filterMap document.slot?).count slot := by
  rw [← map_fst_entries, List.count_eq_countP, List.count_eq_countP, List.countP_map,
    List.countP_map, sectionEntries, List.countP_filter]
  refine List.countP_congr fun entry mem => ?_
  obtain ⟨id, -, found⟩ := List.mem_filterMap.1 mem
  obtain ⟨-, stands'⟩ := entry?_eq_some_iff.1 found
  simp only [Function.comp_apply, Bool.and_eq_true, beq_iff_eq, Bool.not_eq_true',
    and_iff_left_iff_imp]
  rintro rfl
  rwa [← Option.some.inj (stands.symm.trans stands')]

theorem count_itemsUnder {owner slot : Nat} {holder node : Node}
    (holds : document.nodes[owner]? = some holder) (stands : document.nodes[slot]? = some node)
    (free : document.isGroupMember node = false) :
    ((document.itemsUnder (.node owner holder)).filterMap OutlineItem.slot?).count slot =
      (document.childSlots holder).count slot := by
  cases element : holder.element with
  | fragment f =>
    simp only [itemsUnder, element, childSlots, Element.children, ← count_entries stands free,
      List.filterMap_map]
    rw [← List.filterMap_eq_map]
    rfl
  | group g =>
    have declared : slot ∉ ((g.participants.map document.declaredMember).map Prod.snd).filterMap
        OutlineItem.slot? := by
      intro again
      obtain ⟨item, mem, named⟩ := List.mem_filterMap.1 again
      obtain ⟨key, listed, rfl⟩ := List.mem_map.1 (by simpa using mem)
      obtain alone | ⟨slot', node', there, stands', member⟩ :=
        listedMember_cases (List.mem_of_getElem? holds) element listed
      · rw [alone] at named
        cases named
      · rw [there] at named
        obtain rfl := Option.some.inj named
        obtain rfl := Option.some.inj (stands.symm.trans stands')
        exact Bool.false_ne_true (free.symm.trans member)
    have nested : ((document.nestedMembers g.nestedGroups).map Prod.snd).filterMap
        OutlineItem.slot? = g.nestedGroups.filterMap document.slot? := by
      rw [← map_fst_entries, nestedMembers, List.map_map, List.filterMap_map,
        ← List.filterMap_eq_map]
      rfl
    simp only [itemsUnder, element, childSlots, Element.children, groupMembers_eq, List.map_append,
      List.filterMap_append, List.count_append, List.count_eq_zero.2 declared, nested, Nat.zero_add]
  | _ => simp [itemsUnder, element, childSlots, Element.children]

theorem isGroupMember_eq_false {node : Node} (free : node.element.isParticipant = false) :
    document.isGroupMember node = false := by
  cases element : node.element with
  | participant p => simp [element, Element.isParticipant] at free
  | _ => simp [isGroupMember, element]

theorem isGroupMember_eq_false_of_names {owner child : Nat} {holder : Node}
    (names : document.Names owner child) (holds : document.nodes[owner]? = some holder) :
    document.isGroupMember holder = false := by
  obtain ⟨other, stands, named⟩ := names
  obtain rfl := Option.some.inj (stands.symm.trans holds)
  refine isGroupMember_eq_false ?_
  cases element : other.element with
  | participant p => simp [childSlots, element, Element.children] at named
  | _ => rfl

/-- An item has its node in its slot, and a line of descent leads to it unless it is a
declaration that a group writes. -/
def IsReached (document : Document) : OutlineItem → Prop
  | .node slot node => document.nodes[slot]? = some node ∧
      (document.isGroupMember node = false → ∃ above, document.Lineage (slot :: above))
  | .undeclared _ => True

namespace IsReached

theorem entry {owner slot : Nat} {holder node : Node} {id : NodeId}
    (reached : document.IsReached (.node owner holder)) (named : id ∈ holder.element.children)
    (found : document.entry? id = some (slot, node)) : document.IsReached (.node slot node) := by
  obtain ⟨holds, line⟩ := reached
  obtain ⟨found, stands⟩ := entry?_eq_some_iff.1 found
  have names : document.Names owner slot :=
    ⟨holder, holds, List.mem_filterMap.2 ⟨id, named, found⟩⟩
  obtain ⟨above, line⟩ := line (isGroupMember_eq_false_of_names names holds)
  exact ⟨stands, fun _ => ⟨owner :: above, .child line names⟩⟩

theorem under {item : OutlineItem} (reached : document.IsReached item) :
    ∀ child ∈ document.itemsUnder item, document.IsReached child := by
  cases item with
  | undeclared key => simp [itemsUnder]
  | node owner holder =>
    cases element : holder.element with
    | fragment f =>
      intro child mem
      simp only [itemsUnder, element] at mem
      obtain ⟨⟨slot, node⟩, kept, rfl⟩ := List.mem_map.1 mem
      obtain ⟨id, named, found⟩ := List.mem_filterMap.1 (List.mem_filter.1 kept).1
      exact reached.entry (by simpa [element, Element.children] using named) found
    | group g =>
      intro child mem
      simp only [itemsUnder, element, groupMembers_eq, List.map_append, List.mem_append] at mem
      rcases mem with declared | nested
      · obtain ⟨_, among, rfl⟩ := List.mem_map.1 declared
        obtain ⟨key, listed, rfl⟩ := List.mem_map.1 among
        obtain alone | ⟨slot, node, there, stands, member⟩ :=
          listedMember_cases (List.mem_of_getElem? reached.1) element listed
        · rw [alone]
          trivial
        · rw [there]
          exact ⟨stands, fun free => absurd (free.symm.trans member) Bool.false_ne_true⟩
      · obtain ⟨_, among, rfl⟩ := List.mem_map.1 nested
        obtain ⟨⟨slot, node⟩, entered, rfl⟩ := List.mem_map.1 among
        obtain ⟨id, named, found⟩ := List.mem_filterMap.1 entered
        exact reached.entry (by simpa [element, Element.children] using named) found
    | _ => simp [itemsUnder, element]

end IsReached

theorem isReached_of_outlineTo {depth : Nat} {outline : Outline}
    (found : document.outlineTo? depth = some outline) :
    ∀ item ∈ outline.labels, document.IsReached item := by
  obtain ⟨tops, follows⟩ := follows_outlineTo found
  refine follows.forall_labels (fun _ reached => reached.under) fun item mem => ?_
  rw [tops, mem_topItems] at mem
  obtain ⟨slot, node, rfl, stands, top⟩ := mem
  exact ⟨stands, fun _ => ⟨[], .root stands (isTopLevel_iff.1 top).1⟩⟩

theorem count_topItems {slot : Nat} {node : Node} (stands : document.nodes[slot]? = some node)
    (top : document.isTopLevel node = true) :
    (document.topItems.filterMap OutlineItem.slot?).count slot = 1 := by
  have once : (document.topItems.filterMap OutlineItem.slot?).Nodup := by
    have part := (List.filter_sublist (p := fun entry => document.isTopLevel entry.1)
      (l := document.nodes.zipIdx)).map Prod.snd
    rw [List.zipIdx_map_snd] at part
    have slots : document.topItems.filterMap OutlineItem.slot? =
        (document.nodes.zipIdx.filter fun entry => document.isTopLevel entry.1).map Prod.snd := by
      rw [topItems, List.filterMap_map, ← List.filterMap_eq_map]
      rfl
    exact slots ▸ part.nodup List.nodup_range'
  exact List.count_eq_one_of_mem once
    (List.mem_filterMap.2 ⟨_, mem_topItems.2 ⟨slot, node, rfl, stands, top⟩, rfl⟩)

theorem count_topItems_of_names {owner slot : Nat} (names : document.Names owner slot) :
    (document.topItems.filterMap OutlineItem.slot?).count slot = 0 := by
  refine List.count_eq_zero.2 fun mem => ?_
  obtain ⟨item, mem, same⟩ := List.mem_filterMap.1 mem
  obtain ⟨slot', node, rfl, stands, top⟩ := mem_topItems.1 mem
  have unowned := (isTopLevel_iff.1 top).1
  obtain rfl := Option.some.inj same
  simp [isOwned_of_names names stands] at unowned

section
variable {outline : Outline} {depth : Nat} (found : document.outlineTo? depth = some outline)
include found

/-- A slot is written once for each time it is in the top row or right under an item. -/
theorem count_slots (slot : Nat) :
    outline.slots.count slot = (document.topItems.filterMap OutlineItem.slot?).count slot +
      (outline.labels.flatMap fun item =>
        (document.itemsUnder item).filterMap OutlineItem.slot?).count slot := by
  obtain ⟨tops, follows⟩ := follows_outlineTo found
  have all := (follows.labels_perm.filterMap OutlineItem.slot?).count_eq slot
  rwa [List.filterMap_append, List.count_append, List.filterMap_flatMap, tops] at all

variable {slot : Nat} {node : Node} (stands : document.nodes[slot]? = some node)
  (free : document.isGroupMember node = false)
include stands free

theorem count_of_unowned (unowned : document.isOwned node.id = false) :
    outline.slots.count slot = 1 := by
  have top := isTopLevel_iff.2 ⟨unowned, free⟩
  rw [count_slots found, count_topItems stands top, Nat.add_eq_left,
    List.count_eq_zero, List.mem_flatMap]
  rintro ⟨item, mem, named⟩
  cases item with
  | undeclared key => simp [itemsUnder] at named
  | node owner holder =>
    have holds := (isReached_of_outlineTo found _ mem).1
    rw [← List.count_pos_iff, count_itemsUnder holds stands free, List.count_pos_iff] at named
    simp [isOwned_of_names ⟨holder, holds, named⟩ stands] at unowned

/-- A slot that is named is written as often as its owner. -/
theorem count_of_names (valid : document.validate = .ok ()) {owner : Nat}
    (names : document.Names owner slot) :
    outline.slots.count slot = outline.slots.count owner := by
  rw [count_slots found, count_topItems_of_names names, Nat.zero_add, Outline.slots]
  have reached := isReached_of_outlineTo found
  generalize outline.labels = items at reached
  induction items with
  | nil => rfl
  | cons item items ih =>
    obtain ⟨first, rest⟩ := List.forall_mem_cons.1 reached
    rw [List.flatMap_cons, List.count_append, ih rest]
    cases item with
    | undeclared key =>
      rw [List.filterMap_cons_none rfl, itemsUnder, List.filterMap_nil, List.count_nil,
        Nat.zero_add]
    | node other holder =>
      have head : (OutlineItem.node other holder :: items).filterMap OutlineItem.slot? =
          other :: items.filterMap OutlineItem.slot? := List.filterMap_cons_some rfl
      rw [count_itemsUnder first.1 stands free, head, List.count_cons, Nat.add_comm]
      by_cases same : other = owner
      · subst same
        obtain ⟨_, holds, named⟩ := names
        obtain rfl := Option.some.inj (holds.symm.trans first.1)
        have once := (List.nodup_flatMap.1 (nodup_childSlots valid)).1 _
          (List.mem_of_getElem? holds)
        simp [List.count_eq_one_of_mem once named]
      · have absent : slot ∉ document.childSlots holder := fun named =>
          same (owner_unique valid ⟨holder, first.1, named⟩ names)
        simp [List.count_eq_zero.2 absent, same]

/-- Every line of descent is written down to its end. -/
theorem count_of_lineage (valid : document.validate = .ok ()) {above : List Nat}
    (line : document.Lineage (slot :: above)) : outline.slots.count slot = 1 := by
  induction above generalizing slot node with
  | nil =>
    cases line with
    | root stands' unowned =>
      obtain rfl := Option.some.inj (stands.symm.trans stands')
      exact count_of_unowned found stands free unowned
  | cons owner above ih =>
    cases line with
    | child line names =>
      obtain ⟨holder, holds, named⟩ := names
      have names : document.Names owner slot := ⟨holder, holds, named⟩
      rw [count_of_names found stands free valid names]
      exact ih holds (isGroupMember_eq_false_of_names names holds) line

/-- What is written ends a line of descent. -/
theorem lineage_of_mem_slots (written : slot ∈ outline.slots) :
    ∃ above, document.Lineage (slot :: above) := by
  obtain ⟨item, mem, same⟩ := List.mem_filterMap.1 written
  have reached := isReached_of_outlineTo found item mem
  cases item with
  | undeclared key => cases same
  | node other holder =>
    obtain rfl := Option.some.inj same
    obtain ⟨holds, line⟩ := reached
    obtain rfl := Option.some.inj (stands.symm.trans holds)
    exact line free

end

/-- A document that passes its check, however it was put together, has an outline and a meaning,
the same ones at every depth that its nodes leave room for; what stands in the outline are nodes
of the document in their slots, and no slot but that of a declaration stands there twice. -/
theorem checked_is_written (document : Document) (valid : document.validate = .ok ()) :
    ∃ outline meaning,
      (∀ depth, document.nodes.length ≤ depth →
        document.outlineTo? depth = some outline ∧ document.meaningTo? depth = some meaning) ∧
      document.write? = some outline.toText ∧ document.meaning? = some meaning ∧
      (∀ slot node, .node slot node ∈ outline.labels → document.nodes[slot]? = some node) ∧
      ∀ slot node, document.nodes[slot]? = some node → node.element.isParticipant = false →
        outline.slots.count slot ≤ 1 := by
  obtain ⟨outline, drawn⟩ := endsBy_outlineTo valid
  obtain ⟨meaning, told⟩ := endsBy_meaningTo valid
  have found := drawn _ (le_refl _)
  refine ⟨outline, meaning, fun depth deep => ⟨drawn depth deep, told depth deep⟩, ?_, ?_, ?_, ?_⟩
  · rw [write?, outline?_eq, found, Option.map_some]
  · rw [meaning?_eq, told _ (le_refl _)]
  · exact fun slot node mem => (isReached_of_outlineTo found _ mem).1
  · intro slot node stands free
    have single : document.isGroupMember node = false := isGroupMember_eq_false free
    by_cases written : slot ∈ outline.slots
    · obtain ⟨above, line⟩ := lineage_of_mem_slots found stands single written
      exact (count_of_lineage found stands single valid line).le
    · rw [List.count_eq_zero.2 written]
      exact Nat.zero_le 1

/-- Two fragments and two comments share an identifier each. An edit has one fragment hold a
fragment that stands before it. -/
theorem checked_is_written_of_repeated_ids :
    let fragment (entries : List NodeId) := Element.fragment ⟨.opt, "", none, entries, [], none⟩
    let document := Document.mk [⟨⟨2⟩, 1, 2, fragment [⟨1⟩]⟩, ⟨⟨1⟩, 3, 3, .comment "a"⟩,
      ⟨⟨0⟩, 4, 5, fragment []⟩, ⟨⟨1⟩, 6, 6, .comment "b"⟩, ⟨⟨0⟩, 7, 8, fragment []⟩]
    let edited := Document.mk (document.nodes.set 4 ⟨⟨0⟩, 7, 8, fragment [⟨2⟩]⟩)
    document.withNode ⟨⟨0⟩, 7, 8, fragment [⟨2⟩]⟩ = .ok edited ∧ edited.validate = .ok () ∧
      ∃ outline meaning,
        (∀ depth, edited.nodes.length ≤ depth →
          edited.outlineTo? depth = some outline ∧ edited.meaningTo? depth = some meaning) ∧
        edited.write? = some outline.toText ∧ edited.meaning? = some meaning ∧
        (∀ slot node, .node slot node ∈ outline.labels → edited.nodes[slot]? = some node) ∧
        ∀ slot node, edited.nodes[slot]? = some node → node.element.isParticipant = false →
          outline.slots.count slot ≤ 1 := by
  intro fragment document edited
  have valid : edited.validate = .ok () := by decide
  exact ⟨by decide, valid, checked_is_written edited valid⟩

end Document

end SequenceDiagram
