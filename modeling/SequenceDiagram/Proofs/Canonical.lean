import Mathlib.Data.List.Sort
import SequenceDiagram.Proofs.Outlining

set_option autoImplicit false

namespace SequenceDiagram

namespace Document

section
variable {document : Document} {register : Register} {first : UInt32}

theorem adds_node {body? : OutlineItem → Option Outline} {id : NodeId} {slot : Nat} {node : Node}
    {o : Outline} {row : Grove} (found : document.entry? id = some (slot, node))
    (outside : document.isGroupMember node = false) (body : body? (.node slot node) = some o)
    (shows' : o.Shows row) : document.Adds body? id (.tree node.seed row .nil) := by
  refine ⟨.tree (.node slot node) o .nil, ?_, rfl, shows', trivial⟩
  simp [outlineSection?, sectionEntries, found, outside, outlineRow?, body]

theorem adds_member {body? : OutlineItem → Option Outline} {id : NodeId} {slot : Nat} {node : Node}
    (found : document.entry? id = some (slot, node))
    (inside : document.isGroupMember node = true) : document.Adds body? id .nil := by
  refine ⟨.nil, ?_, trivial⟩
  simp [outlineSection?, sectionEntries, found, inside, outlineRow?]

theorem addSlots_append (f : Fragment) (a b : List Nat) :
    Grove.addSlots first f (a ++ b) = Grove.addSlots first (Grove.addSlots first f a) b :=
  List.foldl_append

theorem spells_strays {depth : Nat} {f : Fragment} {row before : Grove} {slot : Nat}
    (h : document.Spells (document.outlineBody? depth) f before) (proper : row.Proper .group)
    (stands : document.Stands first slot row) :
    document.Spells (document.outlineBody? depth)
      (Grove.addSlots first f (Grove.straySlots slot row)) (before.append row.strays) := by
  induction row generalizing f before slot with
  | nil =>
    rw [Grove.strays, Forest.append_nil]
    exact h
  | tree seed body next ihb ihn =>
    have found := stands.head
    obtain ⟨element, lineStart, lineEnd⟩ := seed
    rw [Grove.straySlots, addSlots_append]
    cases element with
    | error fault =>
      have added := @adds_node _ _ _ _ _ _ .nil found rfl
        (@body_of_leaf document depth _ _ trivial) trivial
      have behind := ihn (h.addEntry added) proper.2 stands.next
      rw [Forest.append_assoc] at behind
      exact behind
    | group g =>
      have inside := ihb h proper.1.2 stands.body
      have behind := ihn inside proper.2 stands.next
      rw [Forest.append_assoc] at behind
      exact behind
    | _ => exact ihn h proper.2 stands.next
  | mark clause next ih => exact ih h proper.2.2 stands

theorem adds_leaf {depth slot : Nat} {place : Place} {seed : Seed} {under after : Grove}
    (proper : Grove.Proper place (.tree seed under after))
    (stands : document.Stands first slot (.tree seed under after)) (leaf : IsLeaf seed.element)
    (free : document.isGroupMember ⟨NodeId.offset first slot, seed.lineStart, seed.lineEnd,
      Grove.fill first seed.element (slot + 1) under⟩ = false) :
    document.Adds (document.outlineBody? depth) (NodeId.offset first slot)
      (.tree seed .nil .nil) := by
  have leaf' : IsLeaf (Grove.fill first seed.element (slot + 1) under) := by
    revert leaf
    cases seed.element <;> exact id
  have added := @adds_node _ _ _ _ _ _ .nil stands.head free
    (@body_of_leaf document depth _ _ leaf') trivial
  rwa [seed_planted proper] at added

theorem adds_fragment {id : NodeId} {depth slot : Nat} {node : Node} {f : Fragment} {row : Grove}
    (found : document.entry? id = some (slot, node)) (h : node.element = .fragment f)
    (spells : document.Spells (document.outlineBody? depth) f row) :
    document.Adds (document.outlineBody? (depth + 1)) id (.tree node.seed row .nil) := by
  obtain ⟨o, o', main, rest, shown⟩ := spells
  obtain ⟨id', lineStart, lineEnd, element⟩ := node
  subst h
  have drawn : document.outlineBody? (depth + 1) (.node slot ⟨id', lineStart, lineEnd,
      .fragment f⟩) = some (Forest.append o o') := by
    simp [outlineBody?, main, rest]
  exact adds_node found rfl drawn shown

theorem adds_group {id : NodeId} {depth slot : Nat} {node : Node} {g : ParticipantGroup}
    {trees : List (Seed × Grove)} (found : document.entry? id = some (slot, node))
    (h : node.element = .group g)
    (members : List.Forall₂ (document.Orders depth) (document.groupMembers g) trees) :
    document.Adds (document.outlineBody? (depth + 1)) id
      (.tree node.seed (Grove.ofTrees (Grove.ordered trees)) .nil) := by
  have outside : document.isGroupMember node = false := by
    rw [isGroupMember, h]
  obtain ⟨o, drawn, shown⟩ := @body_of_group document _ slot node _ _ h members
  exact adds_node found outside drawn shown

theorem spells_bare {body? : OutlineItem → Option Outline} {f : Fragment}
    (bare : Element.IsBare (.fragment f)) : document.Spells body? f .nil := by
  obtain ⟨entries, clauses⟩ := bare
  refine ⟨.nil, .nil, ?_, ?_, trivial⟩
  · simp [entries, outlineSection?, sectionEntries, outlineRow?]
  · simp [clauses, outlineClauses?]

theorem spells_fillFragment (keeps : document.Keeps register) {place : Place} {depth : Nat}
    {f : Fragment} {row before : Grove} {slot : Nat}
    (h : document.Spells (document.outlineBody? depth) f before) (outside : place ≠ .group)
    (proper : row.Proper place) (stands : document.Stands first slot row)
    (knows : Knows register row) (deep : row.size ≤ depth) :
    document.Spells (document.outlineBody? depth) (Grove.fillFragment first f slot row)
      (before.append (row.arrange register)) := by
  induction row generalizing place depth f before slot with
  | nil =>
    rw [Grove.arrange, Forest.append_nil]
    exact h
  | tree seed body next ihb ihn =>
    have found := stands.head
    have planted := @seed_planted first _ _ _ _ proper (NodeId.offset first slot) (slot + 1)
    have leaf := @adds_leaf document first depth slot place seed body next proper stands
    rw [Forest.size] at deep
    have behind {f' : Fragment} {before' : Grove}
        (h' : document.Spells (document.outlineBody? depth) f' before') :=
      ihn h' outside proper.2 stands.next knows.next (by omega)
    obtain ⟨element, lineStart, lineEnd⟩ := seed
    rw [Grove.fillFragment, Grove.sectionSlots]
    cases element with
    | fragment g =>
      obtain ⟨-, bare, inside⟩ := proper.1
      obtain ⟨depth, rfl⟩ : ∃ d, depth = d + 1 := ⟨depth - 1, by omega⟩
      have under := @ihb _ depth _ _ _ (spells_bare bare) (by simp) inside stands.body knows.body
        (by omega)
      have added := adds_fragment found rfl under
      rw [planted] at added
      have all := behind (h.addEntry added)
      rw [Forest.append_assoc] at all
      exact all
    | group g =>
      obtain ⟨bare, inside⟩ := proper.1
      obtain ⟨depth, rfl⟩ : ∃ d, depth = d + 1 := ⟨depth - 1, by omega⟩
      have nested := @orders_groups _ _ _ keeps _ _ depth inside stands.body knows.body (by omega)
      have added := adds_group found rfl (orders_members keeps bare knows.body nested)
      rw [planted] at added
      have all := behind (spells_strays (h.addEntry added) inside stands.body)
      rw [Forest.append_assoc, Forest.append_assoc] at all
      exact all
    | participant p =>
      by_cases listed : register.listed p.key = true
      · -- the group that lists it writes it, so nothing is added here
        have member : document.isGroupMember ⟨NodeId.offset first slot, lineStart, lineEnd,
            .participant p⟩ = true := (keeps.listed p.key).trans listed
        have all := behind (h.addEntry (adds_member found member))
        rw [Forest.append_nil] at all
        rw [Grove.arrange_participant register rfl, if_pos listed]
        exact all
      · have free : document.isGroupMember ⟨NodeId.offset first slot, lineStart, lineEnd,
            .participant p⟩ = false := (keeps.listed p.key).trans (by simpa using listed)
        have all := behind (h.addEntry (leaf trivial free))
        rw [Forest.append_assoc] at all
        rw [Grove.arrange_participant register rfl, if_neg listed]
        exact all
    | _ =>
      have all := behind (h.addEntry (leaf trivial rfl))
      rw [Forest.append_assoc] at all
      exact all
  | mark clause next ih =>
    obtain ⟨-, empty, proper'⟩ := proper
    have all := ih (h.addClause empty) outside proper' stands knows deep
    rw [Forest.append_assoc] at all
    exact all

end

end Document

namespace Grove

variable (first : UInt32)

theorem groupedAliases_plant {place : Place} {grove : Grove} (h : grove.Proper place)
    (slot : Nat) : (Document.mk (plant first slot grove)).groupedAliases = grove.listedKeys := by
  induction grove generalizing place slot with
  | nil => rfl
  | tree seed body next ihb ihn =>
    obtain ⟨place', proper⟩ := exists_proper_body h
    have inside := ihb proper (slot + 1)
    have behind := ihn h.2 (slot + 1 + body.size)
    simp only [Document.groupedAliases] at inside behind
    simp only [Document.groupedAliases, plant, List.flatMap_cons, List.flatMap_append, inside,
      behind, listedKeys]
    obtain ⟨element, lineStart, lineEnd⟩ := seed
    cases element with
    | group g =>
      simp only [fill, Element.groupAliases, Document.participants_fillGroup, h.1.1.1, List.nil_append]
    | _ => rfl
  | mark clause next ih => exact ih h.2.2 slot

theorem labels_plant {place : Place} {grove : Grove} (h : grove.Proper place) (slot : Nat) :
    (plant first slot grove).map Node.seed = grove.labels := by
  induction grove generalizing place slot with
  | nil => rfl
  | tree seed body next ihb ihn =>
    obtain ⟨place', proper⟩ := exists_proper_body h
    rw [plant, List.map_cons, List.map_append, Document.seed_planted h, ihb proper, ihn h.2,
      Forest.labels]
  | mark clause next ih => exact ih h.2.2 slot

theorem exists_declaration {nodes : List Node} {key : String} {seed : Seed}
    (h : (nodes.map Node.seed).find? (fun seed => seed.key? = some key) = some seed) :
    ∃ node p, (Document.mk nodes).declaration? key = some (node, p) ∧ node.seed = seed ∧
      node.element = .participant p := by
  induction nodes with
  | nil => simp at h
  | cons node nodes ih =>
    obtain ⟨id, lineStart, lineEnd, element⟩ := node
    cases element with
    | participant p =>
      by_cases same : p.key = key
      · refine ⟨⟨id, lineStart, lineEnd, .participant p⟩, p, ?_, ?_, rfl⟩
        · simp [Document.declaration?, same]
        · simpa [Node.seed, Seed.key?, Element.bare, same] using h
      · have later := ih (by simpa [Node.seed, Seed.key?, Element.bare, same] using h)
        simpa [Document.declaration?, same] using later
    | _ =>
      have later := ih (by simpa [Node.seed, Seed.key?, Element.bare] using h)
      simpa [Document.declaration?] using later

theorem keeps_register {grove : Grove} (h : grove.Proper .top) :
    (Document.mk (grove.plant first 0)).Keeps grove.register where
  listed key := by
    rw [Document.isGrouped, groupedAliases_plant first h]
    rfl
  declared key seed found := by
    apply exists_declaration
    rw [labels_plant first h]
    exact found

theorem knows_register (grove : Grove) : Document.Knows grove.register grove := by
  intro seed mem key declares
  rw [register, List.find?_isSome]
  exact ⟨seed, mem, by simpa using declares⟩

theorem stands_plant {grove : Grove} (fits : grove.size ≤ NodeId.count) :
    (Document.mk (grove.plant first 0)).Stands first 0 grove := by
  intro node j mem
  rw [numbered, List.mk_mem_zipIdx_iff_getElem?] at mem
  have bound := (List.getElem?_eq_some_iff.1 mem).1
  have slot := (isNumbered_plant first fits).slot?_eq bound
  simp [Document.entry?, slot, mem]

theorem fillFragment_top {f : Fragment} {row : Grove} {slot : Nat} (h : row.Proper .top)
    (clauses : f.elseClauses = []) :
    (fillFragment first f slot row).entries =
        f.entries ++ (rowSlots slot row).map (NodeId.offset first) ∧
      (fillFragment first f slot row).elseClauses = [] := by
  have slots (f : Fragment) (clauses : f.elseClauses = []) (slots : List Nat) :
      (addSlots first f slots).entries = f.entries ++ slots.map (NodeId.offset first) ∧
        (addSlots first f slots).elseClauses = [] := by
    induction slots generalizing f with
    | nil => simp [addSlots, clauses]
    | cons slot slots ih =>
      have entered := ih (f.addEntry (NodeId.offset first slot)) (by simp [Fragment.addEntry, clauses])
      simpa [addSlots, Fragment.addEntry, clauses] using entered
  induction row generalizing f slot with
  | nil => simp [fillFragment, rowSlots, clauses]
  | tree seed body next _ ih =>
    obtain ⟨entries, none⟩ := slots f clauses (sectionSlots slot seed body)
    obtain ⟨entries', none'⟩ := ih h.2 none
    refine ⟨?_, none'⟩
    rw [fillFragment, entries', entries, rowSlots, List.map_append, List.append_assoc]
  | mark clause next ih => exact absurd h.1 (by simp)

theorem exists_declared {row : Grove} {slot j : Nat} (h : j ∈ declaredSlots slot row) :
    ∃ node p, (node, j) ∈ numbered first slot row ∧ node.element = .participant p ∧
      p.key ∈ row.declaredKeys := by
  induction row generalizing slot with
  | nil => simp [declaredSlots] at h
  | tree seed body next _ ih =>
    rw [numbered_tree]
    rw [declaredSlots, List.mem_append] at h
    rcases h with h | h
    · obtain ⟨element, lineStart, lineEnd⟩ := seed
      cases element with
      | participant p =>
        obtain rfl : j = slot := by simpa using h
        exact ⟨_, p, List.mem_cons_self, rfl, by simp [declaredKeys, Seed.key?]⟩
      | _ => simp at h
    · obtain ⟨node, p, mem, declares, key⟩ := ih h
      exact ⟨node, p, by simp [mem], declares, by simp [declaredKeys, key]⟩
  | mark clause next ih => exact ih h

theorem exists_listed {grove : Grove} {slot j : Nat} (h : j ∈ listedSlots slot grove) :
    ∃ node p, (node, j) ∈ numbered first slot grove ∧ node.element = .participant p ∧
      p.key ∈ grove.listedKeys := by
  induction grove generalizing slot with
  | nil => simp [listedSlots] at h
  | tree seed body next ihb ihn =>
    rw [numbered_tree, listedKeys]
    rw [listedSlots, List.mem_append, List.mem_append] at h
    rcases h with h | h | h
    · obtain ⟨element, lineStart, lineEnd⟩ := seed
      cases element with
      | group g =>
        obtain ⟨node, p, mem, declares, key⟩ := exists_declared first h
        exact ⟨node, p, by simp [mem], declares, by simp [key]⟩
      | _ => simp at h
    · obtain ⟨node, p, mem, declares, key⟩ := ihb h
      exact ⟨node, p, by simp [mem], declares, by simp [key]⟩
    · obtain ⟨node, p, mem, declares, key⟩ := ihn h
      exact ⟨node, p, by simp [mem], declares, by simp [key]⟩
  | mark clause next ih => exact ih h

section
variable {first : UInt32} {grove : Grove}

theorem isOwned_plant (h : grove.Proper .top) (fits : grove.size ≤ NodeId.count) {j : Nat}
    (bound : j < grove.size) :
    (Document.mk (grove.plant first 0)).isOwned (NodeId.offset first j) = true ↔
      j ∈ held 0 grove := by
  rw [Document.isOwned, references_plant first h 0, List.any_map, List.any_eq_true, held,
    List.mem_map]
  refine exists_congr fun pair => and_congr_right fun mem => ?_
  have bounds := bounds_of_mem_holdings mem
  simp only [Function.comp_apply, decide_eq_true_eq]
  exact ⟨NodeId.offset_inj (by omega) (by omega), fun same => same ▸ rfl⟩

theorem unique_numbered (fits : grove.size ≤ NodeId.count) {node node' : Node} {j : Nat}
    (mem : (node, j) ∈ numbered first 0 grove) (mem' : (node', j) ∈ numbered first 0 grove) :
    node = node' := by
  have stands := stands_plant first fits
  simpa using (stands node j mem).symm.trans (stands node' j mem')

theorem mem_rowSlots_iff (h : grove.Proper .top) {j : Nat} (bound : j < grove.size) :
    j ∈ rowSlots 0 grove ↔ j ∉ held 0 grove ∧ j ∉ listedSlots 0 grove := by
  have all := count_slots h 0 j
  have one : within 0 grove.size j = 1 := by
    rw [within, if_pos]
    omega
  simp only [reduceCtorEq, if_false, one] at all
  rw [← List.count_eq_zero, ← List.count_eq_zero, ← List.one_le_count_iff]
  omega

theorem entry?_eq_some_iff (fits : grove.size ≤ NodeId.count) {j : Nat} (bound : j < grove.size)
    (entry : Nat × Node) :
    Document.entry? (Document.mk (grove.plant first 0)) (NodeId.offset first j) = some entry ↔
      entry.1 = j ∧ (entry.2, j) ∈ numbered first 0 grove := by
  obtain ⟨node, mem⟩ := @exists_mem_numbered first 0 j grove (Nat.zero_le j) (by omega)
  rw [stands_plant first fits node j mem, Option.some.injEq]
  constructor
  · rintro rfl
    exact ⟨rfl, mem⟩
  · rintro ⟨rfl, mem'⟩
    rw [unique_numbered fits mem mem']

theorem isTopLevel_iff (h : grove.Proper .top) (fits : grove.size ≤ NodeId.count) {node : Node}
    {j : Nat} (mem : (node, j) ∈ numbered first 0 grove) :
    (Document.mk (grove.plant first 0)).isTopLevel node = true ↔
      j ∈ rowSlots 0 grove ∧
        (Document.mk (grove.plant first 0)).isGroupMember node = false := by
  have keeps := keeps_register first h
  have bound : j < grove.size := by
    have placed := List.snd_lt_of_mem_zipIdx mem
    rwa [length_plant, Nat.add_zero] at placed
  rw [mem_rowSlots_iff h bound, ← @isOwned_plant first _ h fits _ bound,
    Document.isTopLevel, Bool.and_eq_true, id_of_mem_numbered first mem, Bool.not_eq_true',
    Bool.not_eq_true']
  constructor
  · rintro ⟨free, outside⟩
    refine ⟨⟨by simp [free], fun listed => ?_⟩, outside⟩
    obtain ⟨node', p, mem', declares, key⟩ := exists_listed first listed
    obtain rfl := unique_numbered fits mem mem'
    have isListed := (keeps.listed p.key).trans (List.contains_iff_mem.2 key)
    simp only [Document.isGroupMember, declares] at outside
    exact absurd (isListed.symm.trans outside) (by simp)
  · rintro ⟨⟨free, -⟩, outside⟩
    exact ⟨by simpa using free, outside⟩

/-- Following the slots of the bottom row finds the nodes that no container writes. -/
theorem sectionEntries_rowSlots (h : grove.Proper .top) (fits : grove.size ≤ NodeId.count) :
    (Document.mk (grove.plant first 0)).sectionEntries
        ((rowSlots 0 grove).map (NodeId.offset first)) =
      ((grove.plant first 0).zipIdx.filter fun entry =>
        (Document.mk (grove.plant first 0)).isTopLevel entry.1).map Prod.swap := by
  let document := Document.mk (grove.plant first 0)
  have ascends := ascends_rowSlots 0 grove
  have entries : ((rowSlots 0 grove).map (NodeId.offset first)).filterMap document.entry? =
      (rowSlots 0 grove).filterMap fun j => document.entry? (NodeId.offset first j) :=
    List.filterMap_map
  have found {j : Nat} (hj : j ∈ rowSlots 0 grove) :=
    @entry?_eq_some_iff first grove fits j (by have := (ascends.bounds j hj).2; omega)
  have irrefl : Std.Irrefl fun a b : Nat × Node => a.1 < b.1 := ⟨fun _ => Nat.lt_irrefl _⟩
  -- Both lists ascend in their slots, so it is enough that they have the same members.
  refine List.Pairwise.eq_of_mem_iff (r := fun a b => a.1 < b.1) ?_ ?_ fun entry => ?_
  · rw [Document.sectionEntries, entries]
    refine List.Pairwise.filter _ (List.pairwise_filterMap.2 ?_)
    refine ascends.sorted.imp_of_mem fun {i j} hi hj less a ha b hb => ?_
    rwa [((found hi a).1 ha).1, ((found hj b).1 hb).1]
  · rw [List.pairwise_map]
    refine List.Pairwise.filter _ ?_
    have ordered : ((grove.plant first 0).zipIdx.map Prod.snd).Pairwise (· < ·) := by
      rw [List.zipIdx_map_snd]
      exact List.pairwise_lt_range'
    exact List.pairwise_map.1 ordered
  · obtain ⟨j, node⟩ := entry
    have swapped : (j, node) ∈ ((grove.plant first 0).zipIdx.filter fun entry =>
        document.isTopLevel entry.1).map Prod.swap ↔
        (node, j) ∈ numbered first 0 grove ∧ document.isTopLevel node = true := by
      simp [numbered]
    rw [swapped, Document.sectionEntries, entries, List.mem_filter, List.mem_filterMap,
      Bool.not_eq_true']
    constructor
    · rintro ⟨⟨j', hj, some⟩, outside⟩
      obtain ⟨rfl, mem⟩ := (found hj _).1 some
      exact ⟨mem, (isTopLevel_iff h fits mem).2 ⟨hj, outside⟩⟩
    · rintro ⟨mem, top⟩
      obtain ⟨row, outside⟩ := (isTopLevel_iff h fits mem).1 top
      exact ⟨⟨j, row, (found row _).2 ⟨rfl, mem⟩⟩, outside⟩

/-- The outline of a planted grove is the arranged grove. -/
theorem outline_plant (h : grove.Proper .top) (fits : grove.size ≤ NodeId.count) :
    ∃ o, (Document.mk (grove.plant first 0)).outline? = some o ∧ o.Shows grove.arranged := by
  let document := Document.mk (grove.plant first 0)
  let none : Fragment := ⟨.group, "", .none, [], [], .none⟩
  have nothing : document.Spells (document.outlineBody? grove.size) none .nil :=
    ⟨.nil, .nil, rfl, rfl, trivial⟩
  obtain ⟨o, o', main, rest, shown⟩ := Document.spells_fillFragment (keeps_register first h) nothing
    (by simp) h (stands_plant first fits) (knows_register grove) (Nat.le_refl _)
  obtain ⟨entries, clauses⟩ := fillFragment_top first (f := none) h rfl
  rw [clauses] at rest
  obtain rfl := Option.some.inj rest
  rw [Forest.append_nil] at shown
  refine ⟨o, ?_, shown⟩
  rw [← main, entries, Document.outlineSection?, List.nil_append, sectionEntries_rowSlots h fits,
    List.map_map, Document.outline?, length_plant]
  rfl

end

end Grove

namespace Document

/-- The canonical form of a text is written from the arranged grove that the text is read as. -/
theorem exists_arranged (text : String) (fits : (read text).nodes.length ≤ NodeId.count) :
    ∃ grove : Grove, grove.Proper .top ∧ grove.Spans 0 (Text.lines text.toList).length ∧
      grove.IsRead ∧ read text = ⟨grove.plant 0 0⟩ ∧
      format text = String.ofList (grove.arranged.lines 0 |>.flatMap fun line => line ++ ['\n']) := by
  obtain ⟨grove, proper, spans, isRead, planted⟩ := readFrom_eq_plant 0 text
  rw [read, planted, Grove.length_plant] at fits
  obtain ⟨o, outline, shown⟩ := Grove.outline_plant proper fits
  refine ⟨grove, proper, spans, isRead, planted, ?_⟩
  rw [format, read, planted, write?, outline, Option.map_some, Option.getD_some, Outline.toText,
    shown.lines_eq]

end Document

end SequenceDiagram
