import Mathlib.Data.List.Forall2
import SequenceDiagram.Proofs.Arrangement
import SequenceDiagram.Proofs.WellOwned

set_option autoImplicit false

namespace SequenceDiagram

/-- Sorting does not tell related lists apart when the orders agree on related elements. -/
theorem forall₂_mergeSort {α β : Type} {R : α → β → Prop} {r : α → α → Bool} {s : β → β → Bool}
    {as : List α} {bs : List β} (h : List.Forall₂ R as bs)
    (agree : ∀ a b a' b', R a b → R a' b' → r a a' = s b b') :
    List.Forall₂ R (as.mergeSort r) (bs.mergeSort s) := by
  have pairs : ∃ zs : List (α × β), zs.map Prod.fst = as ∧ zs.map Prod.snd = bs ∧
      ∀ z ∈ zs, R z.1 z.2 := by
    induction h with
    | nil => exact ⟨[], rfl, rfl, by simp⟩
    | cons hab _ ih =>
      obtain ⟨zs, rfl, rfl, related⟩ := ih
      exact ⟨(_, _) :: zs, rfl, rfl, by simpa [hab] using related⟩
  obtain ⟨zs, rfl, rfl, related⟩ := pairs
  let order (x y : α × β) : Bool := r x.1 y.1
  have left : (zs.mergeSort order).map Prod.fst = (zs.map Prod.fst).mergeSort r :=
    List.map_mergeSort fun _ _ _ _ => rfl
  have right : (zs.mergeSort order).map Prod.snd = (zs.map Prod.snd).mergeSort s :=
    List.map_mergeSort fun x hx y hy => agree _ _ _ _ (related x hx) (related y hy)
  rw [← left, ← right, List.forall₂_map_left_iff, List.forall₂_map_right_iff, List.forall₂_same]
  exact fun z hz => related z ((List.mergeSort_perm zs order).mem_iff.1 hz)

namespace Outline

theorem Shows.of_append {a b : Outline} {c : Grove} (h : Shows (a.append b) c) :
    ∃ a' b' : Grove, c = a'.append b' ∧ a.Shows a' ∧ b.Shows b' := by
  induction a generalizing c with
  | nil => exact ⟨.nil, c, rfl, trivial, h⟩
  | tree item body next _ ih =>
    cases c with
    | tree seed body' next' =>
      obtain ⟨same, inside, behind⟩ := h
      obtain ⟨a', b', rfl, ha, hb⟩ := ih behind
      exact ⟨.tree seed body' a', b', rfl, ⟨same, inside, ha⟩, hb⟩
    | _ => exact h.elim
  | mark clause next ih =>
    cases c with
    | mark clause' next' =>
      obtain ⟨same, behind⟩ := h
      obtain ⟨a', b', rfl, ha, hb⟩ := ih behind
      exact ⟨.mark clause' a', b', rfl, ⟨same, ha⟩, hb⟩
    | _ => exact h.elim

end Outline

namespace Document

variable (document : Document)

section
variable (body? : OutlineItem → Option Outline)

def Draws (item : OutlineItem) (tree : Seed × Grove) : Prop :=
  item.seed? = some tree.1 ∧ ∃ o, body? item = some o ∧ o.Shows tree.2

theorem shows_ofTrees {items : List OutlineItem} {trees : List (Seed × Grove)}
    (h : List.Forall₂ (Draws body?) items trees) :
    ∃ o, outlineRow? body? items = some o ∧ o.Shows (Grove.ofTrees trees) := by
  induction h with
  | nil => exact ⟨.nil, rfl, trivial⟩
  | @cons item tree items trees draws _ ih =>
    obtain ⟨same, body, some, inside⟩ := draws
    obtain ⟨next, row, behind⟩ := ih
    refine ⟨.tree item body next, ?_, same, inside, behind⟩
    simp [outlineRow?, some, row]

theorem outlineRow?_append (a b : List OutlineItem) :
    outlineRow? body? (a ++ b) =
      (outlineRow? body? a).bind fun first => (outlineRow? body? b).map first.append := by
  induction a with
  | nil =>
    rw [List.nil_append]
    cases outlineRow? body? b with
    | none => rfl
    | some row => rfl
  | cons item a ih =>
    simp only [List.cons_append, outlineRow?, ih]
    cases body? item with
    | none => rfl
    | some body =>
      cases outlineRow? body? a with
      | none => rfl
      | some row =>
        cases outlineRow? body? b with
        | none => rfl
        | some row' => rfl

theorem outlineSection?_append (a b : List NodeId) :
    document.outlineSection? body? (a ++ b) =
      (document.outlineSection? body? a).bind fun first =>
        (document.outlineSection? body? b).map first.append := by
  simp only [outlineSection?, sectionEntries, List.filterMap_append, List.filter_append,
    List.map_append, outlineRow?_append]

def Spells (fragment : Fragment) (row : Grove) : Prop :=
  ∃ entries clauses : Outline, document.outlineSection? body? fragment.entries = some entries ∧
    document.outlineClauses? body? fragment.elseClauses = some clauses ∧
    Outline.Shows (entries.append clauses) row

def Adds (id : NodeId) (row : Grove) : Prop :=
  ∃ o, document.outlineSection? body? [id] = some o ∧ o.Shows row

theorem clauses_addEntry {id : NodeId} {row added : Grove} {clauses : List ElseClause}
    (some : clauses ≠ []) (add : document.Adds body? id added) {o : Outline}
    (h : document.outlineClauses? body? clauses = .some o) (shows' : o.Shows row) :
    ∃ o', document.outlineClauses? body? (ElseClause.addEntry id clauses) = .some o' ∧
      o'.Shows (row.append added) := by
  obtain ⟨last, single, showsLast⟩ := add
  induction clauses generalizing o row with
  | nil => contradiction
  | cons clause clauses ih =>
    simp only [outlineClauses?, bind, Option.bind_eq_some_iff, Option.some.injEq] at h
    obtain ⟨entries, found, next, rest, rfl⟩ := h
    cases row with
    | mark clause' row =>
      obtain ⟨rfl, shows'⟩ := shows'
      cases clauses with
      | nil =>
        simp only [outlineClauses?, Option.some.injEq] at rest
        subst rest
        rw [Forest.append_nil] at shows'
        refine ⟨.mark { clause with entries := clause.entries ++ [id] }
          ((entries.append last).append .nil), ?_, rfl, ?_⟩
        · simp [ElseClause.addEntry, outlineClauses?, outlineSection?_append, found, single]
        · rw [Forest.append_nil]
          exact shows'.append showsLast
      | cons clause' clauses =>
        obtain ⟨a, b, rfl, ha, hb⟩ := Outline.Shows.of_append shows'
        obtain ⟨o', found', shows''⟩ := ih (List.cons_ne_nil _ _) rest hb
        refine ⟨.mark clause (entries.append o'), ?_, rfl, ?_⟩
        · simp [ElseClause.addEntry, outlineClauses?, found, found']
        · rw [Forest.append_assoc]
          exact ha.append shows''
    | _ => exact shows'.elim

theorem Spells.addEntry {document : Document} {body? : OutlineItem → Option Outline}
    {fragment : Fragment} {row added : Grove} {id : NodeId}
    (h : document.Spells body? fragment row) (add : document.Adds body? id added) :
    document.Spells body? (fragment.addEntry id) (row.append added) := by
  obtain ⟨entries, clauses, found, rest, shown⟩ := h
  obtain ⟨a, b, rfl, ha, hb⟩ := Outline.Shows.of_append shown
  unfold Fragment.addEntry
  split
  · rename_i none
    obtain ⟨last, single, showsLast⟩ := add
    rw [none] at rest
    simp only [outlineClauses?, Option.some.injEq] at rest
    subst rest
    refine ⟨entries.append last, .nil, ?_, ?_, ?_⟩
    · simp [outlineSection?_append, found, single]
    · simp [none, outlineClauses?]
    · rw [Forest.append_nil]
      have row : Outline.Shows (entries.append .nil) (a.append b) := ha.append hb
      rw [Forest.append_nil] at row
      exact row.append showsLast
  · rename_i some
    obtain ⟨o, found', shown'⟩ := clauses_addEntry document body? some add rest hb
    refine ⟨entries, o, found, found', ?_⟩
    rw [Forest.append_assoc]
    exact ha.append shown'

theorem outlineClauses?_append (a b : List ElseClause) :
    document.outlineClauses? body? (a ++ b) =
      (document.outlineClauses? body? a).bind fun first =>
        (document.outlineClauses? body? b).map first.append := by
  induction a with
  | nil =>
    rw [List.nil_append]
    cases document.outlineClauses? body? b with
    | none => rfl
    | some row => rfl
  | cons clause a ih =>
    simp only [List.cons_append, outlineClauses?, ih]
    cases document.outlineSection? body? clause.entries with
    | none => rfl
    | some entries =>
      cases document.outlineClauses? body? a with
      | none => rfl
      | some row =>
        cases document.outlineClauses? body? b with
        | none => rfl
        | some row' => simp [Forest.append, Forest.append_assoc]

theorem Spells.addClause {document : Document} {body? : OutlineItem → Option Outline}
    {fragment : Fragment} {row : Grove} {clause : ElseClause}
    (h : document.Spells body? fragment row) (empty : clause.entries = []) :
    document.Spells body? (fragment.addClause clause) (row.append (.mark clause .nil)) := by
  obtain ⟨entries, clauses, found, rest, shown⟩ := h
  have single : document.outlineClauses? body? [clause] = some (.mark clause .nil) := by
    simp [outlineClauses?, empty, outlineSection?, sectionEntries, outlineRow?, Forest.append]
  refine ⟨entries, clauses.append (.mark clause .nil), found, ?_, ?_⟩
  · simp [Fragment.addClause, outlineClauses?_append, rest, single]
  · rw [← Forest.append_assoc]
    refine shown.append ⟨?_, trivial⟩
    rw [← empty]

end

structure Keeps (register : Register) : Prop where
  listed : ∀ key, document.isGrouped key = register.listed key
  declared : ∀ key seed, register.declaration? key = some seed →
    ∃ node p, document.declaration? key = some (node, p) ∧ node.seed = seed ∧
      node.element = .participant p

def Stands (first : UInt32) (slot : Nat) (row : Grove) : Prop :=
  ∀ node j, (node, j) ∈ Grove.numbered first slot row →
    document.entry? (NodeId.offset first j) = some (j, node)

def Knows (register : Register) (row : Grove) : Prop :=
  ∀ seed ∈ row.labels, ∀ key, seed.key? = some key → (register.declaration? key).isSome = true

theorem bare_eq_self {element : Element} (h : element.IsBare) : element.bare = element := by
  cases element with
  | fragment f =>
    obtain ⟨entries, clauses⟩ := h
    simp [Element.bare, Fragment.bare, ← entries, ← clauses]
  | group g =>
    obtain ⟨participants, nested⟩ := h
    simp [Element.bare, ParticipantGroup.header, ← participants, ← nested]
  | _ => rfl

section
variable {document : Document} {first : UInt32} {slot : Nat} {seed : Seed} {under after : Grove}
  {place : Place}

theorem Stands.head (h : document.Stands first slot (.tree seed under after)) :
    document.entry? (NodeId.offset first slot) =
      some (slot, ⟨NodeId.offset first slot, seed.lineStart, seed.lineEnd,
        Grove.fill first seed.element (slot + 1) under⟩) :=
  h _ _ (by simp [Grove.numbered_tree])

theorem Stands.body (h : document.Stands first slot (.tree seed under after)) :
    document.Stands first (slot + 1) under :=
  fun node j mem => h node j (by simp [Grove.numbered_tree, mem])

theorem Stands.next (h : document.Stands first slot (.tree seed under after)) :
    document.Stands first (slot + 1 + under.size) after :=
  fun node j mem => h node j (by simp [Grove.numbered_tree, mem])

theorem Knows.body {register : Register} (h : Knows register (.tree seed under after)) :
    Knows register under :=
  fun seed mem => h seed (by simp [Forest.labels, mem])

theorem Knows.next {register : Register} (h : Knows register (.tree seed under after)) :
    Knows register after :=
  fun seed mem => h seed (by simp [Forest.labels, mem])

theorem seed_planted (h : Grove.Proper place (.tree seed under after)) (id : NodeId) (slot : Nat) :
    Node.seed ⟨id, seed.lineStart, seed.lineEnd, Grove.fill first seed.element slot under⟩ =
      seed := by
  obtain ⟨element, lineStart, lineEnd⟩ := seed
  have bare : element.IsBare := by
    cases element with
    | fragment f => exact h.1.2.1
    | group g => exact h.1.1
    | _ => trivial
  simp [Node.seed, Grove.bare_fill, bare_eq_self bare]

end

def Orders (depth : Nat) (member : Option Nat × OutlineItem) (tree : Seed × Grove) : Prop :=
  member.1 = some tree.1.lineStart ∧ Draws (document.outlineBody? depth) member.2 tree

def declaredMember (key : String) : Option Nat × OutlineItem :=
  match document.declaration? key with
  | some (node, _) => (some node.lineStart, .node (document.nodes.findIdx (· = node)) node)
  | none => (none, .undeclared key)

def nestedMembers (ids : List NodeId) : List (Option Nat × OutlineItem) :=
  (ids.filterMap document.entry?).map fun entry => (some entry.2.lineStart, .node entry.1 entry.2)

theorem groupMembers_eq (group : ParticipantGroup) :
    document.groupMembers group =
      group.participants.map document.declaredMember ++
        document.nestedMembers group.nestedGroups := rfl

/-- Sorting the members gives the body of the group. -/
theorem body_of_group {depth slot : Nat} {node : Node} {group : ParticipantGroup}
    {trees : List (Seed × Grove)} (h : node.element = .group group)
    (orders : List.Forall₂ (document.Orders depth) (document.groupMembers group) trees) :
    ∃ o, document.outlineBody? (depth + 1) (.node slot node) = some o ∧
      o.Shows (Grove.ofTrees (Grove.ordered trees)) := by
  have sorted : List.Forall₂ (document.Orders depth)
      ((document.groupMembers group).mergeSort fun a b => lineLE a.1 b.1)
      (Grove.ordered trees) := by
    refine forall₂_mergeSort orders fun a b a' b' hab hab' => ?_
    rw [hab.1, hab'.1]
    rfl
  have row := @shows_ofTrees (document.outlineBody? depth)
    (document.orderedMembers group) (Grove.ordered trees)
    (List.forall₂_map_left_iff.2 (sorted.imp fun _ _ drawn => drawn.2))
  simpa [outlineBody?, h] using row

def IsLeaf : Element → Prop
  | .fragment _ => False
  | .group _ => False
  | _ => True

theorem body_of_leaf {depth slot : Nat} {node : Node} (h : IsLeaf node.element) :
    document.outlineBody? depth (.node slot node) = some .nil := by
  obtain ⟨id, lineStart, lineEnd, element⟩ := node
  cases element with
  | fragment f => exact h.elim
  | group g => exact h.elim
  | _ => cases depth <;> rfl

section
variable {document : Document} {register : Register} {first : UInt32}

theorem orders_declared (keeps : document.Keeps register) {key : String} {seed : Seed}
    (h : register.declaration? key = some seed) (depth : Nat) :
    document.Orders depth (document.declaredMember key) (seed, .nil) := by
  obtain ⟨node, p, found, rfl, isParticipant⟩ := keeps.declared key seed h
  have member : document.declaredMember key =
      (some node.lineStart, .node (document.nodes.findIdx (· = node)) node) := by
    simp [declaredMember, found]
  rw [member]
  refine ⟨rfl, rfl, .nil, document.body_of_leaf ?_, trivial⟩
  simp [isParticipant, IsLeaf]

theorem orders_declarations (keeps : document.Keeps register) {row : Grove}
    (knows : Knows register row) (depth : Nat) :
    List.Forall₂ (document.Orders depth) (row.declaredKeys.map document.declaredMember)
      (row.declarations register) := by
  induction row with
  | nil => exact .nil
  | tree seed body next _ ih =>
    have behind := ih knows.next
    cases h : seed.key? with
    | none => simpa [Grove.declaredKeys, Grove.declarations, h] using behind
    | some key =>
      have known := knows seed (by simp [Forest.labels]) key h
      obtain ⟨declared, found⟩ := Option.isSome_iff_exists.1 known
      have head := orders_declared keeps found depth
      simp only [Grove.declaredKeys, Grove.declarations, h, Option.bind_some, found,
        Option.toList_some, List.singleton_append, List.map_cons, List.map_nil]
      exact .cons head behind
  | mark clause next ih => exact ih knows

theorem participants_fillGroup (g : ParticipantGroup) (slot : Nat) (row : Grove) :
    (Grove.fillGroup first g slot row).participants = g.participants ++ row.declaredKeys := by
  induction row generalizing g slot with
  | nil => simp [Grove.fillGroup, Grove.declaredKeys]
  | tree seed body next _ ih =>
    obtain ⟨element, lineStart, lineEnd⟩ := seed
    rw [Grove.fillGroup, ih]
    cases element <;> simp [Grove.addMember, Grove.declaredKeys, Seed.key?]
  | mark clause next ih => rw [Grove.fillGroup, ih, Grove.declaredKeys]

/-- The members of a group that is filled with a row are its declarations and its groups. -/
theorem orders_members (keeps : document.Keeps register) {g : ParticipantGroup} {row : Grove}
    {slot depth : Nat} (bare : Element.IsBare (.group g)) (knows : Knows register row)
    (nested : List.Forall₂ (document.Orders depth)
      (document.nestedMembers ((Grove.nestedSlots slot row).map (NodeId.offset first)))
      (row.groups register)) :
    List.Forall₂ (document.Orders depth)
      (document.groupMembers (Grove.fillGroup first g slot row))
      (row.declarations register ++ row.groups register) := by
  obtain ⟨bareKeys, bareGroups⟩ := bare
  rw [groupMembers_eq, participants_fillGroup, Grove.nestedGroups_fillGroup, bareKeys, bareGroups,
    List.nil_append, List.nil_append]
  exact List.rel_append (orders_declarations keeps knows depth) nested

/-- The nested groups of a group's body, each with what stands in it. -/
theorem orders_groups (keeps : document.Keeps register) {row : Grove} {slot depth : Nat}
    (proper : row.Proper .group) (stands : document.Stands first slot row)
    (knows : Knows register row) (deep : row.size ≤ depth) :
    List.Forall₂ (document.Orders depth)
      (document.nestedMembers ((Grove.nestedSlots slot row).map (NodeId.offset first)))
      (row.groups register) := by
  induction row generalizing slot depth with
  | nil => exact .nil
  | tree seed body next ihb ihn =>
    have planted := @seed_planted first _ _ _ _ proper (NodeId.offset first slot) (slot + 1)
    have found := stands.head
    have behind := @ihn _ depth proper.2 stands.next knows.next
      (by rw [Forest.size] at deep; omega)
    obtain ⟨element, lineStart, lineEnd⟩ := seed
    cases element with
    | group g =>
      obtain ⟨bare, inside⟩ := proper.1
      obtain ⟨depth, rfl⟩ : ∃ d, depth = d + 1 := ⟨depth - 1, by rw [Forest.size] at deep; omega⟩
      have nested := @ihb _ depth inside stands.body knows.body
        (by rw [Forest.size] at deep; omega)
      have members := orders_members keeps bare knows.body nested
      have drawn := @body_of_group document _ slot ⟨NodeId.offset first slot,
        lineStart, lineEnd, .group (Grove.fillGroup first g (slot + 1) body)⟩ _ _ rfl members
      have head : document.Orders (depth + 1) (some lineStart, .node slot ⟨NodeId.offset first slot,
          lineStart, lineEnd, .group (Grove.fillGroup first g (slot + 1) body)⟩)
          (⟨.group g, lineStart, lineEnd⟩, Grove.members register body) :=
        ⟨rfl, congrArg some planted, drawn⟩
      simp only [Grove.nestedSlots, Grove.groups, List.singleton_append, List.map_cons,
        nestedMembers, List.filterMap_cons, found, Grove.fill]
      exact .cons head behind
    | _ => exact behind
  | mark clause next ih => exact ih proper.2.2 stands knows deep

end

end Document

end SequenceDiagram
