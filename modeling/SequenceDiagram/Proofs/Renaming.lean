import Mathlib.Data.List.Basic
import Mathlib.Logic.Function.Basic
import SequenceDiagram.Diagram.Meaning
import SequenceDiagram.Script.Writer

set_option autoImplicit false

namespace SequenceDiagram

section
variable (rename : NodeId → NodeId)

def ElseClause.renamed (clause : ElseClause) : ElseClause :=
  { clause with entries := clause.entries.map rename }

def Fragment.renamed (fragment : Fragment) : Fragment :=
  { fragment with
    entries := fragment.entries.map rename
    elseClauses := fragment.elseClauses.map (ElseClause.renamed rename) }

def ParticipantGroup.renamed (group : ParticipantGroup) : ParticipantGroup :=
  { group with nestedGroups := group.nestedGroups.map rename }

def Element.renamed : Element → Element
  | .fragment f => .fragment (f.renamed rename)
  | .group g => .group (g.renamed rename)
  | element => element

def Node.renamed (node : Node) : Node :=
  ⟨rename node.id, node.lineStart, node.lineEnd, node.element.renamed rename⟩

def DocumentError.renamed : DocumentError → DocumentError
  | .missingNode id => .missingNode (rename id)
  | .danglingReference owner child => .danglingReference (rename owner) (rename child)
  | .selfReference id => .selfReference (rename id)
  | .multipleOwners child first second =>
    .multipleOwners (rename child) (rename first) (rename second)

def Document.renamed (document : Document) : Document :=
  ⟨document.nodes.map (Node.renamed rename)⟩

def OutlineItem.renamed : OutlineItem → OutlineItem
  | .node slot n => .node slot (n.renamed rename)
  | .undeclared key => .undeclared key

end

section
variable {rename back : NodeId → NodeId}

theorem Fragment.allEntries_renamed (f : Fragment) :
    (f.renamed rename).allEntries = f.allEntries.map rename := by
  simp [renamed, allEntries, ElseClause.renamed, List.map_flatMap, List.flatMap_map]

theorem Fragment.header_renamed (f : Fragment) : (f.renamed rename).header = f.header := by
  simp [renamed, header, ElseClause.renamed]

namespace Element

theorem children_renamed (element : Element) :
    (element.renamed rename).children = element.children.map rename := by
  cases element with
  | fragment f => exact f.allEntries_renamed
  | _ => rfl

theorem isError_renamed (element : Element) :
    (element.renamed rename).isError = element.isError := by
  cases element <;> rfl

theorem renamed_of_isError {element : Element} (error : element.isError = true) :
    element.renamed rename = element := by
  cases element with
  | error fault => rfl
  | _ => cases error

theorem renamed_renamed (undo : Function.LeftInverse back rename) (element : Element) :
    (element.renamed rename).renamed back = element := by
  have ids (list : List NodeId) : (list.map rename).map back = list := by
    rw [List.map_map, undo.comp_eq_id, List.map_id]
  cases element with
  | fragment f =>
    have clauses : (f.elseClauses.map (ElseClause.renamed rename)).map (ElseClause.renamed back) =
        f.elseClauses := by
      rw [List.map_map]
      exact List.map_id'' (fun clause => by simp [ElseClause.renamed, ids]) _
    simp only [renamed, Fragment.renamed, ids, clauses]
  | group g => simp only [renamed, ParticipantGroup.renamed, ids]
  | _ => rfl

end Element

theorem Node.renamed_injective (inj : Function.Injective rename) :
    Function.Injective (Node.renamed rename) := by
  have : Nonempty NodeId := ⟨⟨0⟩⟩
  obtain ⟨back, undo⟩ := inj.hasLeftInverse
  intro p q same
  obtain ⟨id, lineStart, lineEnd, element⟩ := p
  obtain ⟨id', lineStart', lineEnd', element'⟩ := q
  obtain ⟨ids, rfl, rfl, elements⟩ := Node.mk.inj same
  obtain rfl := inj ids
  rw [← Element.renamed_renamed undo element, elements, Element.renamed_renamed undo]

end

namespace Document
variable {rename : NodeId → NodeId} (document : Document)

theorem references_renamed :
    (document.renamed rename).references =
      document.references.map fun reference => (rename reference.1, rename reference.2) := by
  simp only [references, renamed, List.flatMap_map, List.map_flatMap, Node.renamed,
    Element.children_renamed, List.map_map]
  rfl

theorem groupedAliases_renamed :
    (document.renamed rename).groupedAliases = document.groupedAliases := by
  rw [groupedAliases, renamed, List.flatMap_map, groupedAliases]
  congr
  funext node
  obtain ⟨id, lineStart, lineEnd, element⟩ := node
  cases element <;> rfl

theorem isGroupMember_renamed (node : Node) :
    (document.renamed rename).isGroupMember (node.renamed rename) =
      document.isGroupMember node := by
  obtain ⟨id, lineStart, lineEnd, element⟩ := node
  cases element with
  | participant p =>
    simp only [isGroupMember, Node.renamed, Element.renamed, isGrouped, groupedAliases_renamed]
  | _ => rfl

theorem declaration?_renamed (key : String) :
    (document.renamed rename).declaration? key =
      (document.declaration? key).map fun found => (found.1.renamed rename, found.2) := by
  rw [declaration?, renamed, List.findSome?_map, declaration?, List.map_findSome?]
  refine congrArg (fun test => document.nodes.findSome? test) (funext fun node => ?_)
  obtain ⟨id, lineStart, lineEnd, element⟩ := node
  cases element with
  | participant p =>
    simp only [Function.comp_apply, Node.renamed, Element.renamed]
    split <;> rfl
  | _ => rfl

theorem participant?_renamed (key : String) :
    (document.renamed rename).participant? key = document.participant? key := by
  rw [participant?, declaration?_renamed, Option.map_map, participant?]
  rfl

/-- The errors of a document are its own under other identifiers. -/
theorem errors_renamed :
    (document.renamed rename).errors = document.errors.map (Node.renamed rename) := by
  rw [errors, renamed, List.filter_map, errors]
  exact congrArg _ (List.filter_congr fun node _ => node.element.isError_renamed)

section
variable (inj : Function.Injective rename)
include inj

theorem isOwned_renamed (id : NodeId) :
    (document.renamed rename).isOwned (rename id) = document.isOwned id := by
  simp only [isOwned, references_renamed, List.any_map, Function.comp_def, inj.eq_iff]

theorem contains_renamed (id : NodeId) :
    (document.renamed rename).contains (rename id) = document.contains id := by
  simp only [contains, renamed, List.any_map, Function.comp_def, Node.renamed, inj.eq_iff]

theorem slot?_renamed (id : NodeId) :
    (document.renamed rename).slot? (rename id) = document.slot? id := by
  simp only [slot?, renamed, ← List.map_reverse, List.findIdx?_map, Function.comp_def, Node.renamed,
    inj.eq_iff, List.length_map]

theorem get?_renamed (id : NodeId) :
    (document.renamed rename).get? (rename id) = (document.get? id).map (Node.renamed rename) := by
  simp only [get?, renamed, ← List.map_reverse, List.find?_map, Function.comp_def, Node.renamed,
    inj.eq_iff]

theorem isTopLevel_renamed (node : Node) :
    (document.renamed rename).isTopLevel (node.renamed rename) = document.isTopLevel node := by
  rw [isTopLevel, isGroupMember_renamed, isTopLevel, Node.renamed, isOwned_renamed document inj]

theorem topLevel_renamed :
    (document.renamed rename).topLevel = document.topLevel.map (Node.renamed rename) := by
  rw [topLevel, topLevel, renamed, List.filter_map]
  refine congrArg _ (List.filter_congr fun node _ => ?_)
  exact isTopLevel_renamed document inj node

end

theorem lookup_renamed (inj : Function.Injective rename) (owners : List (NodeId × NodeId))
    (child : NodeId) :
    (owners.map fun entry => (rename entry.1, rename entry.2)).lookup (rename child) =
      (owners.lookup child).map rename := by
  induction owners with
  | nil => rfl
  | cons entry owners ih =>
    obtain ⟨known, owner⟩ := entry
    have test : (rename child == rename known) = (child == known) :=
      Bool.eq_iff_iff.2 (by simp [inj.eq_iff])
    simp only [List.map_cons, List.lookup_cons, test]
    cases child == known with
    | true => rfl
    | false => exact ih

/-- Checking finds the same fault, if any, and names it by the other identifiers. -/
theorem validate_renamed (inj : Function.Injective rename) :
    (document.renamed rename).validate =
      document.validate.mapError (DocumentError.renamed rename) := by
  have check (references owners : List (NodeId × NodeId)) :
      (document.renamed rename).checkReferences
          (owners.map fun entry => (rename entry.1, rename entry.2))
          (references.map fun entry => (rename entry.1, rename entry.2)) =
        (document.checkReferences owners references).mapError (DocumentError.renamed rename) := by
    induction references generalizing owners with
    | nil => rfl
    | cons reference references ih =>
      obtain ⟨owner, child⟩ := reference
      simp only [List.map_cons, checkReferences, contains_renamed document inj, inj.eq_iff,
        lookup_renamed inj]
      split
      · rfl
      split
      · rfl
      cases owners.lookup child with
      | none => exact ih ((child, owner) :: owners)
      | some first => rfl
  rw [validate, references_renamed]
  exact check _ []

section
variable (inj : Function.Injective rename)
include inj

theorem filterMap_entries_renamed (ids : List NodeId) :
    ((ids.map rename).filterMap fun id => Document.entry? (document.renamed rename) id) =
      (ids.filterMap document.entry?).map fun entry => (entry.1, entry.2.renamed rename) := by
  rw [List.filterMap_map, List.map_filterMap]
  refine List.filterMap_congr fun id _ => ?_
  simp only [Function.comp_apply, entry?, slot?_renamed document inj]
  cases document.slot? id with
  | none => rfl
  | some slot =>
    simp only [renamed, List.getElem?_map, bind, Option.bind_some]
    cases document.nodes[slot]? <;> rfl

theorem sectionEntries_renamed (ids : List NodeId) :
    (document.renamed rename).sectionEntries (ids.map rename) =
      (document.sectionEntries ids).map fun entry => (entry.1, entry.2.renamed rename) := by
  rw [sectionEntries, filterMap_entries_renamed document inj, List.filter_map, sectionEntries]
  refine congrArg _ (List.filter_congr fun entry _ => ?_)
  simp only [Function.comp_apply, isGroupMember_renamed]

theorem groupMembers_renamed (g : ParticipantGroup) :
    (document.renamed rename).groupMembers (g.renamed rename) =
      (document.groupMembers g).map fun member => (member.1, member.2.renamed rename) := by
  simp only [groupMembers, ParticipantGroup.renamed, filterMap_entries_renamed document inj,
    List.map_append, List.map_map]
  congr 1
  refine List.map_congr_left fun key _ => ?_
  simp only [Function.comp_apply, declaration?_renamed]
  cases document.declaration? key with
  | none => rfl
  | some found =>
    have place : (document.renamed rename).nodes.findIdx (· = found.1.renamed rename) =
        document.nodes.findIdx (· = found.1) := by
      simp only [renamed, List.findIdx_map, Function.comp_def,
        (Node.renamed_injective inj).eq_iff]
    simp only [Option.map_some, place]
    rfl

theorem orderedMembers_renamed (g : ParticipantGroup) :
    (document.renamed rename).orderedMembers (g.renamed rename) =
      (document.orderedMembers g).map (OutlineItem.renamed rename) := by
  rw [orderedMembers, groupMembers_renamed document inj, ← List.map_mergeSort
    (r := fun a b => lineLE a.1 b.1) fun _ _ _ _ => rfl, List.map_map, orderedMembers, List.map_map]
  rfl

end

end Document

def Forest.map {ν ν' μ μ' : Type} (onLabel : ν → ν') (onMark : μ → μ') :
    Forest ν μ → Forest ν' μ'
  | .nil => .nil
  | .tree label body next =>
    .tree (onLabel label) (body.map onLabel onMark) (next.map onLabel onMark)
  | .mark label next => .mark (onMark label) (next.map onLabel onMark)

theorem Forest.map_append {ν ν' μ μ' : Type} (onLabel : ν → ν') (onMark : μ → μ')
    (a b : Forest ν μ) :
    (a.append b).map onLabel onMark = (a.map onLabel onMark).append (b.map onLabel onMark) := by
  induction a with
  | nil => rfl
  | tree label body next _ ih => simp only [append, map, ih]
  | mark label next ih => simp only [append, map, ih]

theorem OutlineItem.written_renamed (rename : NodeId → NodeId) (item : OutlineItem) :
    (item.renamed rename).writeHead = item.writeHead ∧
      (item.renamed rename).writeBlockText = item.writeBlockText ∧
      (item.renamed rename).writeEnd? = item.writeEnd? := by
  cases item with
  | undeclared key => exact ⟨rfl, rfl, rfl⟩
  | node slot n =>
    obtain ⟨id, lineStart, lineEnd, element⟩ := n
    cases element <;> exact ⟨rfl, rfl, rfl⟩

namespace Outline

def renamed (rename : NodeId → NodeId) (outline : Outline) : Outline :=
  outline.map (OutlineItem.renamed rename) (ElseClause.renamed rename)

theorem toText_renamed (rename : NodeId → NodeId) (outline : Outline) :
    (outline.renamed rename).toText = outline.toText := by
  have lines (depth : Nat) : (outline.renamed rename).lines depth = outline.lines depth := by
    induction outline generalizing depth with
    | nil => rfl
    | tree item body next ihb ihn =>
      obtain ⟨head, text, last⟩ := item.written_renamed rename
      have inside := ihb (depth + 1)
      have behind := ihn depth
      rw [renamed] at inside behind ⊢
      rw [Forest.map, Outline.lines, head, text, last, inside, behind, Outline.lines]
    | mark clause next ih =>
      have behind := ih depth
      rw [renamed] at behind ⊢
      rw [Forest.map, Outline.lines, behind, Outline.lines]
      rfl
  rw [toText, lines, toText]

end Outline

namespace Document
variable {rename : NodeId → NodeId} (document : Document)

section
variable {body? body'? : OutlineItem → Option Outline}
  (each : ∀ item, body'? (item.renamed rename) = (body? item).map (Outline.renamed rename))
include each

theorem outlineRow?_renamed (items : List OutlineItem) :
    outlineRow? body'? (items.map (OutlineItem.renamed rename)) =
      (outlineRow? body? items).map (Outline.renamed rename) := by
  induction items with
  | nil => rfl
  | cons item items ih =>
    simp only [List.map_cons, outlineRow?, each, ih]
    cases body? item with
    | none => rfl
    | some body => cases outlineRow? body? items <;> rfl

variable (inj : Function.Injective rename)
include inj

theorem outlineSection?_renamed (ids : List NodeId) :
    (document.renamed rename).outlineSection? body'? (ids.map rename) =
      (document.outlineSection? body? ids).map (Outline.renamed rename) := by
  rw [outlineSection?, sectionEntries_renamed document inj, outlineSection?,
    ← outlineRow?_renamed each, List.map_map, List.map_map]
  rfl

theorem outlineClauses?_renamed (clauses : List ElseClause) :
    (document.renamed rename).outlineClauses? body'? (clauses.map (ElseClause.renamed rename)) =
      (document.outlineClauses? body? clauses).map (Outline.renamed rename) := by
  induction clauses with
  | nil => rfl
  | cons clause clauses ih =>
    have entries := outlineSection?_renamed document each inj clause.entries
    simp only [List.map_cons, outlineClauses?, ElseClause.renamed] at ih ⊢
    simp only [entries, ih]
    cases document.outlineSection? body? clause.entries with
    | none => rfl
    | some main =>
      cases document.outlineClauses? body? clauses with
      | none => rfl
      | some next => simp [Outline.renamed, Forest.map, Forest.map_append, ElseClause.renamed]

end

theorem outlineBody?_renamed (inj : Function.Injective rename) (depth : Nat) (item : OutlineItem) :
    (document.renamed rename).outlineBody? depth (item.renamed rename) =
      (document.outlineBody? depth item).map (Outline.renamed rename) := by
  induction depth generalizing item with
  | zero =>
    cases item with
    | undeclared key => rfl
    | node slot n =>
      obtain ⟨id, lineStart, lineEnd, element⟩ := n
      cases element <;> rfl
  | succ depth ih =>
    cases item with
    | undeclared key => rfl
    | node slot n =>
      obtain ⟨id, lineStart, lineEnd, element⟩ := n
      cases element with
      | fragment f =>
        have main := outlineSection?_renamed document ih inj f.entries
        have clauses := outlineClauses?_renamed document ih inj f.elseClauses
        simp only [OutlineItem.renamed, Node.renamed, Element.renamed, Fragment.renamed,
          outlineBody?, main, clauses]
        cases document.outlineSection? (document.outlineBody? depth) f.entries with
        | none => rfl
        | some entries =>
          cases document.outlineClauses? (document.outlineBody? depth) f.elseClauses with
          | none => rfl
          | some others => exact congrArg some (Forest.map_append _ _ _ _).symm
      | group g =>
        have row := outlineRow?_renamed ih (document.orderedMembers g)
        rw [← orderedMembers_renamed document inj] at row
        exact row
      | _ => rfl

theorem outline?_renamed (inj : Function.Injective rename) :
    (document.renamed rename).outline? = document.outline?.map (Outline.renamed rename) := by
  have top : ((document.renamed rename).nodes.zipIdx.filter fun entry =>
        (document.renamed rename).isTopLevel entry.1).map
        (fun entry => OutlineItem.node entry.2 entry.1) =
      ((document.nodes.zipIdx.filter fun entry => document.isTopLevel entry.1).map
        fun entry => OutlineItem.node entry.2 entry.1).map (OutlineItem.renamed rename) := by
    simp only [renamed, List.zipIdx_map, List.filter_map, List.map_map]
    refine congrArg _ (List.filter_congr fun entry _ => ?_)
    exact isTopLevel_renamed document inj entry.1
  rw [outline?, top, outline?, ← outlineRow?_renamed (outlineBody?_renamed document inj _)]
  simp [renamed]

theorem write?_renamed (inj : Function.Injective rename) :
    (document.renamed rename).write? = document.write? := by
  rw [write?, outline?_renamed document inj, Option.map_map, write?]
  exact congrArg (fun toText => document.outline?.map toText)
    (funext fun outline => outline.toText_renamed rename)

section
variable {tree? tree'? : Element → Option (Option (MeaningHead × Meaning))}
  (each : ∀ element, tree'? (element.renamed rename) = tree? element)
include each

theorem meaningRow?_renamed (nodes : List Node) :
    meaningRow? tree'? (nodes.map (Node.renamed rename)) = meaningRow? tree? nodes := by
  induction nodes with
  | nil => rfl
  | cons node nodes ih =>
    have first : tree'? (node.renamed rename).element = tree? node.element := each node.element
    rw [List.map_cons, meaningRow?, first, ih, meaningRow?]

variable (inj : Function.Injective rename)
include inj

omit each in
theorem filterMap_get?_renamed (ids : List NodeId) :
    (ids.map rename).filterMap (document.renamed rename).get? =
      (ids.filterMap document.get?).map (Node.renamed rename) := by
  rw [List.filterMap_map, List.map_filterMap]
  exact List.filterMap_congr fun id _ => get?_renamed document inj id

theorem meaningSection?_renamed (ids : List NodeId) :
    (document.renamed rename).meaningSection? tree'? (ids.map rename) =
      document.meaningSection? tree? ids := by
  rw [meaningSection?, filterMap_get?_renamed document inj, List.filter_map, meaningSection?,
    ← meaningRow?_renamed each]
  refine congrArg _ (congrArg _ (List.filter_congr fun node _ => ?_))
  rw [Function.comp_apply, isGroupMember_renamed]

theorem meaningClauses?_renamed (clauses : List ElseClause) :
    (document.renamed rename).meaningClauses? tree'? (clauses.map (ElseClause.renamed rename)) =
      document.meaningClauses? tree? clauses := by
  induction clauses with
  | nil => rfl
  | cons clause clauses ih =>
    have entries := meaningSection?_renamed document each inj clause.entries
    rw [List.map_cons, meaningClauses?, ih, ElseClause.renamed, entries, meaningClauses?]

end

theorem meaningTree?_renamed (inj : Function.Injective rename) (depth : Nat) (element : Element) :
    (document.renamed rename).meaningTree? depth (element.renamed rename) =
      document.meaningTree? depth element := by
  induction depth generalizing element with
  | zero => cases element <;> rfl
  | succ depth ih =>
    cases element with
    | fragment f =>
      have main := meaningSection?_renamed document ih inj f.entries
      have clauses := meaningClauses?_renamed document ih inj f.elseClauses
      have header : (f.renamed rename).header = f.header := f.header_renamed
      rw [Element.renamed, meaningTree?, meaningTree?, header, Fragment.renamed, main, clauses]
    | group g =>
      have nested := meaningRow?_renamed ih (g.nestedGroups.filterMap document.get?)
      rw [← filterMap_get?_renamed document inj] at nested
      have members : g.participants.map (document.renamed rename).groupMember =
          g.participants.map document.groupMember :=
        List.map_congr_left fun key _ => by
          rw [groupMember, participant?_renamed, groupMember]
      rw [Element.renamed, meaningTree?, meaningTree?, ParticipantGroup.renamed, nested, members]
      rfl
    | _ => rfl

/-- The meaning is the same under other identifiers. -/
theorem meaning?_renamed (inj : Function.Injective rename) :
    (document.renamed rename).meaning? = document.meaning? := by
  have count : (document.renamed rename).nodes.length = document.nodes.length := by simp [renamed]
  rw [meaning?, topLevel_renamed document inj, count,
    meaningRow?_renamed (meaningTree?_renamed document inj _), meaning?]

end Document

end SequenceDiagram
