import Mathlib.Data.List.Forall2
import SequenceDiagram.Proofs.Accounting
import SequenceDiagram.Proofs.Cuts
import SequenceDiagram.Proofs.Sequel
import SequenceDiagram.Proofs.WellOwned

set_option autoImplicit false

/-!
# Mending what was left open

The reports name the lines that a text lacks. With these lines behind it the text is read to the
same nodes without the reports: closing a block that is reported and closing it by its line differ
in nothing but the last line and the report.
-/
namespace SequenceDiagram

def ElseClause.without (ids : List NodeId) (clause : ElseClause) : ElseClause :=
  { clause with entries := clause.entries.filter fun id => id ∉ ids }

namespace Fragment

def withEntries (extra : List NodeId) (fragment : Fragment) : Fragment :=
  extra.foldl addEntry fragment

def without (ids : List NodeId) (fragment : Fragment) : Fragment :=
  { fragment with
    entries := fragment.entries.filter fun id => id ∉ ids
    elseClauses := fragment.elseClauses.map (ElseClause.without ids) }

theorem withEntries_append (extra : List NodeId) (id : NodeId) (fragment : Fragment) :
    fragment.withEntries (extra ++ [id]) = (fragment.withEntries extra).addEntry id := by
  rw [withEntries, List.foldl_append]
  rfl

theorem without_addEntry {ids : List NodeId} {id : NodeId} (h : id ∈ ids) (fragment : Fragment) :
    (fragment.addEntry id).without ids = fragment.without ids := by
  have last (clauses : List ElseClause) :
      (ElseClause.addEntry id clauses).map (ElseClause.without ids) =
        clauses.map (ElseClause.without ids) := by
    induction clauses with
    | nil => rfl
    | cons clause clauses ih =>
      cases clauses with
      | nil => simp [ElseClause.addEntry, ElseClause.without, h]
      | cons clause' clauses => exact congrArg (List.cons _) ih
  unfold addEntry
  split
  · simp [without, h]
  · simp only [without, last]

theorem without_withEntries {ids extra : List NodeId} (h : ∀ id ∈ extra, id ∈ ids)
    (fragment : Fragment) : (fragment.withEntries extra).without ids = fragment.without ids := by
  induction extra generalizing fragment with
  | nil => rfl
  | cons id extra ih =>
    refine (ih (fun other mem => h other (List.mem_cons_of_mem _ mem)) _).trans ?_
    exact without_addEntry (h id List.mem_cons_self) fragment

theorem without_eq_self {ids : List NodeId} {fragment : Fragment}
    (h : ∀ id ∈ fragment.allEntries, id ∉ ids) : fragment.without ids = fragment := by
  have kept {entries : List NodeId} (part : entries ⊆ fragment.allEntries) :
      entries.filter (fun id => id ∉ ids) = entries :=
    List.filter_eq_self.2 fun id mem => by simpa using h id (part mem)
  have clauses : fragment.elseClauses.map (ElseClause.without ids) = fragment.elseClauses := by
    refine (List.map_congr_left fun clause mem => ?_).trans (List.map_id _)
    rw [ElseClause.without,
      kept fun id inside => List.mem_append_right _ (List.mem_flatMap.2 ⟨clause, mem, inside⟩)]
    rfl
  rw [without, clauses, kept (List.subset_append_left _ _)]

end Fragment

namespace Element

def withEntries (extra : List NodeId) : Element → Element
  | .fragment f => .fragment (f.withEntries extra)
  | element => element

def without (ids : List NodeId) : Element → Element
  | .fragment f => .fragment (f.without ids)
  | element => element

theorem isReport_withEntries (extra : List NodeId) (element : Element) :
    (element.withEntries extra).isReport = element.isReport := by
  cases element <;> rfl

theorem without_withEntries {ids extra : List NodeId} {element : Element}
    (added : ∀ id ∈ extra, id ∈ ids) (h : ∀ id ∈ element.children, id ∉ ids) :
    (element.withEntries extra).without ids = element := by
  cases element with
  | fragment f =>
    exact congrArg Element.fragment
      ((Fragment.without_withEntries added f).trans (Fragment.without_eq_self h))
  | _ => rfl

end Element

def Node.report? (node : Node) : Option Element :=
  match node.element with
  | .fragment f => some (SyntaxFault.unterminatedBlock f.type.keyword node.lineStart)
  | .group _ => some (SyntaxFault.unterminatedBlock ParticipantGroup.keyword node.lineStart)
  | .note n => some (SyntaxFault.unterminatedNote n.kind node.lineStart)
  | .participant _ | .message _ | .divider _ | .comment _ | .blankLine | .directive _
  | .error _ => none

def BlockBody.withEntries (extra : List NodeId) : BlockBody → BlockBody
  | .fragment f => .fragment (f.withEntries extra)
  | .group g => .group g

/-- A node, and what becomes of it when the blocks that `due` reports are closed by lines: it
loses the entries among `ids`, and only what is reported ends on another line. -/
structure Node.Mends (due : List Element) (ids : List NodeId) (unclosed closed : Node) : Prop where
  id : closed.id = unclosed.id
  lineStart : closed.lineStart = unclosed.lineStart
  lineEnd : closed.lineEnd = unclosed.lineEnd ∨ ∃ report ∈ due, unclosed.report? = some report
  element : ∃ extra, (∀ id ∈ extra, id ∈ ids) ∧
    unclosed.element = closed.element.withEntries extra

structure OpenBlock.Mends (ids : List NodeId) (unclosed closed : OpenBlock) : Prop where
  slot : closed.slot = unclosed.slot
  line : closed.line = unclosed.line
  body : ∃ extra, (∀ id ∈ extra, id ∈ ids) ∧ unclosed.body = closed.body.withEntries extra

/-- Two states that have closed the same blocks, the first by reports that stand at its end. -/
structure Assembly.Mends (due : List Element) (reports : List Node) (unclosed closed : Assembly) :
    Prop where
  first : closed.first = unclosed.first
  free : unclosed.note = none ∧ closed.note = none
  reported : ∀ report ∈ reports, report.element.isReport = true
  nodes : ∃ kept, unclosed.nodes.toList = kept ++ reports ∧
    List.Forall₂ (Node.Mends due (reports.map Node.id)) kept closed.nodes.toList
  blocks : List.Forall₂ (OpenBlock.Mends (reports.map Node.id)) unclosed.blocks closed.blocks
  slots : ∀ block ∈ closed.blocks, block.slot < closed.nodes.size

namespace Node

theorem Mends.refl (due : List Element) (node : Node) : node.Mends due [] node where
  id := rfl
  lineStart := rfl
  lineEnd := Or.inl rfl
  element := ⟨[], by simp, by cases node.element <;> rfl⟩

theorem Mends.mono {due : List Element} {ids ids' : List NodeId} {unclosed closed : Node}
    (h : unclosed.Mends due ids closed) (part : ids ⊆ ids') : unclosed.Mends due ids' closed where
  id := h.id
  lineStart := h.lineStart
  lineEnd := h.lineEnd
  element :=
    have ⟨extra, added, same⟩ := h.element
    ⟨extra, fun id mem => part (added id mem), same⟩

end Node

theorem Node.Mends.isReport {due : List Element} {ids : List NodeId} {unclosed closed : Node}
    (h : unclosed.Mends due ids closed) :
    unclosed.element.isReport = closed.element.isReport := by
  obtain ⟨extra, -, same⟩ := h.element
  rw [same, Element.isReport_withEntries]

namespace OpenBlock

theorem Mends.refl (block : OpenBlock) : block.Mends [] block where
  slot := rfl
  line := rfl
  body := ⟨[], by simp, by cases block.body <;> rfl⟩

theorem Mends.mono {ids ids' : List NodeId} {unclosed closed : OpenBlock}
    (h : unclosed.Mends ids closed) (part : ids ⊆ ids') : unclosed.Mends ids' closed where
  slot := h.slot
  line := h.line
  body :=
    have ⟨extra, added, same⟩ := h.body
    ⟨extra, fun id mem => part (added id mem), same⟩

def node (first : UInt32) (lineEnd : Nat) (block : OpenBlock) : Node :=
  ⟨NodeId.offset first block.slot, block.line, lineEnd, block.body.element⟩

theorem report?_node (first : UInt32) (lineEnd : Nat) (block : OpenBlock) :
    (block.node first lineEnd).report? = some block.report := by
  obtain ⟨slot, line, body⟩ := block
  cases body <;> rfl

theorem Mends.node {due : List Element} {ids : List NodeId} {unclosed closed : OpenBlock}
    (h : unclosed.Mends ids closed) (reported : unclosed.report ∈ due) (first : UInt32)
    (last last' : Nat) : (unclosed.node first last).Mends due ids (closed.node first last') where
  id := by rw [OpenBlock.node, OpenBlock.node, h.slot]
  lineStart := h.line
  lineEnd := Or.inr ⟨_, reported, report?_node first last unclosed⟩
  element := by
    obtain ⟨extra, added, same⟩ := h.body
    refine ⟨extra, added, ?_⟩
    rw [OpenBlock.node, same]
    cases body : closed.body <;> simp [OpenBlock.node, body] <;> rfl

theorem Mends.attach {ids : List NodeId} {id : NodeId} (mem : id ∈ ids)
    {unclosed closed : List OpenBlock} (h : List.Forall₂ (Mends ids) unclosed closed) :
    List.Forall₂ (Mends ids) (attach id unclosed) closed := by
  induction h with
  | nil => exact .nil
  | @cons block block' blocks blocks' head tail ih =>
    obtain ⟨slot, line, body⟩ := block
    obtain ⟨extra, added, same⟩ := head.body
    cases body with
    | group g => exact .cons head ih
    | fragment f =>
      refine .cons ⟨head.slot, head.line, extra ++ [id], ?_, ?_⟩ tail
      · intro other among
        rcases List.mem_append.1 among with among | among
        · exact added other among
        · rwa [List.mem_singleton.1 among]
      · cases body : block'.body with
        | group g =>
          rw [body] at same
          contradiction
        | fragment f' =>
          rw [body] at same
          obtain rfl := BlockBody.fragment.inj same
          rw [BlockBody.withEntries, Fragment.withEntries_append]

theorem report_attach (id : NodeId) (blocks : List OpenBlock) :
    (OpenBlock.attach id blocks).map report = blocks.map report := by
  induction blocks with
  | nil => rfl
  | cons block blocks ih =>
    obtain ⟨slot, line, body⟩ := block
    cases body with
    | group g => exact congrArg (List.cons _) ih
    | fragment f =>
      have kept := congrArg Fragment.type (Grove.bare_addEntry f id)
      exact congrArg (fun type : FragmentType =>
        SyntaxFault.unterminatedBlock type.keyword line :: blocks.map report) kept

end OpenBlock

namespace Assembly

section
variable {due : List Element} {reports : List Node} {unclosed closed : Assembly}

theorem Mends.report (h : Mends due reports unclosed closed) (last : Nat) {element : Element}
    (report : element.isReport = true) :
    Mends due (reports ++ [⟨unclosed.nextId, last, last, element⟩])
      (unclosed.emitEntry last last element) closed := by
  let added : Node := ⟨unclosed.nextId, last, last, element⟩
  have part : reports.map Node.id ⊆ (reports ++ [added]).map Node.id := by
    rw [List.map_append]
    exact List.subset_append_left _ _
  obtain ⟨kept, split, mended⟩ := h.nodes
  refine ⟨h.first, h.free, ?_, ⟨kept, ?_, mended.imp fun _ _ mends => mends.mono part⟩, ?_, h.slots⟩
  · intro other mem
    rcases List.mem_append.1 mem with mem | mem
    · exact h.reported other mem
    · rwa [List.mem_singleton.1 mem]
  · simp [emitEntry, emit, split]
  · exact OpenBlock.Mends.attach (by simp) (h.blocks.imp fun _ _ mends => mends.mono part)

theorem forall₂_set {α β : Type} {R : α → β → Prop} {as : List α} {bs : List β}
    (h : List.Forall₂ R as bs) (i : Nat) {a : α} {b : β} (new : R a b) :
    List.Forall₂ R (as.set i a) (bs.set i b) := by
  induction h generalizing i with
  | nil => exact .nil
  | cons head tail ih =>
    cases i with
    | zero => exact .cons new tail
    | succ i => exact .cons head (ih i)

/-- The innermost block ends on different lines, and one of the ends is reported. -/
theorem Mends.closeBlock (h : Mends due reports unclosed closed) (last last' : Nat)
    (reported : ∀ block ∈ unclosed.blocks.head?, block.report ∈ due) :
    Mends due reports (unclosed.closeBlock last) (closed.closeBlock last') := by
  obtain ⟨first, nodes, blocks, note⟩ := unclosed
  obtain ⟨first', nodes', blocks', note'⟩ := closed
  obtain ⟨rfl, free, old, ⟨kept, split, mended⟩, same, slots⟩ := h
  cases same with
  | nil => exact ⟨rfl, free, old, ⟨kept, split, mended⟩, .nil, slots⟩
  | @cons block block' blocks blocks' head tail =>
    have bound : block'.slot < kept.length := by
      rw [mended.length_eq]
      exact slots block' List.mem_cons_self
    have node := head.node (reported block rfl) first' last last'
    refine ⟨rfl, free, old, ⟨kept.set block'.slot (block.node first' last), ?_, ?_⟩, tail, ?_⟩
    · have split' : nodes.toList = kept ++ reports := split
      simp only [Assembly.closeBlock, Array.toList_setIfInBounds, split', ← head.slot]
      rw [List.set_append_left _ _ bound, OpenBlock.node, head.slot]
    · simp only [Assembly.closeBlock, Array.toList_setIfInBounds]
      exact forall₂_set mended _ node
    · intro other mem
      simpa [Assembly.closeBlock] using slots other (List.mem_cons_of_mem _ mem)

end

def terminators (assembly : Assembly) : List (List Char) :=
  assembly.note.toList.map (fun note => note.head.kind.terminator) ++
    assembly.blocks.map fun _ => "end".toList

theorem step_end {assembly : Assembly} (free : assembly.note = none) (number : Nat)
    (inside : assembly.blocks ≠ []) :
    assembly.step number "end".toList = assembly.closeBlock number := by
  obtain ⟨first, nodes, blocks, note⟩ := assembly
  obtain rfl : note = none := free
  cases blocks with
  | nil => contradiction
  | cons block blocks =>
    obtain ⟨slot, line, body⟩ := block
    cases body <;> rfl

section
variable {due : List Element} {reports : List Node} {unclosed closed : Assembly}

theorem Mends.abandonBlock (h : Mends due reports unclosed closed) (inside : unclosed.blocks ≠ [])
    (reported : ∀ block ∈ unclosed.blocks, block.report ∈ due) (last number : Nat) :
    ∃ reports', Mends due reports' (unclosed.abandonBlock last)
        (closed.step number "end".toList) ∧
      (unclosed.abandonBlock last).blocks.map OpenBlock.report =
        unclosed.blocks.tail.map OpenBlock.report := by
  cases blocks : unclosed.blocks with
  | nil => contradiction
  | cons block outer =>
    have inside' : closed.blocks ≠ [] := by
      intro none
      have same := h.blocks.length_eq
      simp [none, blocks] at same
    have ended := h.closeBlock last number fun block mem => reported block (by
      rw [blocks] at mem ⊢
      exact List.mem_of_mem_head? mem)
    have report := ended.report last (show block.report.isReport = true from rfl)
    rw [step_end h.free.2 number inside']
    rw [Assembly.abandonBlock, blocks]
    refine ⟨_, report, ?_⟩
    refine (OpenBlock.report_attach _ _).trans ?_
    rw [Assembly.closeBlock, blocks]
    rfl

theorem Mends.abandonBlocks {count : Nat} (h : Mends due reports unclosed closed)
    (all : unclosed.blocks.length = count)
    (reported : ∀ block ∈ unclosed.blocks, block.report ∈ due) (last number : Nat) :
    ∃ reports', Mends due reports' (Assembly.abandonBlocks last count unclosed)
        (closed.run ((List.replicate count "end".toList).zipIdx number)) ∧
      (closed.run ((List.replicate count "end".toList).zipIdx number)).blocks = [] := by
  induction count generalizing reports unclosed closed number with
  | zero =>
    have none := h.blocks.length_eq
    rw [all] at none
    exact ⟨reports, h, List.length_eq_zero_iff.1 none.symm⟩
  | succ count ih =>
    have inside : unclosed.blocks ≠ [] := by
      intro none
      simp [none] at all
    obtain ⟨reports', step, due'⟩ := h.abandonBlock inside reported last number
    have fewer : (unclosed.abandonBlock last).blocks.length = count := by
      have length := congrArg List.length due'
      simpa [all] using length
    refine ih step fewer (fun block mem => ?_) (number + 1)
    have among : block.report ∈ unclosed.blocks.tail.map OpenBlock.report :=
      due' ▸ List.mem_map_of_mem mem
    obtain ⟨block', mem', same⟩ := List.mem_map.1 among
    exact same ▸ reported block' (List.mem_of_mem_tail mem')

end

theorem Mends.start {due : List Element} {assembly : Assembly} (free : assembly.note = none)
    (slots : ∀ block ∈ assembly.blocks, block.slot < assembly.nodes.size) :
    Mends due [] assembly assembly where
  first := rfl
  free := ⟨free, free⟩
  reported := by simp
  nodes := ⟨assembly.nodes.toList, by simp, List.forall₂_same.2 fun node _ => .refl due node⟩
  blocks := List.forall₂_same.2 fun block _ => .refl block
  slots := slots

theorem Mends.closeNote {due : List Element} {assembly : Assembly} {note : OpenNote}
    (reported : note.report ∈ due) (last last' : Nat)
    (slots : ∀ block ∈ (assembly.closeNote note last').blocks,
      block.slot < (assembly.closeNote note last').nodes.size) :
    Mends due [] (assembly.closeNote note last) (assembly.closeNote note last') where
  first := rfl
  free := ⟨rfl, rfl⟩
  reported := by simp
  nodes := by
    refine ⟨(assembly.closeNote note last).nodes.toList, by simp, ?_⟩
    have noted : Node.Mends due [] ⟨assembly.nextId, note.line, last, note.complete⟩
        ⟨assembly.nextId, note.line, last', note.complete⟩ :=
      ⟨rfl, rfl, Or.inr ⟨note.report, reported, rfl⟩, [], by simp, rfl⟩
    have before : List.Forall₂ (Node.Mends due []) assembly.nodes.toList assembly.nodes.toList :=
      List.forall₂_same.2 fun node _ => .refl due node
    simpa [Assembly.closeNote, emitEntry, emit, nextId, OpenNote.complete] using
      List.rel_append before (.cons noted .nil)
  blocks := List.forall₂_same.2 fun block _ => .refl block
  slots := slots

end Assembly

namespace Growth

section
variable (first : UInt32) {growth : Growth} {last : Nat}

theorem mends_abandonNote (h : growth.IsSound last) {note : OpenNote}
    (inside : growth.note = some note) (number : Nat) :
    let state := growth.assembly first
    (∃ reports, Assembly.Mends state.dueReports reports (state.abandonNote last)
      (state.step number note.head.kind.terminator)) ∧
    (state.abandonNote last).blocks.map OpenBlock.report = state.blocks.map OpenBlock.report := by
  intro state
  have kept : state.note = some note := inside
  let freed : Growth := { growth with note := none }
  let noted := state.closeNote note number
  have step : state.step number note.head.kind.terminator = noted := by
    rw [Assembly.step, kept]
    exact if_pos rfl
  have entered : noted = (freed.push (.leaf ⟨note.complete, note.line, number⟩)).assembly first :=
    emitEntry_assembly first freed note.line number note.complete fun group =>
      absurd ((h.proper.note (by simp [inside])).symm.trans group) Bool.false_ne_true
  have slots : ∀ block ∈ noted.blocks, block.slot < noted.nodes.size := by
    rw [entered]
    exact fun block mem => slot_lt_size first mem
  have due : note.report ∈ state.dueReports :=
    List.mem_append_left _ (List.mem_map_of_mem (by simp [kept]))
  have ended := Assembly.Mends.closeNote due last number slots
  have reported := ended.report last (show note.report.isReport = true from rfl)
  have settled : state.abandonNote last =
      (state.closeNote note last).emitEntry last last note.report := by
    rw [Assembly.abandonNote, kept]
    rfl
  rw [settled, step]
  exact ⟨⟨_, reported⟩, (OpenBlock.report_attach _ _).trans (OpenBlock.report_attach _ _)⟩

/-- With the missing lines behind it a text comes to the same nodes without the reports. -/
theorem mends_finish (h : growth.IsSound last) (number : Nat) :
    let state := growth.assembly first
    let closed := state.run (state.terminators.zipIdx number)
    ∃ reports, Assembly.Mends state.dueReports reports (state.finish last) closed ∧
      closed.blocks = [] := by
  intro state closed
  have ends (count : Nat) (h : state.blocks.length = count) :
      (state.blocks.map fun _ => "end".toList) = List.replicate count "end".toList := by
    rw [List.map_const', h]
  cases inside : growth.note with
  | none =>
    have free : state.note = none := inside
    have settled : state.abandonNote last = state := by rw [Assembly.abandonNote, free]
    have lines : state.terminators = List.replicate state.blocks.length "end".toList := by
      rw [Assembly.terminators, free, ends _ rfl]
      rfl
    have started : Assembly.Mends state.dueReports [] state state :=
      .start free fun block mem => slot_lt_size first mem
    simp only [closed, lines, Assembly.finish, settled]
    refine started.abandonBlocks rfl (fun block mem => ?_) last number
    exact List.mem_append_right _ (List.mem_map_of_mem mem)
  | some note =>
    have kept : state.note = some note := inside
    obtain ⟨⟨reports, noted⟩, blocks⟩ := mends_abandonNote first h inside number
    have length : (state.abandonNote last).blocks.length = state.blocks.length := by
      simpa using congrArg List.length blocks
    have run : closed = (state.step number note.head.kind.terminator).run
        ((List.replicate state.blocks.length "end".toList).zipIdx (number + 1)) := by
      simp only [closed, Assembly.terminators, kept, ends _ rfl]
      rfl
    rw [run, Assembly.finish, length]
    refine noted.abandonBlocks length (fun block mem => ?_) last (number + 1)
    exact List.mem_append_right _ (blocks ▸ List.mem_map_of_mem mem)

end

end Growth

/-- The line that a report says is missing, which it names between two backticks. -/
def SyntaxFault.missing? (fault : SyntaxFault) : Option (List Char) :=
  (Text.split '\x60' fault.message.toList)[1]?

def Element.missing? : Element → Option (List Char)
  | .error fault => fault.missing?
  | _ => none

theorem SyntaxFault.missing?_unterminated {message : String} {front name : List Char}
    (spelled : message.toList = front ++ '\x60' :: (name ++ ['\x60'])) (before : '\x60' ∉ front)
    (inside : '\x60' ∉ name) : (SyntaxFault.unterminated message).missing? = some name := by
  rw [SyntaxFault.unterminated, Element.missing?, SyntaxFault.missing?, spelled,
    Text.split_append before, Text.split_append inside]
  rfl

theorem Text.not_mem_toString (n : Nat) : '\x60' ∉ (toString n).toList := by
  rw [show (toString n).toList = Text.writeNat n from Nat.toList_repr]
  exact fun mem => absurd (isDigit_of_mem_writeNat mem) (by decide)

theorem OpenBlock.missing?_report (block : OpenBlock) :
    block.report.missing? = some "end".toList := by
  have keyword : '\x60' ∉ block.body.keyword.toList := by
    cases block.body with
    | fragment f =>
      rw [BlockBody.keyword]
      cases f.type <;> decide
    | group g =>
      rw [BlockBody.keyword]
      decide
  refine @SyntaxFault.missing?_unterminated _ ("unterminated " ++ block.body.keyword ++
    " block opened on line " ++ toString block.line ++ ": missing ").toList _ ?_ ?_ (by decide)
  · simp only [String.toList_append, List.append_assoc]
    rfl
  · simp only [String.toList_append, List.mem_append, not_or]
    exact ⟨⟨⟨⟨by decide, keyword⟩, by decide⟩, Text.not_mem_toString block.line⟩, by decide⟩

theorem OpenNote.missing?_report (note : OpenNote) :
    note.report.missing? = some note.head.kind.terminator := by
  refine @SyntaxFault.missing?_unterminated _ ("unterminated note opened on line " ++
    toString note.line ++ ": missing ").toList _ ?_ ?_ (by cases note.head.kind <;> decide)
  · simp only [String.toList_append, String.toList_ofList, List.append_assoc]
    rfl
  · simp only [String.toList_append, List.mem_append, not_or]
    exact ⟨⟨by decide, Text.not_mem_toString note.line⟩, by decide⟩

/-- Every due report names the line that would have closed what it reports. -/
theorem Assembly.missing?_dueReports (assembly : Assembly) :
    assembly.dueReports.filterMap Element.missing? = assembly.terminators := by
  have notes : (assembly.note.toList.map OpenNote.report).filterMap Element.missing? =
      assembly.note.toList.map fun note => note.head.kind.terminator := by
    rw [List.filterMap_map, ← List.filterMap_eq_map]
    exact List.filterMap_congr fun note _ => note.missing?_report
  have blocks : (assembly.blocks.map OpenBlock.report).filterMap Element.missing? =
      assembly.blocks.map fun _ => "end".toList := by
    rw [List.filterMap_map, ← List.filterMap_eq_map]
    exact List.filterMap_congr fun block _ => block.missing?_report
  rw [dueReports, List.filterMap_append, notes, blocks, terminators]

namespace Text

def withLines (text : List Char) (added : List (List Char)) : List Char :=
  (if text = [] ∨ text.getLast? = some '\n' then text else text ++ ['\n']) ++
    added.flatMap fun line => line ++ ['\n']

theorem lines_ended {text : List Char} (some : text ≠ []) (open' : text.getLast? ≠ .some '\n') :
    lines (text ++ ['\n']) = lines text := by
  induction text with
  | nil => contradiction
  | cons c text ih =>
    cases text with
    | nil =>
      have other : c ≠ '\n' := fun same => open' (by rw [same]; rfl)
      simp [lines, other]
    | cons d text =>
      rw [List.getLast?_cons_cons] at open'
      rw [List.cons_append, lines, ih (List.cons_ne_nil _ _) open']
      rfl

theorem lines_withLines (text : List Char) {added : List (List Char)}
    (h : ∀ line ∈ added, '\n' ∉ line) : lines (withLines text added) = lines text ++ added := by
  rw [withLines]
  split
  · rename_i closed
    rw [lines_append_lines closed, lines_flatMap h]
  · rename_i open'
    rw [not_or] at open'
    rw [lines_append_lines (Or.inr List.getLast?_concat), lines_flatMap h,
      lines_ended open'.1 open'.2]

end Text

namespace Document

def missingTerminators (document : Document) : List (List Char) :=
  document.reports.filterMap fun node => node.element.missing?

/-- The document without its reports, and without them in every section. -/
def withoutReports (document : Document) : Document where
  nodes := (document.nodes.filter fun node => !node.element.isReport).map fun node =>
    { node with element := node.element.without (document.reports.map Node.id) }

section
variable (first : UInt32) (text : String)

theorem missingTerminators_readFrom :
    (readFrom first text).missingTerminators = (stateAtEnd first text).terminators := by
  rw [← Assembly.missing?_dueReports, ← reports_readFrom, List.filterMap_map]
  rfl

theorem isTidy_of_mem_terminators {assembly : Assembly} :
    ∀ line ∈ assembly.terminators, Text.IsTidy line := by
  intro line mem
  rcases List.mem_append.1 mem with mem | mem
  · obtain ⟨note, -, rfl⟩ := List.mem_map.1 mem
    exact Growth.isTidy_terminator note.head.kind
  · obtain ⟨block, -, rfl⟩ := List.mem_map.1 mem
    exact Growth.isTidy_end

def completed : String :=
  String.ofList (Text.withLines text.toList (readFrom first text).missingTerminators)

/-- Reading the completed text is reading the text, and then the missing lines. -/
theorem stateAtEnd_completed :
    stateAtEnd first (completed first text) =
      (stateAtEnd first text).run ((stateAtEnd first text).terminators.zipIdx
        ((Text.lines text.toList).length + 1)) := by
  have tidy := @isTidy_of_mem_terminators (stateAtEnd first text)
  have lines := Text.lines_withLines text.toList fun line mem => (tidy line mem).single
  have trimmed : (stateAtEnd first text).terminators.map Text.trim =
      (stateAtEnd first text).terminators :=
    (List.map_congr_left fun line mem => (tidy line mem).trim_eq).trans (List.map_id _)
  have numbered : Text.numberedLines (completed first text).toList =
      Text.numberedLines text.toList ++ (stateAtEnd first text).terminators.zipIdx
        ((Text.lines text.toList).length + 1) := by
    rw [completed, String.toList_ofList, missingTerminators_readFrom, Text.numberedLines, lines,
      List.map_append, trimmed, List.zipIdx_append, List.length_map, Nat.add_comm 1]
    rfl
  rw [stateAtEnd, numbered, Assembly.run, List.foldl_append]
  rfl

theorem exists_mended :
    ∃ reports, Assembly.Mends ((readFrom first text).reports.map Node.element) reports
      ((stateAtEnd first text).finish (Text.lines text.toList).length)
      (stateAtEnd first (completed first text)) ∧
      (stateAtEnd first (completed first text)).blocks = [] := by
  obtain ⟨growth, sound, run⟩ :=
    Growth.sound_run first Growth.isSound_start (@Text.isTidy_of_mem_lines text.toList)
  rw [List.length_map, Nat.zero_add] at sound
  have state : stateAtEnd first text = growth.assembly first := run
  rw [stateAtEnd_completed, reports_readFrom, state]
  exact Growth.mends_finish first sound _

theorem exists_slot_of_child {node : Node} (mem : node ∈ (readFrom first text).nodes) {id : NodeId}
    (child : id ∈ node.element.children) :
    ∃ i < (readFrom first text).nodes.length, id = NodeId.offset first i := by
  obtain ⟨grove, proper, spans, -, planted⟩ := readFrom_eq_plant first text
  obtain ⟨i, found⟩ := List.mem_iff_getElem?.1 mem
  rw [planted] at found ⊢
  have placed : (node, i) ∈ Grove.numbered first 0 grove := by
    rwa [Grove.numbered, List.mk_mem_zipIdx_iff_getElem?]
  obtain ⟨slots, children, ascends, -⟩ :=
    Grove.children_of_mem_numbered first proper spans placed
  rw [children] at child
  obtain ⟨j, hj, rfl⟩ := List.mem_map.1 child
  refine ⟨j, ?_, rfl⟩
  rw [Grove.length_plant]
  have bounds := ascends.bounds j hj
  omega

theorem map_eq_of_forall₂ {α β γ : Type} {R : α → β → Prop} {f : α → γ} {g : β → γ} {as : List α}
    {bs : List β} (h : List.Forall₂ R as bs) (same : ∀ a b, b ∈ bs → R a b → f a = g b) :
    as.map f = bs.map g := by
  induction h with
  | nil => rfl
  | @cons a b as bs head tail ih =>
    rw [List.map_cons, List.map_cons, same a b List.mem_cons_self head,
      ih fun a b mem => same a b (List.mem_cons_of_mem _ mem)]

/-- The reports stand at the end of the document, and the completed text is read to the nodes
before them. -/
theorem exists_kept :
    let document := readFrom first text
    let closed := readFrom first (completed first text)
    closed.reports = [] ∧ ∃ kept, document.nodes = kept ++ document.reports ∧
      (document.nodes.filter fun node => !node.element.isReport) = kept ∧
      List.Forall₂ (Node.Mends (document.reports.map Node.element) (document.reports.map Node.id))
        kept closed.nodes := by
  intro document closed
  obtain ⟨reports, mends, none⟩ := exists_mended first text
  have due : (stateAtEnd first (completed first text)).dueReports = [] := by
    rw [Assembly.dueReports, none, mends.free.2]
    rfl
  have unreported : closed.reports = [] := by
    rw [← List.map_eq_nil_iff, reports_readFrom, due]
  obtain ⟨kept, split, mended⟩ := mends.nodes
  rw [← nodes_readFrom_of_settled due] at mended
  have nodes : document.nodes = kept ++ reports := by
    rw [← split]
    simp only [document, readFrom, Text.numberedLines, List.length_zipIdx, List.length_map]
    rfl
  have plain : ∀ node ∈ kept, node.element.isReport = false := by
    have same := map_eq_of_forall₂ mended fun _ node _ mends => mends.isReport
    intro node mem
    have among : node.element.isReport ∈ closed.nodes.map fun node => node.element.isReport :=
      same ▸ List.mem_map_of_mem mem
    obtain ⟨node', mem', report⟩ := List.mem_map.1 among
    rw [← report]
    simpa using List.filter_eq_nil_iff.1 unreported node' mem'
  have reported := mends.reported
  have own : document.reports = reports := by
    rw [Document.reports, nodes, List.filter_append,
      List.filter_eq_nil_iff.2 fun node mem => by simp [plain node mem],
      List.filter_eq_self.2 reported, List.nil_append]
  have others : (document.nodes.filter fun node => !node.element.isReport) = kept := by
    rw [nodes, List.filter_append, List.filter_eq_self.2 fun node mem => by simp [plain node mem],
      List.filter_eq_nil_iff.2 fun node mem => by simp [reported node mem], List.append_nil]
  refine ⟨unreported, kept, own.symm ▸ nodes, others, ?_⟩
  rwa [own] at mended ⊢

end

/-- With the lines that its reports name behind it a text is read without a report, and to the
same nodes without the reports: they keep identifiers and first lines, and only what was reported
ends on another line. -/
theorem mends_missingTerminators (first : UInt32) (text : String) :
    (readFrom first text).missingTerminators = (stateAtEnd first text).terminators ∧
    let document := readFrom first text
    let closed := readFrom first (completed first text)
    closed.reports = [] ∧
      List.Forall₂ (Node.Mends (document.reports.map Node.element) (document.reports.map Node.id))
        (document.nodes.filter fun node => !node.element.isReport) closed.nodes ∧
      (document.nodes.length ≤ 2 ^ 32 →
        closed.nodes.map Node.element = document.withoutReports.nodes.map Node.element) := by
  refine ⟨missingTerminators_readFrom first text, ?_⟩
  intro document closed
  obtain ⟨unreported, kept, nodes, others, mended⟩ := exists_kept first text
  refine ⟨unreported, others.symm ▸ mended, fun fits => ?_⟩
  have count := mended.length_eq
  have foreign : ∀ node ∈ closed.nodes, ∀ id ∈ node.element.children,
      id ∉ document.reports.map Node.id := by
    intro node mem id child among
    obtain ⟨i, hi, rfl⟩ := exists_slot_of_child first (completed first text) mem child
    obtain ⟨report, mem', same⟩ := List.mem_map.1 among
    obtain ⟨j, found⟩ := List.mem_iff_getElem?.1 mem'
    have placed : document.nodes[kept.length + j]? = some report := by
      rw [nodes, List.getElem?_append_right (Nat.le_add_right _ _), Nat.add_sub_cancel_left, found]
    have bound := (List.getElem?_eq_some_iff.1 placed).1
    rw [id_of_getElem?_readFrom first text placed] at same
    have index := NodeId.offset_inj (Nat.lt_of_lt_of_le bound fits)
      (by rw [NodeId.count]; omega) same
    omega
  rw [withoutReports, others, List.map_map]
  refine (map_eq_of_forall₂ mended fun node node' mem mends => ?_).symm
  obtain ⟨extra, added, same⟩ := mends.element
  rw [Function.comp_apply, same]
  exact Element.without_withEntries added (foreign node' mem)

/-- A note and the fragment around it, both left open. -/
theorem mends_missingTerminators_of_open_note :
    let document := readFrom 0 "alt\nnote over A\ntext"
    let closed := readFrom 0 "alt\nnote over A\ntext\nend note\nend\n"
    document.reports.length = 2 ∧ document.nodes.length ≤ 2 ^ 32 ∧ closed.reports = [] ∧
      closed.nodes.map Node.element = document.withoutReports.nodes.map Node.element := by
  intro document closed
  have text : completed 0 "alt\nnote over A\ntext" = "alt\nnote over A\ntext\nend note\nend\n" := by
    decide +kernel
  have two : document.reports.length = 2 := by decide +kernel
  have fits : document.nodes.length ≤ 2 ^ 32 := by decide +kernel
  obtain ⟨-, settled, -, elements⟩ := mends_missingTerminators 0 "alt\nnote over A\ntext"
  rw [text] at settled elements
  exact ⟨two, fits, settled, elements fits⟩

end Document

end SequenceDiagram
