import SequenceDiagram.Proofs.Renaming
import SequenceDiagram.Proofs.Soundness

set_option autoImplicit false

namespace SequenceDiagram

namespace NodeId

/-- The identifier that is so many words further on; after the last word comes zero. -/
def advance (amount : UInt32) (id : NodeId) : NodeId :=
  ⟨id.number + amount⟩

theorem advance_injective (amount : UInt32) : Function.Injective (advance amount) := by
  rintro ⟨a⟩ ⟨b⟩ same
  exact congrArg NodeId.mk ((UInt32.add_left_inj amount).1 (NodeId.mk.inj same))

theorem advance_offset (amount first : UInt32) (count : Nat) :
    (offset first count).advance amount = offset (first + amount) count := by
  simp only [offset, advance, UInt32.add_assoc, UInt32.add_comm amount]

end NodeId

section
variable (rename : NodeId → NodeId)

def BlockBody.renamed : BlockBody → BlockBody
  | .fragment f => .fragment (f.renamed rename)
  | .group g => .group (g.renamed rename)

def OpenBlock.renamed (block : OpenBlock) : OpenBlock :=
  { block with body := block.body.renamed rename }

theorem BlockBody.element_renamed (body : BlockBody) :
    (body.renamed rename).element = body.element.renamed rename := by
  cases body <;> rfl

theorem BlockBody.keyword_renamed (body : BlockBody) :
    (body.renamed rename).keyword = body.keyword := by
  cases body <;> rfl

theorem BlockBody.renamed_of_isHead {line : List Char} {body : BlockBody}
    (head : body.IsHead line) : body.renamed rename = body := by
  have bare := Growth.head_isBare head
  cases body with
  | fragment f =>
    obtain ⟨type, condition, style, entries, clauses, collapsed⟩ := f
    obtain ⟨rfl, rfl⟩ : entries = [] ∧ clauses = [] := bare
    rfl
  | group g =>
    obtain ⟨color, label, participants, nested⟩ := g
    obtain ⟨-, rfl⟩ : participants = [] ∧ nested = [] := bare
    rfl

theorem ElseClause.addEntry_renamed (id : NodeId) (clauses : List ElseClause) :
    addEntry (rename id) (clauses.map (renamed rename)) =
      (addEntry id clauses).map (renamed rename) := by
  induction clauses with
  | nil => rfl
  | cons clause clauses ih =>
    cases clauses with
    | nil => simp [addEntry, renamed]
    | cons next clauses => exact congrArg (List.cons _) ih

theorem Fragment.addEntry_renamed (id : NodeId) (f : Fragment) :
    (f.renamed rename).addEntry (rename id) = (f.addEntry id).renamed rename := by
  obtain ⟨type, condition, style, entries, clauses, collapsed⟩ := f
  cases clauses with
  | nil => simp [addEntry, renamed]
  | cons clause clauses =>
    have added := ElseClause.addEntry_renamed rename id (clause :: clauses)
    simp only [addEntry, renamed, List.map_cons] at added ⊢
    rw [added]

theorem OpenBlock.attach_renamed (id : NodeId) (blocks : List OpenBlock) :
    attach (rename id) (blocks.map (renamed rename)) = (attach id blocks).map (renamed rename) := by
  induction blocks with
  | nil => rfl
  | cons block blocks ih =>
    obtain ⟨slot, line, body⟩ := block
    cases body with
    | fragment f =>
      simp only [List.map_cons, renamed, BlockBody.renamed, attach, Fragment.addEntry_renamed]
    | group g => exact congrArg (List.cons _) ih

theorem OpenBlock.attachBlock_renamed (id : NodeId) (body : BlockBody) (blocks : List OpenBlock) :
    attachBlock (rename id) (body.renamed rename) (blocks.map (renamed rename)) =
      (attachBlock id body blocks).map (renamed rename) := by
  have attached := attach_renamed rename id blocks
  cases blocks with
  | nil => rfl
  | cons block blocks =>
    obtain ⟨slot, line, around⟩ := block
    cases around with
    | fragment f => exact attached
    | group g =>
      cases body with
      | fragment f => exact attached
      | group g' => simp [attachBlock, renamed, BlockBody.renamed, ParticipantGroup.renamed]

theorem Assembly.addMember_renamed (key : String) (blocks : List OpenBlock) :
    addMember key (blocks.map (OpenBlock.renamed rename)) =
      (addMember key blocks).map (OpenBlock.renamed rename) := by
  cases blocks with
  | nil => rfl
  | cons block blocks =>
    obtain ⟨slot, line, body⟩ := block
    cases body <;> rfl

end

namespace Assembly

def advanced (amount : UInt32) (assembly : Assembly) : Assembly where
  first := assembly.first + amount
  nodes := assembly.nodes.map (Node.renamed (NodeId.advance amount))
  blocks := assembly.blocks.map (OpenBlock.renamed (NodeId.advance amount))
  note := assembly.note

section
variable (amount : UInt32) (assembly : Assembly)

theorem nextId_advanced :
    (assembly.advanced amount).nextId = assembly.nextId.advance amount := by
  rw [nextId, nextId, NodeId.advance_offset, advanced, Array.size_map]

theorem emit_advanced (lineStart lineEnd : Nat) (element : Element) :
    (assembly.advanced amount).emit lineStart lineEnd (element.renamed (NodeId.advance amount)) =
      (assembly.emit lineStart lineEnd element).advanced amount := by
  simp only [emit, nextId_advanced]
  simp [advanced, Node.renamed]

theorem emitEntry_advanced (lineStart lineEnd : Nat) {element : Element}
    (leaf : element.renamed (NodeId.advance amount) = element) :
    (assembly.advanced amount).emitEntry lineStart lineEnd element =
      (assembly.emitEntry lineStart lineEnd element).advanced amount := by
  have emitted := emit_advanced amount assembly lineStart lineEnd element
  rw [leaf] at emitted
  simp only [emitEntry, emitted, nextId_advanced]
  simp only [advanced, OpenBlock.attach_renamed]

theorem openBlock_advanced (line : Nat) (body : BlockBody) :
    (assembly.advanced amount).openBlock line (body.renamed (NodeId.advance amount)) =
      (assembly.openBlock line body).advanced amount := by
  simp only [openBlock, BlockBody.element_renamed, emit_advanced, nextId_advanced]
  simp only [advanced, OpenBlock.attachBlock_renamed, List.map_cons, OpenBlock.renamed,
    Array.size_map]

theorem closeBlock_advanced (lineEnd : Nat) :
    (assembly.advanced amount).closeBlock lineEnd =
      (assembly.closeBlock lineEnd).advanced amount := by
  obtain ⟨first, nodes, blocks, note⟩ := assembly
  cases blocks with
  | nil => rfl
  | cons block blocks =>
    simp only [closeBlock, advanced, List.map_cons, OpenBlock.renamed, ← NodeId.advance_offset,
      BlockBody.element_renamed]
    congr 1
    apply Array.ext'
    simp [Node.renamed]

theorem fault_advanced (number : Nat) (fault : LineFault) (line : List Char) :
    (assembly.advanced amount).emitEntry number number (fault.element line) =
      (assembly.emitEntry number number (fault.element line)).advanced amount :=
  emitEntry_advanced amount assembly number number rfl

theorem elseLine_advanced (number : Nat) (line : List Char) :
    (assembly.advanced amount).elseLine number line =
      (assembly.elseLine number line).advanced amount := by
  have stray := fault_advanced amount assembly number .strayElse line
  have malformed := fault_advanced amount assembly number .malformedElse line
  obtain ⟨first, nodes, blocks, note⟩ := assembly
  cases blocks with
  | nil => exact stray
  | cons block blocks =>
    obtain ⟨slot, opened, body⟩ := block
    cases body with
    | group g => exact stray
    | fragment f =>
      cases read : ElseClause.readHead? line with
      | none =>
        simpa [elseLine, advanced, OpenBlock.renamed, BlockBody.renamed, read] using malformed
      | some clause =>
        obtain ⟨condition, style, entries⟩ := clause
        obtain rfl : entries = [] := Growth.entries_of_readClause read
        simp [elseLine, advanced, OpenBlock.renamed, BlockBody.renamed, read, Fragment.renamed,
          Fragment.addClause, ElseClause.renamed]

theorem endLine_advanced (number : Nat) (line : List Char) :
    (assembly.advanced amount).endLine number line =
      (assembly.endLine number line).advanced amount := by
  have stray := emit_advanced amount assembly number number (LineFault.strayEnd.element line)
  have closed := closeBlock_advanced amount assembly number
  obtain ⟨first, nodes, blocks, note⟩ := assembly
  cases blocks with
  | nil => exact stray
  | cons block blocks => exact closed

theorem openBlock_advanced_of_isHead (number : Nat) {line : List Char} {body : BlockBody}
    (head : body.IsHead line) :
    (assembly.advanced amount).openBlock number body =
      (assembly.openBlock number body).advanced amount := by
  have opened := openBlock_advanced amount assembly number body
  rwa [body.renamed_of_isHead _ head] at opened

theorem entryLine_advanced (number : Nat) (line : List Char) :
    (assembly.advanced amount).entryLine number line =
      (assembly.entryLine number line).advanced amount := by
  have entry {element : Element} (leaf : element.renamed (NodeId.advance amount) = element) :=
    emitEntry_advanced amount assembly number number leaf
  unfold entryLine
  split
  · exact endLine_advanced amount assembly number line
  split
  · exact elseLine_advanced amount assembly number line
  split
  case h_5 n read =>
    split
    · rfl
    · exact entry rfl
  case h_6 f read => exact openBlock_advanced_of_isHead amount assembly number (.fragment f read)
  case h_7 g read => exact openBlock_advanced_of_isHead amount assembly number (.group g read)
  all_goals exact entry rfl

theorem groupLine_advanced (number : Nat) (line : List Char) :
    (assembly.advanced amount).groupLine number line =
      (assembly.groupLine number line).advanced amount := by
  have fault := fault_advanced amount assembly number .notForGroups line
  unfold groupLine
  split
  · exact closeBlock_advanced amount assembly number
  cases read : Line.read line with
  | blank => rfl
  | comment text => rfl
  | group g => exact openBlock_advanced_of_isHead amount assembly number (.group g read)
  | participant p =>
    have emitted := emit_advanced amount assembly number number (.participant p)
    simp only [Element.renamed] at emitted
    simp only [emitted]
    simp only [advanced, addMember_renamed]
  | _ => exact fault

theorem closeNote_advanced (note : OpenNote) (lineEnd : Nat) :
    (assembly.advanced amount).closeNote note lineEnd =
      (assembly.closeNote note lineEnd).advanced amount :=
  emitEntry_advanced amount { assembly with note := none } note.line lineEnd rfl

theorem noteLine_advanced (note : OpenNote) (number : Nat) (line : List Char) :
    (assembly.advanced amount).noteLine note number line =
      (assembly.noteLine note number line).advanced amount := by
  unfold noteLine
  split
  · exact closeNote_advanced amount assembly note number
  · rfl

theorem inGroup_advanced : (assembly.advanced amount).inGroup = assembly.inGroup := by
  obtain ⟨first, nodes, blocks, note⟩ := assembly
  cases blocks with
  | nil => rfl
  | cons block blocks =>
    obtain ⟨slot, line, body⟩ := block
    cases body <;> rfl

/-- A line does the same whatever identifier is first. -/
theorem step_advanced (number : Nat) (line : List Char) :
    (assembly.advanced amount).step number line = (assembly.step number line).advanced amount := by
  have kept : (assembly.advanced amount).note = assembly.note := rfl
  rw [step, step, kept, inGroup_advanced]
  cases assembly.note with
  | some note => exact noteLine_advanced amount assembly note number line
  | none =>
    simp only
    split
    · exact groupLine_advanced amount assembly number line
    · exact entryLine_advanced amount assembly number line

theorem run_advanced (lines : List (List Char × Nat)) :
    (assembly.advanced amount).run lines = (assembly.run lines).advanced amount := by
  induction lines generalizing assembly with
  | nil => rfl
  | cons line lines ih =>
    rw [run, List.foldl_cons, step_advanced]
    exact ih (assembly.step line.2 line.1)

theorem abandonNote_advanced (last : Nat) :
    (assembly.advanced amount).abandonNote last = (assembly.abandonNote last).advanced amount := by
  have kept : (assembly.advanced amount).note = assembly.note := rfl
  rw [abandonNote, abandonNote, kept]
  cases assembly.note with
  | none => rfl
  | some note =>
    simp only [closeNote_advanced]
    exact emitEntry_advanced amount (assembly.closeNote note last) last last rfl

theorem abandonBlock_advanced (last : Nat) :
    (assembly.advanced amount).abandonBlock last =
      (assembly.abandonBlock last).advanced amount := by
  have close := closeBlock_advanced amount assembly last
  have report (body : BlockBody) (line : Nat) :
      ((assembly.closeBlock last).advanced amount).emitEntry last last
          (SyntaxFault.unterminatedBlock body.keyword line) = _ :=
    emitEntry_advanced amount (assembly.closeBlock last) last last rfl
  obtain ⟨first, nodes, blocks, note⟩ := assembly
  cases blocks with
  | nil => rfl
  | cons block blocks =>
    have reported := report block.body block.line
    rw [← close] at reported
    have keyword := block.body.keyword_renamed (NodeId.advance amount)
    simp only [abandonBlock, advanced, List.map_cons, OpenBlock.renamed, keyword]
    exact reported

theorem abandonBlocks_advanced (last count : Nat) :
    abandonBlocks last count (assembly.advanced amount) =
      (abandonBlocks last count assembly).advanced amount := by
  induction count generalizing assembly with
  | zero => rfl
  | succ count ih => rw [abandonBlocks, abandonBlock_advanced, ih, abandonBlocks]

theorem finish_advanced (last : Nat) :
    (assembly.advanced amount).finish last = (assembly.finish last).advanced amount := by
  have count : ((assembly.abandonNote last).advanced amount).blocks.length =
      (assembly.abandonNote last).blocks.length := List.length_map _
  rw [finish, abandonNote_advanced]
  simp only [count, abandonBlocks_advanced]
  rfl

end

end Assembly

namespace Document

/-- Reading with another first identifier gives the same document under other identifiers. -/
theorem readFrom_add (amount first : UInt32) (text : String) :
    readFrom (first + amount) text = (readFrom first text).renamed (NodeId.advance amount) := by
  have start : ({ first := first + amount } : Assembly) =
      ({ first } : Assembly).advanced amount := by simp [Assembly.advanced]
  rw [readFrom, readFrom, start, Assembly.run_advanced, Assembly.finish_advanced]
  simp [Assembly.advanced, renamed]

/-- Nothing depends on the first identifier. Reading a text from any one on, past the last word
and over zero as well, gives what reading it from zero on gives, with every identifier moved on
by as much; so the text that is written, the meaning, the verdict of the check and the errors
with their lines are the same. -/
theorem readFrom_eq_renamed (first : UInt32) (text : String) :
    readFrom first text = (read text).renamed (NodeId.advance first) ∧
    (readFrom first text).write? = (read text).write? ∧
    (readFrom first text).meaning? = (read text).meaning? ∧
    ((readFrom first text).validate = .ok () ↔ (read text).validate = .ok ()) ∧
    (readFrom first text).errors.map (fun node => (node.lineStart, node.lineEnd, node.element)) =
      (read text).errors.map fun node => (node.lineStart, node.lineEnd, node.element) := by
  have moved : readFrom first text = (read text).renamed (NodeId.advance first) := by
    rw [read, ← readFrom_add, UInt32.zero_add]
  have inj := NodeId.advance_injective first
  rw [moved]
  refine ⟨rfl, write?_renamed _ inj, meaning?_renamed _ inj, ?_, ?_⟩
  · rw [validate_renamed _ inj]
    cases (read text).validate with
    | ok _ => exact iff_of_true rfl rfl
    | error fault => exact iff_of_false nofun nofun
  · rw [errors_renamed, List.map_map]
    refine List.map_congr_left fun node mem => ?_
    have error : node.element.isError = true := (List.mem_filter.1 mem).2
    simp only [Function.comp_apply, Node.renamed, Element.renamed_of_isError error]

end Document

end SequenceDiagram
