import SequenceDiagram.Proofs.Ink
import SequenceDiagram.Proofs.Numerals
import SequenceDiagram.Proofs.Record

set_option autoImplicit false

/-!
# Reading on behind a closed text

An assembly without open blocks and notes is read on as a fresh one would be: slots are counted
on from its nodes and lines from its lines, and nothing else tells the two apart.
-/
namespace SequenceDiagram

namespace Text

/-- A text in which every number is greater by `amount`; `pending` is the number that the digits
before the text make. -/
def raiseNumbers (amount : Nat) : Option Nat → List Char → List Char
  | none, [] => []
  | some n, [] => writeNat (n + amount)
  | none, c :: text =>
    if c.isDigit then raiseNumbers amount (some (c.toNat - '0'.toNat)) text
    else c :: raiseNumbers amount none text
  | some n, c :: text =>
    if c.isDigit then raiseNumbers amount (some (10 * n + (c.toNat - '0'.toNat))) text
    else writeNat (n + amount) ++ c :: raiseNumbers amount none text

theorem raiseNumbers_append (amount : Nat) {text : List Char}
    (h : ∀ c ∈ text, c.isDigit = false) (rest : List Char) :
    raiseNumbers amount none (text ++ rest) = text ++ raiseNumbers amount none rest := by
  induction text with
  | nil => rfl
  | cons c text ih =>
    have other := h c List.mem_cons_self
    rw [List.cons_append, raiseNumbers, if_neg (by simp [other]),
      ih fun d mem => h d (List.mem_cons_of_mem _ mem), List.cons_append]

theorem raiseNumbers_eq_self (amount : Nat) {text : List Char}
    (h : ∀ c ∈ text, c.isDigit = false) : raiseNumbers amount none text = text := by
  simpa [raiseNumbers] using raiseNumbers_append amount h []

theorem raiseNumbers_digits (amount n : Nat) {digits : List Char}
    (h : ∀ c ∈ digits, c.isDigit = true) (rest : List Char) :
    raiseNumbers amount (some n) (digits ++ rest) =
      raiseNumbers amount (some (Nat.ofDigitChars 10 digits n)) rest := by
  induction digits generalizing n with
  | nil => rfl
  | cons c digits ih =>
    rw [List.cons_append, raiseNumbers, if_pos (h c List.mem_cons_self),
      ih _ fun d mem => h d (List.mem_cons_of_mem _ mem), Nat.ofDigitChars_cons]

theorem raiseNumbers_writeNat (amount n : Nat) {front back : List Char} {c : Char}
    (before : ∀ d ∈ front, d.isDigit = false) (behind : ∀ d ∈ c :: back, d.isDigit = false) :
    raiseNumbers amount none (front ++ (writeNat n ++ c :: back)) =
      front ++ (writeNat (n + amount) ++ c :: back) := by
  obtain ⟨d, digits, parts⟩ := List.exists_cons_of_ne_nil (writeNat_ne_nil n)
  have digit : ∀ e ∈ d :: digits, e.isDigit = true := fun e mem =>
    isDigit_of_mem_writeNat (parts ▸ mem)
  have value : Nat.ofDigitChars 10 digits (d.toNat - '0'.toNat) = n := by
    have whole := Nat.ofDigitChars_toDigits (b := 10) (n := n) (by decide) (by decide)
    rw [← writeNat, parts, Nat.ofDigitChars_cons] at whole
    simpa using whole
  rw [raiseNumbers_append amount before, parts, List.cons_append, raiseNumbers,
    if_pos (digit d List.mem_cons_self),
    raiseNumbers_digits amount _ fun e mem => digit e (List.mem_cons_of_mem _ mem), value,
    raiseNumbers, if_neg (by simp [behind c List.mem_cons_self]),
    raiseNumbers_eq_self amount fun e mem => behind e (List.mem_cons_of_mem _ mem)]

end Text

/-- The fault with the line that its message names counted on. -/
def SyntaxFault.moveDown (count : Nat) (fault : SyntaxFault) : SyntaxFault :=
  { fault with message := String.ofList (Text.raiseNumbers count none fault.message.toList) }

def Element.moveDown (count : Nat) : Element → Element
  | .error fault => .error (fault.moveDown count)
  | element => element

def Node.moveDown (count : Nat) (node : Node) : Node :=
  ⟨node.id, node.lineStart + count, node.lineEnd + count, node.element.moveDown count⟩

def OpenBlock.moveDown (slots count : Nat) (block : OpenBlock) : OpenBlock :=
  ⟨block.slot + slots, block.line + count, block.body⟩

def OpenNote.moveDown (count : Nat) (note : OpenNote) : OpenNote :=
  { note with line := note.line + count }

theorem BlockBody.moveDown_element (count : Nat) (body : BlockBody) :
    body.element.moveDown count = body.element := by
  cases body <;> rfl

theorem LineFault.moveDown_element (count : Nat) (fault : LineFault) (line : List Char) :
    (fault.element line).moveDown count = fault.element line := by
  have plain : ∀ c ∈ fault.message.toList, c.isDigit = false := by cases fault <;> decide
  simp only [LineFault.element, Element.moveDown, SyntaxFault.moveDown,
    Text.raiseNumbers_eq_self count plain, String.ofList_toList]

/-- The one number in such a message is a line. -/
theorem SyntaxFault.moveDown_unterminated (count line : Nat) (front : List Char) (c : Char)
    (back : List Char) (before : ∀ d ∈ front, d.isDigit = false)
    (after : ∀ d ∈ c :: back, d.isDigit = false) {message moved : String}
    (spelled : message.toList = front ++ (Text.writeNat line ++ c :: back))
    (raised : moved.toList = front ++ (Text.writeNat (line + count) ++ c :: back)) :
    (SyntaxFault.unterminated message).moveDown count = SyntaxFault.unterminated moved := by
  simp only [SyntaxFault.unterminated, Element.moveDown, SyntaxFault.moveDown, spelled,
    Text.raiseNumbers_writeNat count line before after, ← raised, String.ofList_toList]

theorem SyntaxFault.moveDown_unterminatedBlock (count line : Nat) (body : BlockBody) :
    (SyntaxFault.unterminatedBlock body.keyword line).moveDown count =
      SyntaxFault.unterminatedBlock body.keyword (line + count) := by
  have keyword : ∀ c ∈ body.keyword.toList, c.isDigit = false := by
    cases body with
    | fragment f =>
      rw [BlockBody.keyword]
      cases f.type <;> decide
    | group g =>
      rw [BlockBody.keyword]
      decide
  have lead : ∀ c ∈ "unterminated ".toList, c.isDigit = false := by decide
  have link : ∀ c ∈ " block opened on line ".toList, c.isDigit = false := by decide
  have spelled (n : Nat) : ("unterminated " ++ body.keyword ++ " block opened on line " ++
      toString n ++ ": missing `end`").toList =
      ("unterminated ".toList ++ body.keyword.toList ++ " block opened on line ".toList) ++
        (Text.writeNat n ++ ':' :: " missing `end`".toList) := by
    simp only [String.toList_append, List.append_assoc, Text.writeNat, ← Nat.toList_repr]
    rfl
  refine moveDown_unterminated count line _ _ _ (fun d mem => ?_) (by decide) (spelled _)
    (spelled _)
  rw [List.mem_append, List.mem_append] at mem
  rcases mem with (mem | mem) | mem
  · exact lead d mem
  · exact keyword d mem
  · exact link d mem

theorem SyntaxFault.moveDown_unterminatedNote (count line : Nat) (kind : NoteKind) :
    (SyntaxFault.unterminatedNote kind line).moveDown count =
      SyntaxFault.unterminatedNote kind (line + count) := by
  have spelled (n : Nat) : ("unterminated note opened on line " ++ toString n ++ ": missing `" ++
      String.ofList kind.terminator ++ "`").toList =
      "unterminated note opened on line ".toList ++
        (Text.writeNat n ++ ':' :: (" missing `".toList ++ kind.terminator ++ "`".toList)) := by
    simp only [String.toList_append, String.toList_ofList, List.append_assoc, Text.writeNat,
      ← Nat.toList_repr]
    rfl
  refine moveDown_unterminated count line _ _ _ (by decide) ?_ (spelled _) (spelled _)
  cases kind <;> decide

theorem NodeId.offset_offset (first : UInt32) (i j : Nat) :
    NodeId.offset (NodeId.offset first i).number j = NodeId.offset first (i + j) := by
  simp [NodeId.offset, UInt32.ofNat_add, UInt32.add_assoc]

theorem OpenBlock.attach_moveDown (slots count : Nat) (id : NodeId) (blocks : List OpenBlock) :
    attach id (blocks.map (moveDown slots count)) =
      (attach id blocks).map (moveDown slots count) := by
  induction blocks with
  | nil => rfl
  | cons block blocks ih =>
    obtain ⟨slot, line, body⟩ := block
    cases body with
    | fragment f => rfl
    | group g => exact congrArg (List.cons _) ih

theorem OpenBlock.attachBlock_moveDown (slots count : Nat) (id : NodeId) (body : BlockBody)
    (blocks : List OpenBlock) :
    attachBlock id body (blocks.map (moveDown slots count)) =
      (attachBlock id body blocks).map (moveDown slots count) := by
  have attached := attach_moveDown slots count id blocks
  cases blocks with
  | nil => rfl
  | cons block blocks =>
    obtain ⟨slot, line, around⟩ := block
    cases around with
    | fragment f => exact attached
    | group g =>
      cases body with
      | fragment f => exact attached
      | group g' => rfl

theorem Assembly.addMember_moveDown (slots count : Nat) (key : String) (blocks : List OpenBlock) :
    addMember key (blocks.map (OpenBlock.moveDown slots count)) =
      (addMember key blocks).map (OpenBlock.moveDown slots count) := by
  cases blocks with
  | nil => rfl
  | cons block blocks =>
    obtain ⟨slot, line, body⟩ := block
    cases body <;> rfl

namespace Assembly

/-- The assembly that has read a closed text, here `ahead`, and then what `alone` has read. -/
def behind (ahead : Assembly) (count : Nat) (alone : Assembly) : Assembly where
  first := ahead.first
  nodes := ahead.nodes ++ alone.nodes.map (Node.moveDown count)
  blocks := alone.blocks.map (OpenBlock.moveDown ahead.nodes.size count)
  note := alone.note.map (OpenNote.moveDown count)

def Continues (ahead alone : Assembly) : Prop :=
  alone.first = (NodeId.offset ahead.first ahead.nodes.size).number

section
variable {ahead alone : Assembly} (count : Nat)

theorem nextId_behind (h : ahead.Continues alone) :
    (ahead.behind count alone).nextId = alone.nextId := by
  rw [nextId, nextId, h, NodeId.offset_offset, behind, Array.size_append, Array.size_map]

theorem emit_behind (h : ahead.Continues alone) (lineStart lineEnd : Nat) {element moved : Element}
    (same : element.moveDown count = moved) :
    (ahead.behind count alone).emit (lineStart + count) (lineEnd + count) moved =
      ahead.behind count (alone.emit lineStart lineEnd element) := by
  have id := nextId_behind count h
  simp only [emit, id, ← same]
  simp [behind, Node.moveDown]

theorem emitEntry_behind (h : ahead.Continues alone) (lineStart lineEnd : Nat)
    {element moved : Element} (same : element.moveDown count = moved) :
    (ahead.behind count alone).emitEntry (lineStart + count) (lineEnd + count) moved =
      ahead.behind count (alone.emitEntry lineStart lineEnd element) := by
  rw [emitEntry, emit_behind count h lineStart lineEnd same, nextId_behind count h]
  simp only [behind, emitEntry, OpenBlock.attach_moveDown]

theorem openBlock_behind (h : ahead.Continues alone) (line : Nat) (body : BlockBody) :
    (ahead.behind count alone).openBlock (line + count) body =
      ahead.behind count (alone.openBlock line body) := by
  rw [openBlock, emit_behind count h line line (body.moveDown_element count),
    nextId_behind count h]
  simp only [behind, openBlock, OpenBlock.attachBlock_moveDown, List.map_cons, OpenBlock.moveDown,
    Array.size_append, Array.size_map, Nat.add_comm]

theorem closeBlock_behind (h : ahead.Continues alone) (lineEnd : Nat) :
    (ahead.behind count alone).closeBlock (lineEnd + count) =
      ahead.behind count (alone.closeBlock lineEnd) := by
  obtain ⟨first, nodes, blocks, note⟩ := alone
  cases blocks with
  | nil => rfl
  | cons block blocks =>
    obtain rfl : first = _ := h
    have id : NodeId.offset ahead.first (block.slot + ahead.nodes.size) =
        NodeId.offset (NodeId.offset ahead.first ahead.nodes.size).number block.slot := by
      rw [NodeId.offset_offset, Nat.add_comm]
    simp only [closeBlock, behind, List.map_cons, OpenBlock.moveDown, id]
    congr 1
    apply Array.ext'
    simp [Node.moveDown, BlockBody.moveDown_element]

theorem fault_behind (h : ahead.Continues alone) (number : Nat) (fault : LineFault)
    (line : List Char) :
    (ahead.behind count alone).emitEntry (number + count) (number + count) (fault.element line) =
      ahead.behind count (alone.emitEntry number number (fault.element line)) :=
  emitEntry_behind count h number number (fault.moveDown_element count line)

theorem elseLine_behind (h : ahead.Continues alone) (number : Nat) (line : List Char) :
    (ahead.behind count alone).elseLine (number + count) line =
      ahead.behind count (alone.elseLine number line) := by
  have stray := fault_behind count h number .strayElse line
  have malformed := fault_behind count h number .malformedElse line
  obtain ⟨first, nodes, blocks, note⟩ := alone
  cases blocks with
  | nil => exact stray
  | cons block blocks =>
    obtain ⟨slot, opened, body⟩ := block
    cases body with
    | group g => exact stray
    | fragment f =>
      cases read : ElseClause.readHead? line with
      | none => simpa [elseLine, behind, OpenBlock.moveDown, read] using malformed
      | some clause => simp [elseLine, behind, OpenBlock.moveDown, read]

theorem endLine_behind (h : ahead.Continues alone) (number : Nat) (line : List Char) :
    (ahead.behind count alone).endLine (number + count) line =
      ahead.behind count (alone.endLine number line) := by
  have stray := emit_behind count h number number (LineFault.strayEnd.moveDown_element count line)
  have closed := closeBlock_behind count h number
  obtain ⟨first, nodes, blocks, note⟩ := alone
  cases blocks with
  | nil => exact stray
  | cons block blocks => exact closed

theorem entryLine_behind (h : ahead.Continues alone) (number : Nat) (line : List Char) :
    (ahead.behind count alone).entryLine (number + count) line =
      ahead.behind count (alone.entryLine number line) := by
  have entry {element : Element} (same : element.moveDown count = element) :=
    emitEntry_behind count h number number same
  unfold entryLine
  split
  · exact endLine_behind count h number line
  split
  · exact elseLine_behind count h number line
  split
  case h_5 n read =>
    split
    · rfl
    · exact entry rfl
  case h_6 => exact openBlock_behind count h number _
  case h_7 => exact openBlock_behind count h number _
  case h_10 => exact fault_behind count h number _ line
  all_goals exact entry rfl

theorem groupLine_behind (h : ahead.Continues alone) (number : Nat) (line : List Char) :
    (ahead.behind count alone).groupLine (number + count) line =
      ahead.behind count (alone.groupLine number line) := by
  have fault := fault_behind count h number .notForGroups line
  unfold groupLine
  split
  · exact closeBlock_behind count h number
  cases Line.read line with
  | blank => rfl
  | comment text => rfl
  | group g => exact openBlock_behind count h number _
  | participant p =>
    have emitted : (ahead.behind count alone).emit (number + count) (number + count)
        (.participant p) = ahead.behind count (alone.emit number number (.participant p)) :=
      emit_behind count h number number rfl
    simp only [emitted]
    simp only [behind, addMember_moveDown]
  | _ => exact fault

theorem closeNote_behind (h : ahead.Continues alone) (note : OpenNote) (lineEnd : Nat) :
    (ahead.behind count alone).closeNote (note.moveDown count) (lineEnd + count) =
      ahead.behind count (alone.closeNote note lineEnd) :=
  @emitEntry_behind ahead { alone with note := none } count h note.line lineEnd _ _ rfl

theorem noteLine_behind (h : ahead.Continues alone) (note : OpenNote) (number : Nat)
    (line : List Char) :
    (ahead.behind count alone).noteLine (note.moveDown count) (number + count) line =
      ahead.behind count (alone.noteLine note number line) := by
  have head : (note.moveDown count).head = note.head := rfl
  by_cases last : line = note.head.kind.terminator
  · rw [noteLine, noteLine, head, if_pos last, if_pos last]
    exact closeNote_behind count h note number
  · rw [noteLine, noteLine, head, if_neg last, if_neg last]
    rfl

theorem inGroup_behind : (ahead.behind count alone).inGroup = alone.inGroup := by
  obtain ⟨first, nodes, blocks, note⟩ := alone
  cases blocks with
  | nil => rfl
  | cons block blocks =>
    obtain ⟨slot, line, body⟩ := block
    cases body <;> rfl

/-- A line does the same behind a closed text as it does alone. -/
theorem step_behind (h : ahead.Continues alone) (number : Nat) (line : List Char) :
    (ahead.behind count alone).step (number + count) line =
      ahead.behind count (alone.step number line) := by
  unfold step
  cases inside : alone.note with
  | some note =>
    have moved : (ahead.behind count alone).note = some (note.moveDown count) := by
      simp [behind, inside]
    rw [moved]
    exact noteLine_behind count h note number line
  | none =>
    have free : (ahead.behind count alone).note = none := by simp [behind, inside]
    rw [free, inGroup_behind]
    simp only
    split
    · exact groupLine_behind count h number line
    · exact entryLine_behind count h number line

end

theorem first_closeBlock (assembly : Assembly) (lineEnd : Nat) :
    (assembly.closeBlock lineEnd).first = assembly.first := by
  obtain ⟨first, nodes, blocks, note⟩ := assembly
  cases blocks <;> rfl

theorem first_entryLine (assembly : Assembly) (number : Nat) (line : List Char) :
    (assembly.entryLine number line).first = assembly.first := by
  unfold entryLine
  split
  · unfold endLine
    split
    · rfl
    · exact first_closeBlock assembly number
  split
  · unfold elseLine
    split
    · split <;> rfl
    · rfl
  split
  case h_5 =>
    split <;> rfl
  all_goals rfl

theorem first_groupLine (assembly : Assembly) (number : Nat) (line : List Char) :
    (assembly.groupLine number line).first = assembly.first := by
  unfold groupLine
  split
  · exact first_closeBlock assembly number
  · split <;> rfl

theorem first_step (assembly : Assembly) (number : Nat) (line : List Char) :
    (assembly.step number line).first = assembly.first := by
  unfold step
  split
  · unfold noteLine
    split <;> rfl
  · split
    · exact first_groupLine assembly number line
    · exact first_entryLine assembly number line

theorem first_run (assembly : Assembly) (lines : List (List Char × Nat)) :
    (assembly.run lines).first = assembly.first := by
  induction lines generalizing assembly with
  | nil => rfl
  | cons line lines ih => exact (ih _).trans (first_step assembly line.2 line.1)

section
variable {ahead alone : Assembly} (count : Nat)

theorem run_behind (h : ahead.Continues alone) (number : Nat) (lines : List (List Char)) :
    (ahead.behind count alone).run (lines.zipIdx (number + count)) =
      ahead.behind count (alone.run (lines.zipIdx number)) := by
  induction lines generalizing alone number with
  | nil => rfl
  | cons line lines ih =>
    have next : ahead.Continues (alone.step number line) := (first_step alone number line).trans h
    have rest := ih next (number + 1)
    rw [Nat.add_right_comm] at rest
    rw [List.zipIdx_cons, List.zipIdx_cons, run, run, List.foldl_cons, List.foldl_cons,
      step_behind count h number line]
    exact rest

theorem abandonNote_behind (h : ahead.Continues alone) (last : Nat) :
    (ahead.behind count alone).abandonNote (last + count) =
      ahead.behind count (alone.abandonNote last) := by
  unfold abandonNote
  cases inside : alone.note with
  | none =>
    have free : (ahead.behind count alone).note = none := by simp [behind, inside]
    rw [free]
  | some note =>
    have moved : (ahead.behind count alone).note = some (note.moveDown count) := by
      simp [behind, inside]
    have closed : ahead.Continues (alone.closeNote note last) := h
    rw [moved]
    simp only
    rw [closeNote_behind count h note last]
    exact emitEntry_behind count closed last last
      (SyntaxFault.moveDown_unterminatedNote count note.line note.head.kind)

theorem abandonBlock_behind (h : ahead.Continues alone) (last : Nat) :
    (ahead.behind count alone).abandonBlock (last + count) =
      ahead.behind count (alone.abandonBlock last) := by
  have closed : ahead.Continues (alone.closeBlock last) := (first_closeBlock alone last).trans h
  have close := closeBlock_behind count h last
  have report := fun body line => emitEntry_behind count closed last last
    (SyntaxFault.moveDown_unterminatedBlock count line body)
  obtain ⟨first, nodes, blocks, note⟩ := alone
  cases blocks with
  | nil => rfl
  | cons block blocks =>
    have reported := report block.body block.line
    rw [← close] at reported
    exact reported

theorem abandonBlocks_behind (h : ahead.Continues alone) (last blocks : Nat) :
    abandonBlocks (last + count) blocks (ahead.behind count alone) =
      ahead.behind count (abandonBlocks last blocks alone) := by
  induction blocks generalizing alone with
  | zero => rfl
  | succ blocks ih =>
    have next : ahead.Continues (alone.abandonBlock last) := by
      have closed := first_closeBlock alone last
      obtain ⟨first, nodes, blocks, note⟩ := alone
      cases blocks with
      | nil => exact h
      | cons block blocks => exact closed.trans h
    rw [abandonBlocks, abandonBlock_behind count h last, ih next, abandonBlocks]

theorem finish_behind (h : ahead.Continues alone) (last : Nat) :
    (ahead.behind count alone).finish (last + count) = ahead.behind count (alone.finish last) := by
  have settled : ahead.Continues (alone.abandonNote last) := by
    unfold abandonNote
    split <;> exact h
  have length : (ahead.behind count (alone.abandonNote last)).blocks.length =
      (alone.abandonNote last).blocks.length := List.length_map _
  simp only [finish]
  rw [abandonNote_behind count h last, length, abandonBlocks_behind count settled]

end

theorem finish_eq_self {assembly : Assembly} (h : assembly.dueReports = []) (last : Nat) :
    assembly.finish last = assembly := by
  obtain ⟨first, nodes, blocks, note⟩ := assembly
  rw [dueReports, List.append_eq_nil_iff, List.map_eq_nil_iff, List.map_eq_nil_iff] at h
  obtain ⟨free, rfl⟩ := h
  obtain rfl : note = none := by simpa using free
  rfl

theorem behind_fresh {ahead : Assembly} (h : ahead.dueReports = []) (count : Nat) (first : UInt32) :
    ahead.behind count { first } = ahead := by
  obtain ⟨first', nodes, blocks, note⟩ := ahead
  rw [dueReports, List.append_eq_nil_iff, List.map_eq_nil_iff, List.map_eq_nil_iff] at h
  obtain ⟨free, rfl⟩ := h
  obtain rfl : note = none := by simpa using free
  simp [behind]

end Assembly

namespace Text

theorem lines_eq_nil_iff {text : List Char} : lines text = [] ↔ text = [] := by
  cases text with
  | nil => simp [lines]
  | cons c text =>
    rw [lines]
    split
    · simp
    · cases lines text <;> simp

/-- Behind a line feed the lines of a text begin anew. -/
theorem lines_append_lines {ahead : List Char}
    (closed : ahead = [] ∨ ahead.getLast? = some '\n') (rest : List Char) :
    lines (ahead ++ rest) = lines ahead ++ lines rest := by
  induction ahead with
  | nil => rfl
  | cons c ahead ih =>
    have last : (c :: ahead).getLast? = some '\n' := closed.resolve_left (List.cons_ne_nil _ _)
    have shorter : ahead = [] ∨ ahead.getLast? = some '\n' := by
      cases ahead with
      | nil => exact Or.inl rfl
      | cons d ahead => exact Or.inr (by simpa [List.getLast?_cons_cons] using last)
    rw [List.cons_append, lines, lines, ih shorter]
    split
    · rfl
    · rename_i other
      cases parts : lines ahead with
      | cons line more => rfl
      | nil =>
        obtain rfl := lines_eq_nil_iff.1 parts
        exact absurd (by simpa using last) other

end Text

namespace Document

theorem nodes_readFrom_of_settled {first : UInt32} {text : String}
    (due : (stateAtEnd first text).dueReports = []) :
    (readFrom first text).nodes = (stateAtEnd first text).nodes.toList :=
  congrArg (fun assembly : Assembly => assembly.nodes.toList) (Assembly.finish_eq_self due _)

/-- Reading a text behind a closed one gives the nodes of both: the first as they are, the second
numbered on from them, with its lines counted on. -/
theorem nodes_readFrom_append (first : UInt32) {ahead : String}
    (closed : ahead.toList = [] ∨ ahead.toList.getLast? = some '\n')
    (settled : (readFrom first ahead).reports = []) (rest : String) :
    (readFrom first (ahead ++ rest)).nodes =
      (readFrom first ahead).nodes ++
        (readFrom (NodeId.offset first (readFrom first ahead).nodes.length).number rest).nodes.map
          (Node.moveDown (Text.lines ahead.toList).length) := by
  have due : (stateAtEnd first ahead).dueReports = [] := by
    rw [← reports_readFrom, settled, List.map_nil]
  let count := (Text.lines ahead.toList).length
  let next := NodeId.offset first (stateAtEnd first ahead).nodes.size
  let fresh : Assembly := { first := next.number }
  have nodes := nodes_readFrom_of_settled due
  have continues : (stateAtEnd first ahead).Continues fresh := by
    rw [Assembly.Continues, stateAtEnd, Assembly.first_run]
    rfl
  have lines : Text.numberedLines (ahead ++ rest).toList = Text.numberedLines ahead.toList ++
      ((Text.lines rest.toList).map Text.trim).zipIdx (1 + count) := by
    simp [Text.numberedLines, Text.lines_append_lines closed, List.zipIdx_append, count]
  have whole : stateAtEnd first (ahead ++ rest) =
      (stateAtEnd first ahead).behind count (fresh.run (Text.numberedLines rest.toList)) := by
    have run := Assembly.run_behind count continues 1 ((Text.lines rest.toList).map Text.trim)
    rw [Assembly.behind_fresh due] at run
    rw [stateAtEnd, lines, Assembly.run, List.foldl_append]
    exact run
  have total : (Text.numberedLines (ahead ++ rest).toList).length =
      (Text.numberedLines rest.toList).length + count := by
    simp [Text.numberedLines, Text.lines_append_lines closed, count, Nat.add_comm]
  have reached : (stateAtEnd first ahead).Continues (fresh.run (Text.numberedLines rest.toList)) :=
    (Assembly.first_run fresh _).trans continues
  have finish := Assembly.finish_behind count reached (Text.numberedLines rest.toList).length
  rw [← whole, ← total] at finish
  have split : (readFrom first (ahead ++ rest)).nodes = _ :=
    congrArg (fun assembly : Assembly => assembly.nodes.toList) finish
  rw [split, nodes, Array.length_toList, Assembly.behind, Array.toList_append, Array.toList_map]
  rfl

/-- A fragment and a stray line, and behind them a loop and a note that are never closed. -/
theorem nodes_readFrom_append_of_open_loop :
    let ahead := "alt\nelse\nend\nA->\n"
    let rest := "loop\nnote over A\ntext"
    (ahead.toList = [] ∨ ahead.toList.getLast? = some '\n') ∧ (readFrom 0 ahead).reports = [] ∧
      (readFrom 0 (ahead ++ rest)).nodes =
        (readFrom 0 ahead).nodes ++
          (readFrom (NodeId.offset 0 (readFrom 0 ahead).nodes.length).number rest).nodes.map
            (Node.moveDown (Text.lines ahead.toList).length) := by
  intro ahead rest
  have closed : ahead.toList = [] ∨ ahead.toList.getLast? = some '\n' := by decide +kernel
  have settled : (readFrom 0 ahead).reports = [] := by decide +kernel
  exact ⟨closed, settled, nodes_readFrom_append 0 closed settled rest⟩

end Document

end SequenceDiagram
