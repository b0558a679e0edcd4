import SequenceDiagram.Proofs.Growth

set_option autoImplicit false

/-!
# What a line does to a growth

`Reads` lists everything that one line can do to the tree that has been read so far. Every step
of an assembly is one of these changes, so what holds of a document read from a text is proved
change by change.
-/
namespace SequenceDiagram

inductive Element.IsLine (line : List Char) : Element → Prop
  | blank : Line.read line = .blank → IsLine line .blankLine
  | comment (text : String) : Line.read line = .comment text → IsLine line (.comment text)
  | directive (d : Directive) : Line.read line = .directive d → IsLine line (.directive d)
  | divider (d : Divider) : Line.read line = .divider d → IsLine line (.divider d)
  | note (n : Note) : Line.read line = .note n → n.block = false → IsLine line (.note n)
  | participant (p : Participant) : Line.read line = .participant p → IsLine line (.participant p)
  | message (m : Message) : Line.read line = .message m → IsLine line (.message m)
  | fault (fault : LineFault) : line ≠ [] → IsLine line (fault.element line)

inductive BlockBody.IsHead (line : List Char) : BlockBody → Prop
  | fragment (f : Fragment) : Line.read line = .fragment f → IsHead line (.fragment f)
  | group (g : ParticipantGroup) : Line.read line = .group g → IsHead line (.group g)

namespace OpenNote

def complete (note : OpenNote) : Element :=
  .note { note.head with text := String.ofList (Text.join ['\n'] note.text.reverse) }

end OpenNote

namespace Growth

def inFragment (growth : Growth) : Bool :=
  match growth.levels with
  | [] => false
  | level :: _ => !level.body.isGroup

/-- The changes that the line with a given number can make. -/
inductive Reads (number : Nat) (line : List Char) (growth : Growth) : Growth → Prop
  | leaf (element : Element) (free : growth.note = none) (read : element.IsLine line)
      (place : growth.inGroup = true →
        element.isParticipant = true ∨ element.isError = true) :
      Reads number line growth (growth.push (.leaf ⟨element, number, number⟩))
  | openNote (n : Note) (free : growth.note = none) (outside : growth.inGroup = false)
      (read : Line.read line = .note n) (block : n.block = true) :
      Reads number line growth { growth with note := some ⟨number, n, []⟩ }
  | noteText (note : OpenNote) (inside : growth.note = some note)
      (more : line ≠ note.head.kind.terminator) :
      Reads number line growth
        { growth with note := some { note with text := line :: note.text } }
  | closeNote (note : OpenNote) (inside : growth.note = some note)
      (last : line = note.head.kind.terminator) :
      Reads number line growth
        ({ growth with note := none }.push (.leaf ⟨note.complete, note.line, number⟩))
  | openBlock (body : BlockBody) (free : growth.note = none) (read : body.IsHead line)
      (place : growth.inGroup = true → body.isGroup = true) :
      Reads number line growth (growth.openBlock number body)
  | clause (clause : ElseClause) (free : growth.note = none) (inside : growth.inFragment = true)
      (read : ElseClause.readHead? line = some clause) :
      Reads number line growth (growth.push (.mark clause .nil))
  | closeBlock (free : growth.note = none) (inside : growth.levels ≠ [])
      (last : line = "end".toList) :
      Reads number line growth (growth.closeBlock number)
  | skip (free : growth.note = none) (inside : growth.inGroup = true)
      (read : Line.read line = .blank ∨ ∃ text, Line.read line = .comment text) :
      Reads number line growth growth

section
variable (first : UInt32) (growth : Growth) (number : Nat) (line : List Char)

theorem inGroup_assembly : (growth.assembly first).inGroup = growth.inGroup := by
  obtain ⟨base, levels, note⟩ := growth
  cases levels with
  | nil => rfl
  | cons level outer =>
    obtain ⟨line, body, row⟩ := level
    cases body <;> rfl

theorem line_ne_nil_of_read {line : List Char} (h : Line.read line ≠ .blank) : line ≠ [] := by
  rintro rfl
  exact h rfl

theorem reads_entry (element : Element) (free : growth.note = none)
    (outside : growth.inGroup = false) (read : element.IsLine line) :
    ∃ growth', Reads number line growth growth' ∧
      (growth.assembly first).emitEntry number number element = growth'.assembly first := by
  refine ⟨_, .leaf element free read ?_, emitEntry_assembly first growth number number element ?_⟩
  · simp [outside]
  · simp [outside]

theorem reads_fault (fault : LineFault) (free : growth.note = none) (nonempty : line ≠ []) :
    ∃ growth', Reads number line growth growth' ∧
      (growth.assembly first).emitEntry number number (fault.element line) =
        growth'.assembly first := by
  refine ⟨_, .leaf _ free (.fault fault nonempty) ?_,
    emitEntry_assembly first growth number number _ ?_⟩
  · intro _
    exact Or.inr rfl
  · intro _
    rfl

theorem reads_else (free : growth.note = none) (nonempty : line ≠ []) :
    ∃ growth', Reads number line growth growth' ∧
      (growth.assembly first).elseLine number line = growth'.assembly first := by
  have stray := reads_fault first growth number line .strayElse free nonempty
  have malformed := reads_fault first growth number line .malformedElse free nonempty
  unfold Assembly.elseLine
  split
  · rename_i slot opened f blocks around
    split
    · rename_i clause read
      refine ⟨_, .clause clause free ?_ read,
        addClause_assembly first growth clause slot opened f blocks around⟩
      obtain ⟨base, levels, note⟩ := growth
      cases levels with
      | nil => contradiction
      | cons level outer =>
        obtain ⟨line', body, row⟩ := level
        cases body with
        | fragment f' => rfl
        | group g => simp [assembly, Growth.blocks, BlockBody.fill] at around
    · exact malformed
  · exact stray

theorem reads_end (free : growth.note = none) (last : line = "end".toList) :
    ∃ growth', Reads number line growth growth' ∧
      (growth.assembly first).endLine number line = growth'.assembly first := by
  have stray := reads_fault first growth number line .strayEnd free (by simp [last])
  have closed := closeBlock_assembly first growth number
  obtain ⟨base, levels, note⟩ := growth
  cases levels with
  | nil => exact stray
  | cons level outer => exact ⟨_, .closeBlock free (List.cons_ne_nil _ _) last, closed⟩

theorem reads_entryLine (free : growth.note = none) (outside : growth.inGroup = false) :
    ∃ growth', Reads number line growth growth' ∧
      (growth.assembly first).entryLine number line = growth'.assembly first := by
  have entry := reads_entry first growth number line
  have inside (body : BlockBody) : growth.inGroup = true → body.isGroup = true := by
    simp [outside]
  unfold Assembly.entryLine
  split
  · rename_i last
    exact reads_end first growth number line free last
  split
  · rename_i header
    refine reads_else first growth number line free ?_
    rintro rfl
    simp [Text.afterKeyword?, Text.nextWord?, Text.trimStart] at header
  split
  · rename_i read
    exact entry _ free outside (.blank read)
  · rename_i text read
    exact entry _ free outside (.comment text read)
  · rename_i d read
    exact entry _ free outside (.directive d read)
  · rename_i d read
    exact entry _ free outside (.divider d read)
  · rename_i n read
    split
    · rename_i block
      exact ⟨_, .openNote n free outside read block, rfl⟩
    · rename_i block
      exact entry _ free outside (.note n read (by simpa using block))
  · rename_i f read
    exact ⟨_, .openBlock _ free (.fragment f read) (inside _),
      openBlock_assembly first growth number _ (inside _)⟩
  · rename_i g read
    exact ⟨_, .openBlock _ free (.group g read) (inside _),
      openBlock_assembly first growth number _ (inside _)⟩
  · rename_i p read
    exact entry _ free outside (.participant p read)
  · rename_i m read
    exact entry _ free outside (.message m read)
  · rename_i read
    exact reads_fault first growth number line .unknownForm free
      (line_ne_nil_of_read (by simp [read]))

theorem reads_groupLine (free : growth.note = none) (inside : growth.inGroup = true) :
    ∃ growth', Reads number line growth growth' ∧
      (growth.assembly first).groupLine number line = growth'.assembly first := by
  have misplaced (nonempty : line ≠ []) :=
    reads_fault first growth number line .notForGroups free nonempty
  unfold Assembly.groupLine
  split
  · rename_i last
    refine ⟨_, .closeBlock free ?_ last, closeBlock_assembly first growth number⟩
    intro none
    simp [inGroup, none] at inside
  split
  · rename_i read
    exact ⟨growth, .skip free inside (Or.inl read), rfl⟩
  · rename_i text read
    exact ⟨growth, .skip free inside (Or.inr ⟨text, read⟩), rfl⟩
  · rename_i g read
    exact ⟨_, .openBlock _ free (.group g read) fun _ => rfl,
      openBlock_assembly first growth number _ fun _ => rfl⟩
  · rename_i p read
    exact ⟨_, .leaf _ free (.participant p read) fun _ => Or.inl rfl,
      addMember_assembly first growth number p inside⟩
  all_goals
    rename_i read
    exact misplaced (line_ne_nil_of_read (by simp [read]))

theorem reads_noteLine (note : OpenNote) (open' : growth.note = some note)
    (outside : growth.inGroup = false) :
    ∃ growth', Reads number line growth growth' ∧
      (growth.assembly first).noteLine note number line = growth'.assembly first := by
  unfold Assembly.noteLine
  split
  · rename_i last
    refine ⟨_, .closeNote note open' last, ?_⟩
    exact emitEntry_assembly first { growth with note := none } note.line number note.complete
      fun h => absurd (outside.symm.trans h) Bool.false_ne_true
  · rename_i more
    exact ⟨_, .noteText note open' more, rfl⟩

/-- Every step of an assembly is a change of the growth that it comes from. -/
theorem reads_step (outside : growth.note ≠ none → growth.inGroup = false) :
    ∃ growth', Reads number line growth growth' ∧
      (growth.assembly first).step number line = growth'.assembly first := by
  unfold Assembly.step
  rw [inGroup_assembly]
  cases free : growth.note with
  | some note =>
    have kept : (growth.assembly first).note = some note := free
    rw [kept]
    exact reads_noteLine first growth number line note free (outside (by simp [free]))
  | none =>
    have kept : (growth.assembly first).note = none := free
    rw [kept]
    by_cases inside : growth.inGroup = true
    · simp only [inside, if_true]
      exact reads_groupLine first growth number line free inside
    · simp only [inside]
      exact reads_entryLine first growth number line free (by simpa using inside)

end

end Growth

end SequenceDiagram
