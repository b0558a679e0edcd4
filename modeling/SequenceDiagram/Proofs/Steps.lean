import SequenceDiagram.Proofs.Elements

set_option autoImplicit false

namespace SequenceDiagram

open Text

namespace Growth

section
variable (first : UInt32) {growth : Growth} (number : Nat) {line : List Char}

theorem step_outside (free : growth.note = none) (outside : growth.inGroup = false) :
    (growth.assembly first).step number line = (growth.assembly first).entryLine number line := by
  have kept : (growth.assembly first).note = none := free
  rw [Assembly.step, kept]
  simp only
  rw [inGroup_assembly, outside]
  rfl

theorem step_inside (free : growth.note = none) (inside : growth.inGroup = true) :
    (growth.assembly first).step number line = (growth.assembly first).groupLine number line := by
  have kept : (growth.assembly first).note = none := free
  rw [Assembly.step, kept]
  simp only
  rw [inGroup_assembly, if_pos inside]

theorem entryLine_ordinary (assembly : Assembly) (ordinary : Line.IsOrdinary line) :
    assembly.entryLine number line = match Line.read line with
      | .blank => assembly.emitEntry number number .blankLine
      | .comment text => assembly.emitEntry number number (.comment text)
      | .directive d => assembly.emitEntry number number (.directive d)
      | .divider d => assembly.emitEntry number number (.divider d)
      | .note n =>
        if n.block then { assembly with note := some ⟨number, n, []⟩ }
        else assembly.emitEntry number number (.note n)
      | .fragment f => assembly.openBlock number (.fragment f)
      | .group g => assembly.openBlock number (.group g)
      | .participant p => assembly.emitEntry number number (.participant p)
      | .message m => assembly.emitEntry number number (.message m)
      | .unrecognized => assembly.emitEntry number number (LineFault.unknownForm.element line) := by
  have noElse : ¬(Text.afterKeyword? "else".toList line).isSome = true := by
    rw [ordinary.notElse]
    exact Bool.false_ne_true
  exact (if_neg ordinary.notEnd).trans (if_neg noElse)

/-- A line of its own outside of groups. -/
theorem step_leaf (free : growth.note = none) (outside : growth.inGroup = false)
    (ordinary : Line.IsOrdinary line) {element : Element} (read : element.IsLine line)
    (sound : element.isError = false) :
    (growth.assembly first).step number line =
      (growth.push (.leaf ⟨element, number, number⟩)).assembly first := by
  rw [step_outside first number free outside, entryLine_ordinary number _ ordinary,
    ← emitEntry_assembly first growth number number element (by simp [outside])]
  cases read with
  | blank read => rw [read]
  | comment text read => rw [read]
  | directive d read => rw [read]
  | divider d read => rw [read]
  | note n read block =>
    rw [read]
    simp only
    rw [if_neg (by simp [block])]
  | participant p read => rw [read]
  | message m read => rw [read]
  | fault fault some => contradiction

theorem step_member (free : growth.note = none) (inside : growth.inGroup = true)
    (ordinary : Line.IsOrdinary line) {p : Participant} (read : Line.read line = .participant p) :
    (growth.assembly first).step number line =
      (growth.push (.leaf ⟨.participant p, number, number⟩)).assembly first := by
  rw [step_inside first number free inside, Assembly.groupLine, if_neg ordinary.notEnd, read,
    ← addMember_assembly first growth number p inside]

theorem step_openBlock (free : growth.note = none) (ordinary : Line.IsOrdinary line)
    {body : BlockBody} (read : body.IsHead line)
    (place : growth.inGroup = true → body.isGroup = true) :
    (growth.assembly first).step number line = (growth.openBlock number body).assembly first := by
  rw [← openBlock_assembly first growth number body place]
  by_cases inside : growth.inGroup = true
  · rw [step_inside first number free inside, Assembly.groupLine, if_neg ordinary.notEnd]
    cases read with
    | fragment f read => exact absurd (place inside) (by simp [BlockBody.isGroup])
    | group g read => rw [read]
  · rw [step_outside first number free (by simpa using inside),
      entryLine_ordinary number _ ordinary]
    cases read with
    | fragment f read => rw [read]
    | group g read => rw [read]

theorem step_end (free : growth.note = none) (inside : growth.levels ≠ []) :
    (growth.assembly first).step number "end".toList = (growth.closeBlock number).assembly first := by
  rw [← closeBlock_assembly first growth number]
  by_cases group : growth.inGroup = true
  · rw [step_inside first number free group, Assembly.groupLine, if_pos rfl]
  · rw [step_outside first number free (by simpa using group), Assembly.entryLine, if_pos rfl]
    obtain ⟨base, levels, note⟩ := growth
    cases levels with
    | nil => contradiction
    | cons level outer => rfl

theorem step_else (free : growth.note = none) (inside : growth.inFragment = true)
    {clause : ElseClause} (read : ElseClause.readHead? line = some clause) :
    (growth.assembly first).step number line = (growth.push (.mark clause .nil)).assembly first := by
  obtain ⟨rest, header, -⟩ := Option.bind_eq_some_iff.1 read
  have notEnd : line ≠ "end".toList := by
    rintro rfl
    contradiction
  have outside : growth.inGroup = false := by
    obtain ⟨base, levels, note⟩ := growth
    cases levels with
    | nil => rfl
    | cons level outer => simpa [inFragment, inGroup] using inside
  obtain ⟨base, levels, note⟩ := growth
  cases levels with
  | nil => contradiction
  | cons level outer =>
    obtain ⟨opened, body, row⟩ := level
    cases body with
    | group g => contradiction
    | fragment f =>
      rw [step_outside first number free outside, Assembly.entryLine, if_neg notEnd, header,
        if_pos Option.isSome_some, ← addClause_assembly first _ clause _ _ _ _ rfl]
      unfold Assembly.elseLine
      simp only [assembly, blocks, BlockBody.fill, read]

theorem step_openNote (free : growth.note = none) (outside : growth.inGroup = false)
    (ordinary : Line.IsOrdinary line) {n : Note} (read : Line.read line = .note n)
    (block : n.block = true) :
    (growth.assembly first).step number line =
      ({ growth with note := some ⟨number, n, []⟩ } : Growth).assembly first := by
  rw [step_outside first number free outside, entryLine_ordinary number _ ordinary, read]
  simp only
  rw [if_pos block]
  rfl

theorem step_row {note : OpenNote} (inside : growth.note = some note)
    (more : line ≠ note.head.kind.terminator) :
    (growth.assembly first).step number line =
      ({ growth with note := some { note with text := line :: note.text } } : Growth).assembly
        first := by
  have kept : (growth.assembly first).note = some note := inside
  rw [Assembly.step, kept]
  simp only
  rw [Assembly.noteLine, if_neg more]
  rfl

theorem step_closeNote {note : OpenNote} (inside : growth.note = some note)
    (outside : growth.inGroup = false) :
    (growth.assembly first).step number note.head.kind.terminator =
      ({ growth with note := none }.push
        (.leaf ⟨note.complete, note.line, number⟩) : Growth).assembly first := by
  have kept : (growth.assembly first).note = some note := inside
  rw [Assembly.step, kept]
  simp only
  rw [Assembly.noteLine, if_pos rfl]
  exact emitEntry_assembly first { growth with note := none } note.line number note.complete
    fun h => absurd (outside.symm.trans h) Bool.false_ne_true

end

end Growth

end SequenceDiagram
