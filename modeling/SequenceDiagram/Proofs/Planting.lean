import SequenceDiagram.Proofs.Soundness

set_option autoImplicit false

namespace SequenceDiagram

namespace Growth

structure IsSound (growth : Growth) (last : Nat) : Prop where
  proper : growth.IsProper
  spanned : growth.IsSpanned last
  read : growth.IsRead

theorem isSound_start : start.IsSound 0 where
  proper := ⟨trivial, by simp [start]⟩
  spanned := ⟨Nat.le_refl 0, by simp [start]⟩
  read := ⟨Grove.isRead_nil, by simp [start], by simp [start]⟩

theorem IsSound.reads {last number : Nat} {line : List Char} {growth growth' : Growth}
    (h : growth.IsSound last) (lt : last < number) (tidy : Text.IsTidy line)
    (reads : Reads number line growth growth') : growth'.IsSound number :=
  ⟨h.proper.reads reads, h.spanned.reads lt reads, h.read.reads tidy reads⟩

variable (first : UInt32)

theorem sound_run {lines : List (List Char)} {last : Nat} {growth : Growth}
    (h : growth.IsSound last) (tidy : ∀ line ∈ lines, Text.IsTidy line) :
    ∃ growth' : Growth, growth'.IsSound (last + lines.length) ∧
      (growth.assembly first).run (lines.zipIdx (last + 1)) = growth'.assembly first := by
  induction lines generalizing last growth with
  | nil => exact ⟨growth, h, rfl⟩
  | cons line lines ih =>
    obtain ⟨next, reads, step⟩ := reads_step first growth (last + 1) line h.proper.note
    have sound := h.reads (Nat.lt_succ_self last) (tidy line List.mem_cons_self) reads
    obtain ⟨growth', sound', run⟩ := ih sound fun other mem =>
      tidy other (List.mem_cons_of_mem _ mem)
    refine ⟨growth', ?_, ?_⟩
    · rwa [List.length_cons, Nat.add_comm lines.length, ← Nat.add_assoc]
    · rw [← run, ← step]
      rfl

theorem IsSound.push_error {growth : Growth} {last : Nat} (h : growth.IsSound last)
    (free : growth.note = none) {fault : SyntaxFault} (read : (Element.error fault).IsRead) :
    (growth.push (.leaf ⟨.error fault, last, last⟩)).IsSound last where
  proper := h.proper.push ⟨rfl, trivial⟩
  spanned := h.spanned.push_leaf free _ (Nat.le_refl _) nofun
  read := h.read.push (Grove.isRead_leaf.2 read)

theorem isTidy_terminator (kind : NoteKind) : Text.IsTidy kind.terminator where
  starts := by cases kind <;> exact Text.startsInk_cons.2 (by decide)
  ends := by
    rw [NoteKind.terminator, Text.endsInk_append (by cases kind <;> decide)]
    cases kind <;> exact Text.endsInk_iff_reverse.2 (Text.startsInk_cons.2 (by decide))
  single := by cases kind <;> decide

theorem isTidy_end : Text.IsTidy "end".toList where
  starts := Text.startsInk_cons.2 (by decide)
  ends := Text.endsInk_iff_reverse.2 (Text.startsInk_cons.2 (by decide))
  single := by decide

/-- The end of the text closes an open note as its terminator on the last line would have, and
reports it. -/
theorem abandonNote_assembly {growth : Growth} {note : OpenNote} (inside : growth.note = some note)
    (outside : growth.inGroup = false) (last : Nat) :
    (growth.assembly first).abandonNote last =
      (({ growth with note := none }.push (.leaf ⟨note.complete, note.line, last⟩)).push
        (.leaf ⟨SyntaxFault.unterminatedNote note.head.kind note.line, last, last⟩) :
          Growth).assembly first := by
  let freed : Growth := { growth with note := none }
  have kept : (growth.assembly first).note = some note := inside
  have noted := emitEntry_assembly first freed note.line last note.complete
    fun group => absurd (outside.symm.trans group) Bool.false_ne_true
  have reported := emitEntry_assembly first
    (freed.push (.leaf ⟨note.complete, note.line, last⟩)) last last
    (SyntaxFault.unterminatedNote note.head.kind note.line) fun _ => rfl
  rw [Assembly.abandonNote, kept, ← reported, ← noted]
  rfl

/-- It closes the innermost block as an `end` would have, and reports it to the block around. -/
theorem abandonBlock_assembly (base : Grove) (level : Level) (outer : List Level)
    (note : Option OpenNote) (last : Nat) :
    (assembly first ⟨base, level :: outer, note⟩).abandonBlock last =
      (((⟨base, level :: outer, note⟩ : Growth).closeBlock last).push
        (.leaf ⟨SyntaxFault.unterminatedBlock level.body.keyword level.line, last, last⟩)).assembly
          first := by
  have reported := emitEntry_assembly first
    ((⟨base, level :: outer, note⟩ : Growth).closeBlock last) last last
    (SyntaxFault.unterminatedBlock level.body.keyword level.line) fun _ => rfl
  rw [← reported, ← closeBlock_assembly]
  simp only [Assembly.abandonBlock, assembly, blocks, BlockBody.keyword_fill]

theorem sound_abandonNote {growth : Growth} {last : Nat} (h : growth.IsSound last) :
    ∃ growth' : Growth, growth'.IsSound last ∧ growth'.note = none ∧
      (growth.assembly first).abandonNote last = growth'.assembly first := by
  cases inside : growth.note with
  | none =>
    have free : (growth.assembly first).note = none := inside
    refine ⟨growth, h, inside, ?_⟩
    rw [Assembly.abandonNote, free]
  | some note =>
    have outside := h.proper.note (by simp [inside])
    let freed : Growth := { growth with note := none }
    let closed := freed.push (.leaf ⟨note.complete, note.line, last⟩)
    have reads : Reads last note.head.kind.terminator growth closed := .closeNote note inside rfl
    have sound : closed.IsSound last :=
      ⟨h.proper.reads reads, h.spanned.closeNote inside (Nat.le_refl _),
        h.read.reads (isTidy_terminator _) reads⟩
    have free : closed.note = none := note_push freed _
    have read := Element.IsRead.unterminatedNote note.head.kind note.line
    exact ⟨_, sound.push_error free read, by rw [note_push, free],
      abandonNote_assembly first inside outside last⟩

theorem length_levels_push (growth : Growth) (row : Grove) :
    (growth.push row).levels.length = growth.levels.length := by
  obtain ⟨base, levels, note⟩ := growth
  cases levels <;> rfl

theorem sound_abandonBlock {growth : Growth} {last count : Nat} (h : growth.IsSound last)
    (free : growth.note = none) (more : growth.levels.length = count + 1) :
    ∃ growth' : Growth, growth'.IsSound last ∧ growth'.note = none ∧
      growth'.levels.length = count ∧
      (growth.assembly first).abandonBlock last = growth'.assembly first := by
  obtain ⟨base, levels, note⟩ := growth
  cases levels with
  | nil => contradiction
  | cons level outer =>
    let growth : Growth := ⟨base, level :: outer, note⟩
    let closed := growth.closeBlock last
    have reads : Reads last "end".toList growth closed :=
      .closeBlock free (List.cons_ne_nil _ _) rfl
    have sound : closed.IsSound last :=
      ⟨h.proper.reads reads, h.spanned.closeBlock free (Nat.le_refl _),
        h.read.reads isTidy_end reads⟩
    have free' : closed.note = none := (note_closeBlock growth last).trans free
    have read := Element.IsRead.unterminatedBlock level.body level.line
    refine ⟨_, sound.push_error free' read, by rw [note_push, free'], ?_,
      abandonBlock_assembly first base level outer note last⟩
    rw [length_levels_push]
    exact (length_levels_push ⟨base, outer, note⟩ _).trans (by simpa using more)

theorem sound_abandonBlocks {growth : Growth} {last count : Nat} (h : growth.IsSound last)
    (free : growth.note = none) (all : growth.levels.length = count) :
    ∃ growth' : Growth, growth'.IsSound last ∧ growth'.note = none ∧ growth'.levels = [] ∧
      Assembly.abandonBlocks last count (growth.assembly first) = growth'.assembly first := by
  induction count generalizing growth with
  | zero => exact ⟨growth, h, free, List.length_eq_zero_iff.1 all, rfl⟩
  | succ count ih =>
    obtain ⟨next, sound, free', fewer, step⟩ := sound_abandonBlock first h free all
    obtain ⟨growth', sound', free'', none, rest⟩ := ih sound free' fewer
    exact ⟨growth', sound', free'', none, by rw [← rest, ← step]; rfl⟩

theorem length_blocks (base tail : Grove) (levels : List Level) :
    (blocks first base tail levels).length = levels.length := by
  induction levels generalizing tail with
  | nil => rfl
  | cons level outer ih => simp [blocks, ih]

theorem sound_finish {growth : Growth} {last : Nat} (h : growth.IsSound last) :
    ∃ grove : Grove, IsSound ⟨grove, [], none⟩ last ∧
      (growth.assembly first).finish last = assembly first ⟨grove, [], none⟩ := by
  obtain ⟨noted, sound, free, note⟩ := sound_abandonNote first h
  obtain ⟨⟨base, levels, open'⟩, sound', free', none, rest⟩ :=
    sound_abandonBlocks first sound free rfl
  obtain rfl : open' = Option.none := free'
  obtain rfl : levels = [] := none
  refine ⟨base, sound', ?_⟩
  simp only [Assembly.finish, note]
  rw [← rest]
  congr 1
  exact length_blocks first noted.base .nil noted.levels

end Growth

namespace Text

theorem isTidy_of_mem_lines {text : List Char} :
    ∀ line ∈ (lines text).map trim, IsTidy line := by
  intro line mem
  obtain ⟨raw, hraw, rfl⟩ := List.mem_map.1 mem
  exact isTidy_trim (single_of_mem_lines hraw)

end Text

namespace Document

/-- Reading plants a sound grove, and at the end no block and no note is left open. -/
theorem exists_grove (first : UInt32) (text : List Char) :
    ∃ grove : Grove, grove.Proper .top ∧ grove.Spans 0 (Text.lines text).length ∧ grove.IsRead ∧
      (Assembly.run { first } (Text.numberedLines text)).finish (Text.lines text).length =
        Growth.assembly first ⟨grove, [], none⟩ := by
  have tidy := @Text.isTidy_of_mem_lines text
  obtain ⟨growth, sound, run⟩ := Growth.sound_run first Growth.isSound_start tidy
  rw [List.length_map, Nat.zero_add] at sound
  obtain ⟨grove, sound', finish⟩ := Growth.sound_finish first sound
  refine ⟨grove, sound'.proper.levels, sound'.spanned.levels, sound'.read.base, ?_⟩
  rw [← finish, ← run]
  rfl

theorem readFrom_eq_plant (first : UInt32) (text : String) :
    ∃ grove : Grove, grove.Proper .top ∧ grove.Spans 0 (Text.lines text.toList).length ∧
      grove.IsRead ∧ readFrom first text = ⟨grove.plant first 0⟩ := by
  obtain ⟨grove, proper, spans, read, finish⟩ := exists_grove first text.toList
  refine ⟨grove, proper, spans, read, ?_⟩
  have count : (Text.numberedLines text.toList).length = (Text.lines text.toList).length := by
    simp [Text.numberedLines]
  rw [readFrom, count, finish]
  rfl

end Document

end SequenceDiagram
