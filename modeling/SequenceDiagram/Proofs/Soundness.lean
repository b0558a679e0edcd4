import SequenceDiagram.Proofs.FirstMatch
import SequenceDiagram.Proofs.Ink
import SequenceDiagram.Proofs.Reading

set_option autoImplicit false

/-!
# Sound groves

Three things hold of every grove that is read from lines: heads stand where their form may stand
(`Proper`), the lines of a tree lie within those of the tree around it (`Spans`), and every
element is one that lines can make (`IsRead`). Each change keeps all three, and so does the end
of the text.
-/
namespace SequenceDiagram

inductive Place
  | top
  | fragment
  | group
deriving DecidableEq, Repr

def Element.IsBare : Element → Prop
  | .fragment f => f.entries = [] ∧ f.elseClauses = []
  | .group g => g.participants = [] ∧ g.nestedGroups = []
  | _ => True

def BlockBody.place : BlockBody → Place
  | .fragment _ => .fragment
  | .group _ => .group

namespace Grove

/-- A group holds declarations, groups and errors. Only a fragment has else clauses, only blocks
have bodies, and heads name no children. -/
def Proper : Place → Grove → Prop
  | _, .nil => True
  | place, .tree seed body next =>
    (match seed.element with
      | .fragment f => place ≠ .group ∧ (Element.fragment f).IsBare ∧ Proper .fragment body
      | .group g => (Element.group g).IsBare ∧ Proper .group body
      | .participant _ => body = .nil
      | .error _ => body = .nil
      | _ => place ≠ .group ∧ body = .nil) ∧
    Proper place next
  | place, .mark clause next => place = .fragment ∧ clause.entries = [] ∧ Proper place next

theorem proper_append (place : Place) (a b : Grove) :
    Proper place (a.append b) ↔ Proper place a ∧ Proper place b := by
  induction a with
  | nil => simp [Forest.append, Proper]
  | tree seed body next _ ih => simp only [Forest.append, Proper, ih, and_assoc]
  | mark clause next ih => simp only [Forest.append, Proper, ih, and_assoc]

/-- The trees of a row follow each other between two lines, and so do those of every body
between the lines of its head. Only an error may share the line of what is before it, since the
reports about open blocks all stand at the end of the text. -/
def Spans : Nat → Nat → Grove → Prop
  | low, high, .nil => low ≤ high
  | low, high, .tree seed body next =>
    (low ≤ seed.lineStart ∧ (seed.element.isError = false → low < seed.lineStart)) ∧
      Spans seed.lineStart seed.lineEnd body ∧ Spans seed.lineEnd high next
  | low, high, .mark _ next => Spans low high next

theorem Spans.le {low high : Nat} {grove : Grove} (h : Spans low high grove) : low ≤ high := by
  induction grove generalizing low high with
  | nil => exact h
  | tree seed body next ihb ihn =>
    exact Nat.le_trans h.1.1 (Nat.le_trans (ihb h.2.1) (ihn h.2.2))
  | mark clause next ih => exact ih h

theorem Spans.lower {low low' high : Nat} {grove : Grove} (h : Spans low high grove)
    (le : low' ≤ low) : Spans low' high grove := by
  induction grove with
  | nil => exact Nat.le_trans le h
  | tree seed body next _ _ =>
    exact ⟨⟨Nat.le_trans le h.1.1, fun kept => Nat.lt_of_le_of_lt le (h.1.2 kept)⟩, h.2⟩
  | mark clause next ih => exact ih h

theorem Spans.append {low middle high : Nat} {a b : Grove} (ha : Spans low middle a)
    (hb : Spans middle high b) : Spans low high (a.append b) := by
  induction a generalizing low with
  | nil => exact hb.lower ha
  | tree seed body next _ ih => exact ⟨ha.1, ha.2.1, ih ha.2.2⟩
  | mark clause next ih => exact ih ha

theorem Spans.mono {low high high' : Nat} {grove : Grove} (h : Spans low high grove)
    (le : high ≤ high') : Spans low high' grove := by
  have later : Spans high high' .nil := le
  simpa [Forest.append_nil] using h.append later

end Grove

namespace Growth

def place : List Level → Place
  | [] => .top
  | level :: _ => level.body.place

def LevelsProper (base : Grove) : List Level → Prop
  | [] => base.Proper .top
  | level :: outer => (level.close level.line .nil).Proper (place outer) ∧ LevelsProper base outer

structure IsProper (growth : Growth) : Prop where
  levels : LevelsProper growth.base growth.levels
  note : growth.note ≠ none → growth.inGroup = false

theorem proper_close (place : Place) (level : Level) (lineEnd : Nat) (tail : Grove) :
    (level.close lineEnd tail).Proper place ↔
      (level.close level.line .nil).Proper place ∧ tail.Proper level.body.place := by
  obtain ⟨line, body, row⟩ := level
  cases body <;>
    simp only [Level.close, BlockBody.element, BlockBody.place, Grove.Proper, Forest.append_nil,
      Grove.proper_append, and_true, and_assoc]

theorem place_eq_group_iff (growth : Growth) :
    place growth.levels = .group ↔ growth.inGroup = true := by
  obtain ⟨base, levels, note⟩ := growth
  cases levels with
  | nil => simp [place, inGroup]
  | cons level outer =>
    obtain ⟨line, body, row⟩ := level
    cases body <;> simp [place, inGroup, BlockBody.place, BlockBody.isGroup]

theorem inGroup_push (growth : Growth) (row : Grove) :
    (growth.push row).inGroup = growth.inGroup := by
  obtain ⟨base, levels, note⟩ := growth
  cases levels <;> rfl

theorem note_push (growth : Growth) (row : Grove) : (growth.push row).note = growth.note := by
  obtain ⟨base, levels, note⟩ := growth
  cases levels <;> rfl

theorem levelsProper_push {growth : Growth} {row : Grove}
    (h : LevelsProper growth.base growth.levels) (proper : row.Proper (place growth.levels)) :
    LevelsProper (growth.push row).base (growth.push row).levels := by
  obtain ⟨base, levels, note⟩ := growth
  cases levels with
  | nil => exact (Grove.proper_append .top base row).2 ⟨h, proper⟩
  | cons level outer =>
    have closed := (proper_close (place outer) level level.line row).2 ⟨h.1, proper⟩
    refine ⟨?_, h.2⟩
    simpa only [Level.close, Forest.append_nil] using closed

theorem IsProper.push {growth : Growth} {row : Grove} (h : growth.IsProper)
    (proper : row.Proper (place growth.levels)) : (growth.push row).IsProper where
  levels := levelsProper_push h.levels proper
  note := by
    rw [note_push, inGroup_push]
    exact h.note

theorem proper_leaf_of_isLine {line : List Char} {element : Element} (read : element.IsLine line)
    (lineStart lineEnd : Nat) {place : Place}
    (h : place = .group → element.isParticipant = true ∨ element.isError = true) :
    Grove.Proper place (.leaf ⟨element, lineStart, lineEnd⟩) := by
  have outside (plain : ¬(element.isParticipant = true ∨ element.isError = true)) :
      place ≠ .group := fun inside => plain (h inside)
  cases read <;>
    simp [Forest.leaf, Grove.Proper, LineFault.element, Element.isParticipant,
      Element.isError] at outside ⊢ <;> assumption

theorem IsProper.closeBlock {growth : Growth} (h : growth.IsProper) (free : growth.note = none)
    (lineEnd : Nat) : (growth.closeBlock lineEnd).IsProper := by
  obtain ⟨base, levels, note⟩ := growth
  cases levels with
  | nil => exact h
  | cons level outer =>
    obtain ⟨closed, around⟩ := h.levels
    have outside : Growth.IsProper ⟨base, outer, note⟩ := ⟨around, fun some => absurd free some⟩
    apply outside.push
    exact (proper_close (place outer) level lineEnd .nil).2 ⟨closed, trivial⟩

theorem head_isBare {line : List Char} {body : BlockBody} (read : body.IsHead line) :
    body.element.IsBare := by
  cases read with
  | fragment f read =>
    obtain ⟨-, -, -, head⟩ := Line.read_eq_fragment_iff.1 read
    simp only [Fragment.readHead?, bind, Option.bind_eq_some_iff, Option.some.injEq] at head
    obtain ⟨_, _, _, _, _, _, rfl⟩ := head
    exact ⟨rfl, rfl⟩
  | group g read =>
    obtain ⟨-, -, -, -, head⟩ := Line.read_eq_group_iff.1 read
    simp only [ParticipantGroup.readHead?, bind, Option.bind_eq_some_iff, Option.some.injEq] at head
    obtain ⟨_, _, rfl⟩ := head
    exact ⟨rfl, rfl⟩

theorem entries_of_readClause {line : List Char} {clause : ElseClause}
    (read : ElseClause.readHead? line = some clause) : clause.entries = [] := by
  simp only [ElseClause.readHead?, bind, Option.bind_eq_some_iff, Option.some.injEq] at read
  obtain ⟨_, _, _, _, rfl⟩ := read
  rfl

theorem IsProper.openBlock {growth : Growth} (h : growth.IsProper) (free : growth.note = none)
    (line : Nat) {body : BlockBody} (bare : body.element.IsBare)
    (fits : growth.inGroup = true → body.isGroup = true) :
    (growth.openBlock line body).IsProper := by
  refine ⟨⟨?_, h.levels⟩, fun some => absurd free some⟩
  cases body with
  | fragment f =>
    have outside : place growth.levels ≠ .group := by
      rw [Ne, place_eq_group_iff]
      intro inside
      exact absurd (fits inside) Bool.false_ne_true
    exact ⟨⟨outside, bare, trivial⟩, trivial⟩
  | group g => exact ⟨⟨bare, trivial⟩, trivial⟩

theorem IsProper.reads {number : Nat} {line : List Char} {growth growth' : Growth}
    (h : growth.IsProper) (reads : Reads number line growth growth') : growth'.IsProper := by
  cases reads with
  | leaf element free read fits =>
    exact h.push (proper_leaf_of_isLine read number number fun inside =>
      fits ((place_eq_group_iff growth).1 inside))
  | openNote n free outside read block => exact ⟨h.levels, fun _ => outside⟩
  | noteText note inside more => exact ⟨h.levels, fun _ => h.note (by simp [inside])⟩
  | closeNote note inside last =>
    have outside := h.note (by simp [inside])
    have closed : ({ growth with note := none } : Growth).IsProper :=
      ⟨h.levels, fun some => absurd rfl some⟩
    refine closed.push ⟨⟨?_, rfl⟩, trivial⟩
    rw [Ne, place_eq_group_iff]
    exact fun inside => absurd (outside.symm.trans inside) Bool.false_ne_true
  | openBlock body free read fits => exact h.openBlock free number (head_isBare read) fits
  | clause clause free inside read =>
    refine h.push ⟨?_, entries_of_readClause read, trivial⟩
    obtain ⟨base, levels, note⟩ := growth
    cases levels with
    | nil => contradiction
    | cons level outer =>
      obtain ⟨line', body, row⟩ := level
      cases body with
      | fragment f => rfl
      | group g => contradiction
  | closeBlock free inside last => exact h.closeBlock free number
  | skip free inside read => exact h

def reach (growth : Growth) (last : Nat) : Nat :=
  match growth.note with
  | some note => note.line - 1
  | none => last

def LevelsSpan (base : Grove) : List Level → Nat → Prop
  | [], high => base.Spans 0 high
  | level :: outer, high =>
    level.row.Spans level.line high ∧ ∃ before < level.line, LevelsSpan base outer before

structure IsSpanned (growth : Growth) (last : Nat) : Prop where
  levels : LevelsSpan growth.base growth.levels (growth.reach last)
  note : ∀ note ∈ growth.note, 0 < note.line ∧ note.line ≤ last

theorem LevelsSpan.mono {base : Grove} {levels : List Level} {high high' : Nat}
    (h : LevelsSpan base levels high) (le : high ≤ high') : LevelsSpan base levels high' := by
  cases levels with
  | nil => exact Grove.Spans.mono h le
  | cons level outer => exact ⟨h.1.mono le, h.2⟩

theorem LevelsSpan.push {growth : Growth} {row : Grove} {middle high : Nat}
    (h : LevelsSpan growth.base growth.levels middle) (spans : row.Spans middle high) :
    LevelsSpan (growth.push row).base (growth.push row).levels high := by
  obtain ⟨base, levels, note⟩ := growth
  cases levels with
  | nil => exact Grove.Spans.append h spans
  | cons level outer => exact ⟨h.1.append spans, h.2⟩

theorem note_closeBlock (growth : Growth) (lineEnd : Nat) :
    (growth.closeBlock lineEnd).note = growth.note := by
  obtain ⟨base, levels, note⟩ := growth
  cases levels with
  | nil => rfl
  | cons level outer => rw [Growth.closeBlock, note_push]

theorem isSpanned_of_free {growth : Growth} {last : Nat} (free : growth.note = none)
    (h : LevelsSpan growth.base growth.levels last) : growth.IsSpanned last := by
  have reached : growth.reach last = last := by simp [reach, free]
  exact ⟨reached.symm ▸ h, by simp [free]⟩

theorem IsSpanned.within {growth : Growth} {last : Nat} (h : growth.IsSpanned last) :
    LevelsSpan growth.base growth.levels last := by
  refine h.levels.mono ?_
  unfold reach
  split
  · rename_i note inside
    have bounds := h.note note inside
    omega
  · exact Nat.le_refl last

/-- An error may stand on the last line, anything else on a new one. -/
theorem IsSpanned.push_leaf {growth : Growth} {last number : Nat} (h : growth.IsSpanned last)
    (free : growth.note = none) (element : Element) (le : last ≤ number)
    (new : element.isError = false → last < number) :
    (growth.push (.leaf ⟨element, number, number⟩)).IsSpanned number := by
  refine isSpanned_of_free (by rw [note_push, free]) (h.within.push ?_)
  exact ⟨⟨le, new⟩, Nat.le_refl _, Nat.le_refl _⟩

theorem IsSpanned.closeNote {growth : Growth} {last number : Nat} (h : growth.IsSpanned last)
    {note : OpenNote} (inside : growth.note = some note) (le : last ≤ number) :
    ({ growth with note := none }.push (.leaf ⟨note.complete, note.line, number⟩) :
      Growth).IsSpanned number := by
  obtain ⟨positive, early⟩ := h.note note inside
  have reached : growth.reach last = note.line - 1 := by simp [reach, inside]
  refine isSpanned_of_free (by rw [note_push]) ?_
  refine @LevelsSpan.push { growth with note := none } _ _ _ (reached ▸ h.levels) ?_
  exact ⟨⟨Nat.sub_le _ 1, fun _ => Nat.sub_lt positive Nat.one_pos⟩, Nat.le_trans early le,
    Nat.le_refl _⟩

theorem IsSpanned.closeBlock {growth : Growth} {last number : Nat} (h : growth.IsSpanned last)
    (free : growth.note = none) (le : last ≤ number) :
    (growth.closeBlock number).IsSpanned number := by
  have within := h.within.mono le
  refine isSpanned_of_free (by rw [note_closeBlock, free]) ?_
  obtain ⟨base, levels, note⟩ := growth
  cases levels with
  | nil => exact within
  | cons level outer =>
    obtain ⟨inside, before, lt, around⟩ := within
    refine @LevelsSpan.push ⟨base, outer, note⟩ _ _ _ around ?_
    refine ⟨⟨Nat.le_of_lt lt, fun _ => lt⟩, ?_, Nat.le_refl _⟩
    simpa [Forest.append_nil] using inside

theorem IsSpanned.reads {last number : Nat} {line : List Char} {growth growth' : Growth}
    (h : growth.IsSpanned last) (lt : last < number)
    (reads : Reads number line growth growth') : growth'.IsSpanned number := by
  have le := Nat.le_of_lt lt
  cases reads with
  | leaf element free read fits => exact h.push_leaf free element le fun _ => lt
  | openNote n free outside read block =>
    exact ⟨h.within.mono (Nat.le_sub_one_of_lt lt),
      by simpa using Nat.lt_of_le_of_lt (Nat.zero_le last) lt⟩
  | noteText note inside more =>
    obtain ⟨positive, early⟩ := h.note note inside
    have reached : growth.reach last = note.line - 1 := by simp [reach, inside]
    have kept : LevelsSpan growth.base growth.levels (note.line - 1) := reached ▸ h.levels
    refine ⟨kept, ?_⟩
    simp only [Option.mem_def, Option.some.injEq, forall_eq']
    exact ⟨positive, Nat.le_trans early le⟩
  | closeNote note inside ended => exact h.closeNote inside le
  | openBlock body free read fits =>
    exact isSpanned_of_free free ⟨Nat.le_refl number, last, lt, h.within⟩
  | clause clause free inside read =>
    exact isSpanned_of_free (by rw [note_push, free])
      (@LevelsSpan.push _ (.mark clause .nil) _ number h.within le)
  | closeBlock free inside ended => exact h.closeBlock free le
  | skip free inside read => exact isSpanned_of_free free (h.within.mono le)

end Growth

/-- The elements that a text can have: those of single lines, the heads of blocks, notes with
their text and the reports of what was never closed. -/
inductive Element.IsRead : Element → Prop
  | line (line : List Char) (tidy : Text.IsTidy line) (element : Element)
      (read : element.IsLine line) : IsRead element
  | head (line : List Char) (tidy : Text.IsTidy line) (body : BlockBody)
      (read : body.IsHead line) : IsRead body.element
  | note (line : List Char) (tidy : Text.IsTidy line) (note : OpenNote)
      (read : Line.read line = .note note.head) (block : note.head.block = true)
      (text : ∀ row ∈ note.text, Text.IsTidy row ∧ row ≠ note.head.kind.terminator) :
      IsRead note.complete
  | unterminatedBlock (body : BlockBody) (line : Nat) :
      IsRead (SyntaxFault.unterminatedBlock body.keyword line)
  | unterminatedNote (kind : NoteKind) (line : Nat) :
      IsRead (SyntaxFault.unterminatedNote kind line)

def ElseClause.IsRead (clause : ElseClause) : Prop :=
  ∃ line, Text.IsTidy line ∧ ElseClause.readHead? line = some clause

namespace Grove

def IsRead (grove : Grove) : Prop :=
  (∀ seed ∈ grove.labels, seed.element.IsRead) ∧ ∀ clause ∈ grove.marks, clause.IsRead

theorem isRead_append (a b : Grove) : IsRead (a.append b) ↔ IsRead a ∧ IsRead b := by
  simp only [IsRead, Forest.labels_append, Forest.marks_append, List.mem_append, or_imp,
    forall_and]
  constructor
  · rintro ⟨⟨ha, hb⟩, hc, hd⟩
    exact ⟨⟨ha, hc⟩, hb, hd⟩
  · rintro ⟨⟨ha, hc⟩, hb, hd⟩
    exact ⟨⟨ha, hb⟩, hc, hd⟩

theorem isRead_nil : IsRead .nil := by
  simp [IsRead, Forest.labels, Forest.marks]

theorem isRead_tree {seed : Seed} {body next : Grove} :
    IsRead (.tree seed body next) ↔ seed.element.IsRead ∧ IsRead body ∧ IsRead next := by
  simp only [IsRead, Forest.labels, Forest.marks, List.mem_cons, List.mem_append, or_imp,
    forall_and, forall_eq]
  constructor
  · rintro ⟨⟨seed, body, next⟩, inner, after⟩
    exact ⟨seed, ⟨body, inner⟩, next, after⟩
  · rintro ⟨seed, ⟨body, inner⟩, next, after⟩
    exact ⟨⟨seed, body, next⟩, inner, after⟩

theorem isRead_mark {clause : ElseClause} {next : Grove} :
    IsRead (.mark clause next) ↔ clause.IsRead ∧ IsRead next := by
  simp only [IsRead, Forest.labels, Forest.marks, List.mem_cons, or_imp, forall_and, forall_eq]
  exact and_left_comm

theorem isRead_leaf {seed : Seed} : IsRead (.leaf seed) ↔ seed.element.IsRead := by
  rw [Forest.leaf, isRead_tree, and_iff_left ⟨isRead_nil, isRead_nil⟩]

theorem isRead_close {level : Level} {lineEnd : Nat} :
    IsRead (level.close lineEnd .nil) ↔ level.body.element.IsRead ∧ IsRead level.row := by
  rw [Level.close, Forest.append_nil, isRead_tree, and_iff_left isRead_nil]

end Grove

namespace Growth

structure IsRead (growth : Growth) : Prop where
  base : growth.base.IsRead
  levels : ∀ level ∈ growth.levels, level.body.element.IsRead ∧ level.row.IsRead
  note : ∀ note ∈ growth.note, ∃ line, Text.IsTidy line ∧ Line.read line = .note note.head ∧
    note.head.block = true ∧
    ∀ row ∈ note.text, Text.IsTidy row ∧ row ≠ note.head.kind.terminator

theorem IsRead.push {growth : Growth} {row : Grove} (h : growth.IsRead) (read : row.IsRead) :
    (growth.push row).IsRead := by
  obtain ⟨base, levels, note⟩ := growth
  cases levels with
  | nil => exact ⟨(Grove.isRead_append base row).2 ⟨h.base, read⟩, h.levels, h.note⟩
  | cons level outer =>
    refine ⟨h.base, ?_, h.note⟩
    have first := h.levels level List.mem_cons_self
    have around (other : Level) (mem : other ∈ outer) :=
      h.levels other (List.mem_cons_of_mem _ mem)
    intro other mem
    rcases List.mem_cons.1 mem with rfl | mem
    · exact ⟨first.1, (Grove.isRead_append _ row).2 ⟨first.2, read⟩⟩
    · exact around other mem

theorem IsRead.closeBlock {growth : Growth} (h : growth.IsRead) (lineEnd : Nat) :
    (growth.closeBlock lineEnd).IsRead := by
  obtain ⟨base, levels, note⟩ := growth
  cases levels with
  | nil => exact h
  | cons level outer =>
    have around : Growth.IsRead ⟨base, outer, note⟩ :=
      ⟨h.base, fun other mem => h.levels other (List.mem_cons_of_mem _ mem), h.note⟩
    exact around.push (Grove.isRead_close.2 (h.levels level List.mem_cons_self))

theorem IsRead.reads {number : Nat} {line : List Char} {growth growth' : Growth}
    (h : growth.IsRead) (tidy : Text.IsTidy line) (reads : Reads number line growth growth') :
    growth'.IsRead := by
  cases reads with
  | leaf element free read fits => exact h.push (Grove.isRead_leaf.2 (.line line tidy _ read))
  | openNote n free outside read block =>
    refine ⟨h.base, h.levels, fun note mem => ?_⟩
    obtain rfl : ⟨number, n, []⟩ = note := by simpa using mem
    exact ⟨line, tidy, read, block, by simp⟩
  | noteText note inside more =>
    obtain ⟨head, headTidy, read, block, text⟩ := h.note note inside
    refine ⟨h.base, h.levels, fun note' mem => ?_⟩
    obtain rfl : { note with text := line :: note.text } = note' := by simpa using mem
    refine ⟨head, headTidy, read, block, fun row mem => ?_⟩
    rcases List.mem_cons.1 mem with rfl | mem
    · exact ⟨tidy, more⟩
    · exact text row mem
  | closeNote note inside last =>
    obtain ⟨head, headTidy, read, block, text⟩ := h.note note inside
    have closed : ({ growth with note := none } : Growth).IsRead :=
      ⟨h.base, h.levels, by simp⟩
    exact closed.push (Grove.isRead_leaf.2 (.note head headTidy note read block text))
  | openBlock body free read fits =>
    refine ⟨h.base, fun level mem => ?_, h.note⟩
    rcases List.mem_cons.1 mem with rfl | mem
    · exact ⟨.head line tidy body read, Grove.isRead_nil⟩
    · exact h.levels level mem
  | clause clause free inside read =>
    exact h.push (Grove.isRead_mark.2 ⟨⟨line, tidy, read⟩, Grove.isRead_nil⟩)
  | closeBlock free inside last => exact h.closeBlock number
  | skip free inside read => exact h

end Growth

end SequenceDiagram
