import SequenceDiagram.Proofs.Arrangement
import SequenceDiagram.Proofs.Steps

set_option autoImplicit false

/-!
# Reading what was written

A neat grove is one that can be written: nothing but declarations and groups stands in its groups.
Its script is its lines without their indentation. Reading the script puts the grove back behind
what was read before, with the lines counted anew and with the errors, and some messages, read as
something else.
-/
namespace SequenceDiagram

open Text

namespace Element

def reread (element : Element) : Element :=
  match Line.read element.writeHead with
  | .comment text => .comment text
  | .message m => .message m
  | _ => element

variable {element : Element}

theorem IsSpelled.isTidy_writeHead (h : element.IsSpelled) : IsTidy element.writeHead := by
  cases element with
  | participant p => exact Participant.isTidy_write h
  | message m => exact Message.isTidy_write h
  | fragment f => exact Fragment.isTidy_writeHead h.1
  | group g => exact ParticipantGroup.isTidy_writeHead h
  | note n =>
    have tidy := Note.isTidy_writeHead h.1
    rwa [Note.writeHead_opening] at tidy
  | divider d => exact Divider.isTidy_write h
  | comment text => exact h
  | blankLine => exact isTidy_nil
  | directive d => exact Directive.isTidy_write h
  | error fault => exact h.choose_spec.2

/-- An element of one line is read again as one, which is no error. -/
theorem IsSpelled.reread (h : element.IsSpelled) (line : element.writeEnd? = none) :
    Line.IsOrdinary element.writeHead ∧ element.reread.IsLine element.writeHead ∧
      element.reread.isError = false := by
  unfold Element.reread
  cases element with
  | participant p =>
    obtain ⟨read, ordinary⟩ := Line.read_participant h
    change Line.IsOrdinary p.write ∧ _
    rw [show (Element.participant p).writeHead = p.write from rfl, read]
    exact ⟨ordinary, .participant p read, rfl⟩
  | message m =>
    obtain ⟨ordinary, ⟨text, -, read⟩ | ⟨-, m', -, read⟩⟩ := Line.read_message h
    · rw [show (Element.message m).writeHead = m.write from rfl, read]
      exact ⟨ordinary, .comment text read, rfl⟩
    · rw [show (Element.message m).writeHead = m.write from rfl, read]
      exact ⟨ordinary, .message m' read, rfl⟩
  | fragment f => contradiction
  | group g => contradiction
  | note n =>
    have single : n.block = false := by
      cases block : n.block with
      | false => rfl
      | true => simp [writeEnd?, block] at line
    obtain ⟨read, ordinary⟩ := Line.read_note h.1
    rw [Note.opening_of_line single] at read ordinary
    rw [show (Element.note n).writeHead = n.writeHead from rfl, read]
    exact ⟨ordinary, .note n read single, rfl⟩
  | divider d =>
    obtain ⟨read, ordinary⟩ := Line.read_divider h
    rw [show (Element.divider d).writeHead = d.write from rfl, read]
    exact ⟨ordinary, .divider d read, rfl⟩
  | comment text =>
    obtain ⟨read, ordinary⟩ := Line.read_slashes text.toList
    rw [String.ofList_toList] at read
    rw [show (Element.comment text).writeHead = '/' :: '/' :: text.toList from rfl, read]
    exact ⟨ordinary, .comment text read, rfl⟩
  | blankLine =>
    exact ⟨⟨by decide, rfl⟩, .blank rfl, rfl⟩
  | directive d =>
    obtain ⟨read, ordinary⟩ := Line.read_directive h
    rw [show (Element.directive d).writeHead = d.write from rfl, read]
    exact ⟨ordinary, .directive d read, rfl⟩
  | error fault =>
    obtain ⟨text, written, -⟩ := h
    obtain ⟨read, ordinary⟩ := Line.read_slashes text
    rw [← written] at read ordinary
    rw [show (Element.error fault).writeHead = fault.write from rfl, read]
    exact ⟨ordinary, .comment _ read, rfl⟩

/-- Containers, declarations and note blocks are read again as themselves. -/
theorem reread_fragment {f : Fragment} (h : (Element.fragment f).IsSpelled) :
    (Element.fragment f).reread = .fragment f := by
  have read := (Line.read_fragment h.1 h.2).1
  unfold Element.reread
  rw [show (Element.fragment f).writeHead = f.writeHead from rfl, read]

theorem reread_group {g : ParticipantGroup} (h : g.IsSpelled) :
    (Element.group g).reread = .group g := by
  have read := (Line.read_group h).1
  unfold Element.reread
  rw [show (Element.group g).writeHead = g.writeHead from rfl, read]

theorem reread_participant {p : Participant} (h : p.IsSpelled) :
    (Element.participant p).reread = .participant p := by
  have read := (Line.read_participant h).1
  unfold Element.reread
  rw [show (Element.participant p).writeHead = p.write from rfl, read]

theorem reread_note {n : Note} (h : n.opening.IsSpelled) : (Element.note n).reread = .note n := by
  have read := (Line.read_note h).1
  rw [Note.writeHead_opening] at read
  unfold Element.reread
  rw [show (Element.note n).writeHead = n.writeHead from rfl, read]

end Element

namespace Grove

/-- A row as it can be written: proper, and with no errors in groups. -/
def Neat : Place → Grove → Prop
  | _, .nil => True
  | place, .tree seed body next =>
    (match seed.element with
      | .fragment f => place ≠ .group ∧ (Element.fragment f).IsBare ∧ Neat .fragment body
      | .group g => (Element.group g).IsBare ∧ Neat .group body
      | .participant _ => body = .nil
      | _ => place ≠ .group ∧ body = .nil) ∧
    Neat place next
  | place, .mark clause next => place = .fragment ∧ clause.entries = [] ∧ Neat place next

structure IsSpelled (grove : Grove) : Prop where
  seeds : ∀ seed ∈ grove.labels, seed.element.IsSpelled
  clauses : ∀ clause ∈ grove.marks, clause.IsSpelled

def script : Grove → List (List Char)
  | .nil => []
  | .tree seed body next =>
    seed.element.writeHead :: (seed.element.writeBlockText ++ (script body ++
      (seed.element.writeEnd?.toList ++ script next)))
  | .mark clause next => clause.writeHead :: script next

/-- The row as it is read from its script when that begins on a line. -/
def regrow (line : Nat) : Grove → Grove
  | .nil => .nil
  | .tree seed body next =>
    let last := line + (seed.element.writeBlockText.length + (script body).length +
      seed.element.writeEnd?.toList.length)
    .tree ⟨seed.element.reread, line, last⟩
      (regrow (line + 1 + seed.element.writeBlockText.length) body) (regrow (last + 1) next)
  | .mark clause next => .mark clause (regrow (line + 1) next)

section
variable {first : Seed} {mark : ElseClause} {row after : Grove}

theorem IsSpelled.seed (h : IsSpelled (.tree first row after)) : first.element.IsSpelled :=
  h.seeds first (by simp [Forest.labels])

theorem IsSpelled.body (h : IsSpelled (.tree first row after)) : IsSpelled row where
  seeds other mem := h.seeds other (by simp [Forest.labels, mem])
  clauses other mem := h.clauses other (by simp [Forest.marks, mem])

theorem IsSpelled.next (h : IsSpelled (.tree first row after)) : IsSpelled after where
  seeds other mem := h.seeds other (by simp [Forest.labels, mem])
  clauses other mem := h.clauses other (by simp [Forest.marks, mem])

theorem IsSpelled.alone (h : IsSpelled (.tree first row after)) :
    IsSpelled (.tree first row .nil) where
  seeds other mem := by
    rw [Forest.labels, Forest.labels, List.append_nil, List.mem_cons] at mem
    rcases mem with rfl | mem
    · exact h.seed
    · exact h.body.seeds other mem
  clauses other mem := by
    rw [Forest.marks, Forest.marks, List.append_nil] at mem
    exact h.body.clauses other mem

theorem IsSpelled.clause (h : IsSpelled (.mark mark after)) : mark.IsSpelled :=
  h.clauses mark (by simp [Forest.marks])

theorem IsSpelled.behind (h : IsSpelled (.mark mark after)) : IsSpelled after where
  seeds := h.seeds
  clauses other mem := h.clauses other (by simp [Forest.marks, mem])

end

theorem trim_indented (depth : Nat) {line : List Char} (tidy : IsTidy line) :
    trim (indented depth line) = line ∧ '\n' ∉ indented depth line := by
  unfold indented
  by_cases none : line = []
  · rw [if_pos none, none]
    exact ⟨rfl, List.not_mem_nil⟩
  · rw [if_neg none]
    have blanks : ∀ c ∈ List.replicate (2 * depth) ' ', isBlank c = true := by
      intro c mem
      rw [List.eq_of_mem_replicate mem]
      exact isBlank_space
    refine ⟨?_, ?_⟩
    · have start : trimStart (List.replicate (2 * depth) ' ' ++ line) = line := by
        rw [trimStart, List.dropWhile_append_of_pos blanks]
        exact trimStart_eq_self_of_startsInk tidy.starts
      rw [trim, start, trimEnd_eq_self_of_endsInk tidy.ends]
    · rw [List.mem_append, not_or]
      refine ⟨fun mem => ?_, tidy.single⟩
      exact absurd (List.eq_of_mem_replicate mem) (by decide)

theorem isTidy_of_mem_rows {element : Element} (h : element.IsSpelled) {line : List Char}
    (mem : line ∈ element.writeBlockText) : IsTidy line := by
  cases element with
  | note n =>
    cases block : n.block with
    | false => simp [Element.writeBlockText, block] at mem
    | true => exact ((h.2 block).rows line mem).1
  | _ => simp [Element.writeBlockText] at mem

theorem isTidy_of_writeEnd? {element : Element} {line : List Char}
    (h : element.writeEnd? = some line) : IsTidy line := by
  have last : IsTidy "end".toList := (@IsKeyword.isWord "end" (by decide)).isTidy
  cases element with
  | fragment f => exact Option.some.inj h ▸ last
  | group g => exact Option.some.inj h ▸ last
  | note n =>
    have tidy : IsTidy n.kind.terminator := by
      cases n.kind <;> exact ⟨by unfold StartsInk; decide, by unfold EndsInk; decide, by decide⟩
    cases block : n.block with
    | false => simp [Element.writeEnd?, block] at h
    | true =>
      simp only [Element.writeEnd?, block, if_true, Option.some.injEq] at h
      exact h ▸ tidy
  | _ => simp [Element.writeEnd?] at h

/-- Trimming the written lines gives the script. -/
theorem trim_lines (depth : Nat) {grove : Grove} (h : grove.IsSpelled) :
    (Grove.lines depth grove).map trim = script grove ∧
      ∀ line ∈ Grove.lines depth grove, '\n' ∉ line := by
  have rows (depth : Nat) {written : List (List Char)} (tidy : ∀ line ∈ written, IsTidy line) :
      (written.map (indented depth)).map trim = written ∧
        ∀ line ∈ written.map (indented depth), '\n' ∉ line := by
    refine ⟨?_, ?_⟩
    · rw [List.map_map]
      refine (List.map_congr_left fun line mem => ?_).trans (List.map_id written)
      exact (trim_indented depth (tidy line mem)).1
    · intro line mem
      obtain ⟨plain, inside, rfl⟩ := List.mem_map.1 mem
      exact (trim_indented depth (tidy plain inside)).2
  induction grove generalizing depth with
  | nil => exact ⟨rfl, by simp [Grove.lines]⟩
  | tree seed body next ihb ihn =>
    have head := trim_indented depth h.seed.isTidy_writeHead
    obtain ⟨text, textSingle⟩ := rows (depth + 1) fun line mem => isTidy_of_mem_rows h.seed mem
    obtain ⟨last, lastSingle⟩ := @rows depth seed.element.writeEnd?.toList
      fun line mem => isTidy_of_writeEnd? (Option.mem_toList.1 mem)
    obtain ⟨inside, insideSingle⟩ := ihb (depth + 1) h.body
    obtain ⟨behind, behindSingle⟩ := ihn depth h.next
    rw [Grove.lines, script]
    refine ⟨?_, ?_⟩
    · simp only [List.map_cons, List.map_append, head.1, text, inside, last, behind,
        List.append_assoc]
    · intro line mem
      simp only [List.mem_cons, List.mem_append] at mem
      rcases mem with rfl | ((mem | mem) | mem) | mem
      · exact head.2
      · exact textSingle line mem
      · exact insideSingle line mem
      · exact lastSingle line mem
      · exact behindSingle line mem
  | mark clause next ih =>
    have head := trim_indented (depth - 1) (ElseClause.isTidy_writeHead h.clause)
    obtain ⟨behind, behindSingle⟩ := ih depth h.behind
    rw [Grove.lines, script]
    refine ⟨?_, ?_⟩
    · rw [List.map_cons, head.1, behind]
    · intro line mem
      rcases List.mem_cons.1 mem with rfl | mem
      · exact head.2
      · exact behindSingle line mem

end Grove

theorem Assembly.run_append (assembly : Assembly) (a b : List (List Char × Nat)) :
    assembly.run (a ++ b) = (assembly.run a).run b :=
  List.foldl_append

namespace Growth

theorem push_nil (growth : Growth) : growth.push .nil = growth := by
  obtain ⟨base, levels, note⟩ := growth
  cases levels <;> simp only [push, Forest.append_nil]

theorem push_push (growth : Growth) (a b : Grove) :
    (growth.push a).push b = growth.push (a.append b) := by
  obtain ⟨base, levels, note⟩ := growth
  cases levels <;> simp only [push, Forest.append_assoc]

theorem place_push (growth : Growth) (row : Grove) :
    place (growth.push row).levels = place growth.levels := by
  obtain ⟨base, levels, note⟩ := growth
  cases levels <;> rfl

theorem closeBlock_openBlock (growth : Growth) (body : BlockBody) (row : Grove)
    (line last : Nat) :
    ((growth.openBlock line body).push row).closeBlock last =
      growth.push (.tree ⟨body.element, line, last⟩ row .nil) := by
  obtain ⟨base, levels, note⟩ := growth
  simp only [openBlock, push, closeBlock, Level.close, Forest.append, Forest.append_nil]

section
variable (first : UInt32) {growth : Growth} (line : Nat)

theorem run_line (free : growth.note = none) {element : Element} (spelled : element.IsSpelled)
    (single : element.writeEnd? = none)
    (place : growth.inGroup = true → element.isParticipant = true) :
    (growth.assembly first).run [(element.writeHead, line)] =
      (growth.push (.leaf ⟨element.reread, line, line⟩)).assembly first := by
  obtain ⟨ordinary, read, sound⟩ := spelled.reread single
  by_cases inside : growth.inGroup = true
  · cases element with
    | participant p =>
      have again := Line.read_participant spelled
      rw [Element.reread_participant spelled]
      exact step_member first line free inside again.2 again.1
    | _ => exact absurd (place inside) Bool.false_ne_true
  · exact step_leaf first line free (by simpa using inside) ordinary read sound

theorem run_rows {note : OpenNote} (inside : growth.note = some note) {rows : List (List Char)}
    (more : ∀ row ∈ rows, row ≠ note.head.kind.terminator) :
    (growth.assembly first).run (rows.zipIdx line) =
      ({ growth with note := some { note with text := rows.reverse ++ note.text } } :
        Growth).assembly first := by
  induction rows generalizing growth line note with
  | nil =>
    obtain ⟨base, levels, open'⟩ := growth
    obtain rfl : open' = some note := inside
    rfl
  | cons row rows ih =>
    have step := step_row first line inside (more row List.mem_cons_self)
    have later := @ih { growth with
      note := some { note with text := row :: note.text } } (line + 1) _ rfl
      fun other mem => more other (List.mem_cons_of_mem _ mem)
    rw [List.zipIdx_cons, Assembly.run, List.foldl_cons, step]
    rw [Assembly.run] at later
    rw [later]
    simp

theorem run_noteBlock (free : growth.note = none) (outside : growth.inGroup = false) {n : Note}
    (spelled : (Element.note n).IsSpelled) (block : n.block = true) :
    (growth.assembly first).run
        ((n.writeHead :: (n.rows ++ [n.kind.terminator])).zipIdx line) =
      (growth.push (.leaf ⟨.note n, line, line + 1 + n.rows.length⟩)).assembly first := by
  obtain ⟨read, ordinary⟩ := Line.read_note spelled.1
  rw [Note.writeHead_opening] at read ordinary
  have text := spelled.2 block
  have opened := step_openNote first line free outside ordinary read block
  have rows := @run_rows first { growth with note := some ⟨line, n.opening, []⟩ } (line + 1) _ rfl _
    fun row mem => (text.rows row mem).2
  have closed := @step_closeNote first { growth with
    note := some ⟨line, n.opening, n.rows.reverse ++ []⟩ } (line + 1 + n.rows.length) _ rfl outside
  have complete : (OpenNote.mk line n.opening (n.rows.reverse ++ [])).complete = .note n := by
    unfold OpenNote.complete
    rw [List.append_nil, List.reverse_reverse, text.text]
    rfl
  rw [complete] at closed
  obtain ⟨base, levels, open'⟩ := growth
  obtain rfl : open' = none := free
  rw [List.zipIdx_cons, List.zipIdx_append, Assembly.run, List.foldl_cons, opened,
    ← Assembly.run, Assembly.run_append, rows, Assembly.run]
  exact closed

theorem run_block (free : growth.note = none) {body : BlockBody}
    (read : body.IsHead body.element.writeHead)
    (ordinary : Line.IsOrdinary body.element.writeHead)
    (fits : growth.inGroup = true → body.isGroup = true) {row : Grove} {rows : List (List Char)}
    (inside : ((growth.openBlock line body).assembly first).run (rows.zipIdx (line + 1)) =
      ((growth.openBlock line body).push row).assembly first) :
    (growth.assembly first).run
        ((body.element.writeHead :: (rows ++ ["end".toList])).zipIdx line) =
      (growth.push (.tree ⟨body.element, line, line + 1 + rows.length⟩ row .nil)).assembly
        first := by
  have opened := step_openBlock first line free ordinary read fits
  have within : ((growth.openBlock line body).push row).levels ≠ [] := by
    simp [openBlock, push]
  have closed := @step_end first ((growth.openBlock line body).push row) (line + 1 + rows.length)
    ((note_push _ row).trans free) within
  rw [closeBlock_openBlock] at closed
  rw [List.zipIdx_cons, List.zipIdx_append, Assembly.run, List.foldl_cons, opened,
    ← Assembly.run, Assembly.run_append, inside, Assembly.run]
  exact closed

theorem run_clause (free : growth.note = none) (inside : growth.inFragment = true)
    {clause : ElseClause} (spelled : clause.IsSpelled) :
    (growth.assembly first).step line clause.writeHead =
      (growth.push (.mark clause .nil)).assembly first :=
  step_else first line free inside (ElseClause.readHead?_writeHead spelled)

theorem inFragment_of_place (h : place growth.levels = .fragment) : growth.inFragment = true := by
  obtain ⟨base, levels, note⟩ := growth
  cases levels with
  | nil => contradiction
  | cons level outer =>
    obtain ⟨line, body, row⟩ := level
    cases body with
    | fragment f => rfl
    | group g => contradiction

theorem run_tree (free : growth.note = none) {seed : Seed} {body : Grove}
    (neat : Grove.Neat (place growth.levels) (.tree seed body .nil))
    (spelled : Grove.IsSpelled (.tree seed body .nil))
    (inside : ∀ {growth' : Growth}, growth'.note = none → Grove.Neat (place growth'.levels) body →
      ∀ line, (growth'.assembly first).run ((Grove.script body).zipIdx line) =
        (growth'.push (Grove.regrow line body)).assembly first) :
    (growth.assembly first).run ((Grove.script (.tree seed body .nil)).zipIdx line) =
      (growth.push (Grove.regrow line (.tree seed body .nil))).assembly first := by
  have spelledSeed := spelled.seed
  have member := place_eq_group_iff growth
  have leaf (single : seed.element.writeEnd? = none) (none : body = .nil)
      (rows : seed.element.writeBlockText = [])
      (fits : growth.inGroup = true → seed.element.isParticipant = true) :
      (growth.assembly first).run ((Grove.script (.tree seed body .nil)).zipIdx line) =
        (growth.push (Grove.regrow line (.tree seed body .nil))).assembly first := by
    have read := run_line first line free spelledSeed single fits
    simpa [none, Grove.script, Grove.regrow, rows, single, Forest.leaf] using read
  obtain ⟨element, lineStart, lineEnd⟩ := seed
  have outside (free : place growth.levels ≠ .group) (b : Bool) : growth.inGroup = true → b = true :=
    fun grouped => absurd (member.2 grouped) free
  cases element with
  | fragment f =>
    obtain ⟨free', -, neat⟩ := neat.1
    obtain ⟨read, ordinary⟩ := Line.read_fragment spelledSeed.1 spelledSeed.2
    have under := @inside (growth.openBlock line (.fragment f)) free neat (line + 1)
    have block := @run_block first _ line free (.fragment f) (.fragment f read) ordinary
      (outside free' _) _ _ under
    rw [Grove.regrow, Element.reread_fragment spelledSeed]
    simpa [Grove.script, BlockBody.element, Element.writeBlockText, Element.writeEnd?,
      Grove.regrow, Nat.add_assoc, Nat.add_comm 1] using block
  | group g =>
    obtain ⟨-, neat⟩ := neat.1
    obtain ⟨read, ordinary⟩ := Line.read_group spelledSeed
    have under := @inside (growth.openBlock line (.group g)) free neat (line + 1)
    have block := @run_block first _ line free (.group g) (.group g read) ordinary
      (fun _ => rfl) _ _ under
    rw [Grove.regrow, Element.reread_group spelledSeed]
    simpa [Grove.script, BlockBody.element, Element.writeBlockText, Element.writeEnd?,
      Grove.regrow, Nat.add_assoc, Nat.add_comm 1] using block
  | note n =>
    obtain ⟨free', none⟩ := neat.1
    cases block : n.block with
    | false =>
      exact leaf (by simp [Element.writeEnd?, block]) none (by simp [Element.writeBlockText, block])
        (outside free' _)
    | true =>
      have notGroup : growth.inGroup = false := by
        rw [← Bool.not_eq_true]
        exact fun grouped => free' (member.2 grouped)
      have read := run_noteBlock first line free notGroup spelledSeed block
      rw [none, Grove.regrow, Element.reread_note spelledSeed.1]
      simpa [Grove.script, Note.rows, Element.writeHead, Element.writeEnd?, block, Grove.regrow,
        Forest.leaf, Nat.add_assoc, Nat.add_comm 1] using read
  | participant p => exact leaf rfl neat.1 rfl fun _ => rfl
  | _ => exact leaf rfl neat.1.2 rfl (outside neat.1.1 _)

/-- Reading the script of a row that can be written puts the row behind what was read before. -/
theorem run_script {grove : Grove} (free : growth.note = none)
    (neat : grove.Neat (place growth.levels)) (spelled : Grove.IsSpelled grove) :
    (growth.assembly first).run ((Grove.script grove).zipIdx line) =
      (growth.push (Grove.regrow line grove)).assembly first := by
  induction grove generalizing growth line with
  | nil => rw [Grove.regrow, push_nil]; rfl
  | tree seed body next ihb ihn =>
    have single : Grove.IsSpelled (.tree seed body .nil) :=
      spelled.alone
    have head := run_tree first line free ⟨neat.1, trivial⟩ single fun free' neat' line' =>
      ihb line' free' neat' spelled.body
    let last := line + (seed.element.writeBlockText.length + (Grove.script body).length +
      seed.element.writeEnd?.toList.length)
    have behind := @ihn (growth.push (Grove.regrow line (.tree seed body .nil))) (last + 1)
      ((note_push _ _).trans free) (by rw [place_push]; exact neat.2) spelled.next
    have parts : Grove.script (.tree seed body next) =
        Grove.script (.tree seed body .nil) ++ Grove.script next := by
      simp [Grove.script]
    have count : line + (Grove.script (.tree seed body .nil)).length = last + 1 := by
      simp only [Grove.script, List.length_cons, List.length_append, List.length_nil, last]
      omega
    rw [parts, List.zipIdx_append, Assembly.run_append, head, count, behind, push_push]
    rfl
  | mark clause next ih =>
    obtain ⟨inside, -, neat⟩ := neat
    have head := run_clause first line free (inFragment_of_place inside) spelled.clause
    have behind := @ih (growth.push (.mark clause .nil)) (line + 1)
      ((note_push _ _).trans free) (by rw [place_push, inside]; exact inside ▸ neat) spelled.behind
    rw [Grove.script, List.zipIdx_cons, Assembly.run, List.foldl_cons, head, ← Assembly.run, behind,
      push_push]
    rfl

end

end Growth

namespace Document

/-- A text that is written from a grove is read as the grove with its lines counted anew. -/
theorem readFrom_lines (first : UInt32) {grove : Grove} (neat : grove.Neat .top)
    (spelled : Grove.IsSpelled grove) :
    readFrom first (String.ofList ((grove.lines 0).flatMap fun line => line ++ ['\n'])) =
      ⟨(Grove.regrow 1 grove).plant first 0⟩ := by
  obtain ⟨trimmed, single⟩ := Grove.trim_lines 0 spelled
  have numbered : Text.numberedLines (String.ofList ((grove.lines 0).flatMap fun line =>
      line ++ ['\n'])).toList = (Grove.script grove).zipIdx 1 := by
    rw [Text.numberedLines, String.toList_ofList, Text.lines_flatMap single, trimmed]
  have run := @Growth.run_script first Growth.start 1 _ rfl neat spelled
  rw [Growth.assembly_start] at run
  rw [readFrom, numbered, run]
  change Document.mk (Growth.nodes first (Forest.append .nil (Grove.regrow 1 grove)) []) = _
  rfl

end Document

end SequenceDiagram
