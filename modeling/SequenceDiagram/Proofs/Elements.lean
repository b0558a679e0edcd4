import SequenceDiagram.Proofs.Lines
import SequenceDiagram.Proofs.Soundness
import SequenceDiagram.Script.Writer

set_option autoImplicit false

namespace SequenceDiagram

open Text

namespace Note

def opening (n : Note) : Note :=
  { n with text := if n.block then "" else n.text }

theorem opening_of_line {n : Note} (line : n.block = false) : n.opening = n := by
  unfold opening
  rw [if_neg (by simp [line])]

theorem writeHead_opening (n : Note) : n.opening.writeHead = n.writeHead := by
  unfold writeHead opening
  cases n.block <;> rfl

def rows (n : Note) : List (List Char) :=
  Element.writeBlockText (.note n)

structure IsBlockText (n : Note) : Prop where
  rows : ∀ row ∈ n.rows, IsTidy row ∧ row ≠ n.kind.terminator
  text : String.ofList (join ['\n'] n.rows) = n.text

end Note

namespace Element

def IsSpelled : Element → Prop
  | .participant p => p.IsSpelled
  | .message m => m.IsSpelled
  | .fragment f => f.IsSpelled ∧ Note.read? f.writeHead = none
  | .group g => g.IsSpelled
  | .note n => n.opening.IsSpelled ∧ (n.block = true → n.IsBlockText)
  | .divider d => d.IsSpelled
  | .comment text => IsTidy ('/' :: '/' :: text.toList)
  | .blankLine => True
  | .directive d => d.IsSpelled
  | .error fault => ∃ text, fault.write = '/' :: '/' :: text ∧ IsTidy fault.write

end Element

theorem Note.read?_congr {a b : List Char} (h : nextWord? a = nextWord? b) :
    Note.read? a = Note.read? b := by
  rw [Note.read?, Note.read?, h]

theorem NotePosition.read?_eq_none {text word rest : List Char}
    (first : nextWord? text = some (word, rest)) (styled : StyleRun.looksLikeStyle word = true) :
    NotePosition.read? text = none := by
  have ne {keyword : List Char} (plain : StyleRun.looksLikeStyle keyword = false) :
      word ≠ keyword := by
    rintro rfl
    rw [plain] at styled
    contradiction
  rw [NotePosition.read?, first, Option.bind_eq_bind, Option.bind_some]
  simp only
  rw [if_neg (ne (by decide))]
  cases afterKeyword? "of".toList rest with
  | none => rfl
  | some after =>
    rw [Option.bind_eq_bind, Option.bind_some, if_neg (ne (by decide)), if_neg (ne (by decide))]

theorem NoteKind.keyword_ref {type : FragmentType} {kind : NoteKind}
    (h : type.keyword.toList = kind.keyword.toList) : type = .ref := by
  cases type with
  | ref => rfl
  | _ => cases kind <;> exact absurd h (by decide)

namespace Fragment

variable {f : Fragment}

theorem operatorColor_of_parts {style : Option Style} {color : Option String}
    (h : Style.IsOptional style) :
    (withOperatorColor style color).bind Style.operatorColor = color := by
  cases color with
  | some c => rfl
  | none =>
    cases style with
    | none => rfl
    | some s => exact (h s rfl).1.noOperatorColor

theorem optionalWords_withOperatorColor {style : Option Style} {color : Option String} :
    Style.optionalWords (withOperatorColor style color) = Style.optionalWords style := by
  cases color with
  | none => rfl
  | some c => cases style <;> rfl

theorem optionalWords_eq_nil {style : Option Style} (h : Style.IsOptional style)
    (none : Style.optionalWords style = []) : style = .none := by
  have read := Style.readOptional?_optionalWords h
  rw [none] at read
  exact (Option.some.inj read).symm

/-- A head of which only the keyword and the condition are written begins as it was read. -/
theorem first_of_bare {line : List Char} (tidy : IsTidy line) (read : readHead? line = some f)
    (ref : f.type = .ref) (bare : f.leadTail = []) (unstyled : Style.optionalWords f.style = []) :
    nextWord? line = some (f.writeLead, f.condition.toList) := by
  obtain ⟨⟨word, rest⟩, first, h⟩ := Option.bind_eq_some_iff.1 read
  obtain ⟨lead, led, h⟩ := Option.bind_eq_some_iff.1 h
  obtain ⟨⟨style, condition⟩, conditioned, made⟩ := Option.bind_eq_some_iff.1 h
  have spelled := isSpelled_of_readHead? tidy read
  have tidyRest := tidy.of_suffix (suffix_of_nextWord? first) (startsInk_of_nextWord? first)
  have optional := (isSpelled_of_readCondition? tidyRest conditioned).2
  obtain ⟨mark, parts, -, unmarked⟩ := parts_of_readLead? led
  have made := (Option.some.inj made).symm
  have type : lead.type = .ref := by rw [← ref, made]
  have collapsed : lead.collapsed = none := by
    have set := spelled.collapsed
    rw [made] at set
    simpa [type] using set
  have color : Style.colorWord lead.operatorColor = [] := by
    have tail := (List.append_eq_nil_iff.1 bare).2
    rwa [made, operatorColor_of_parts optional] at tail
  have word_eq : word = f.writeLead := by
    rw [writeLead_eq, bare, parts, unmarked collapsed, color, made]
    simp
  obtain ⟨style', styled, same⟩ := Option.bind_eq_some_iff.1 conditioned
  obtain ⟨rfl, rfl⟩ := Prod.mk.inj (Option.some.inj same)
  have none : style' = none := by
    refine optionalWords_eq_nil optional ?_
    rwa [made, optionalWords_withOperatorColor] at unstyled
  rw [none] at styled
  have run := Style.eq_nil_of_readOptional?_none styled
  have whole : (StyleRun.splitLeading rest).2 = rest := by
    have split : StyleRun.splitLeading rest = ([], (StyleRun.splitLeading rest).2) :=
      Prod.ext run rfl
    rw [StyleRun.eq_trimStart_of_splitWhile split,
      trimStart_eq_self_of_startsInk tidyRest.starts]
  have condition : f.condition.toList = rest := by
    rw [made, String.toList_ofList]
    exact whole
  rw [first, word_eq, condition]

theorem unnoted {line : List Char} (tidy : IsTidy line) (read : readHead? line = some f)
    (unnoted : Note.read? line = none) : Note.read? f.writeHead = none := by
  have h := isSpelled_of_readHead? tidy read
  have keyword := FragmentType.isKeyword_keyword f.type
  have first : nextWord? f.writeHead =
      some (f.writeLead, wordsThen (Style.optionalWords f.style) f.condition.toList) := by
    rw [writeHead_eq h]
    exact nextWord?_wordsThen (isWord_of_mem_head h) h.condition.tidy.starts
  by_cases kind : ∃ kind ∈ NoteKind.all, f.writeLead = kind.keyword.toList
  · obtain ⟨kind, -, lead⟩ := kind
    have bare : f.leadTail = [] := by
      cases tail : f.leadTail with
      | nil => rfl
      | cons c rest =>
        have other := foreign_leadTail h c (by rw [tail]; rfl)
        have mem : c ∈ kind.keyword.toList := by
          rw [← lead, writeLead_eq, tail]
          simp
        rw [(Note.isKeyword_keyword kind).isAlphanum mem] at other
        contradiction
    rw [writeLead_eq, bare, List.append_nil] at lead
    have ref := NoteKind.keyword_ref lead
    cases words : Style.optionalWords f.style with
    | cons word words =>
      have looks : StyleRun.looksLikeStyle word = true := by
        have mem : word ∈ Style.optionalWords (Style.boxPart f.style) := by
          rw [Style.optionalWords_boxPart, words]
          exact List.mem_cons_self
        exact (h.style.isOptional_boxPart.isStyleWord mem).looks
      have spelled := fun other mem => isWord_of_mem_head h other (List.mem_cons_of_mem _ mem)
      rw [words] at first spelled
      have position := NotePosition.read?_eq_none
        (nextWord?_wordsThen spelled h.condition.tidy.starts) looks
      rw [Note.read?, first, Option.bind_eq_bind, Option.bind_some]
      simp [position]
    | nil =>
      rw [words] at first
      rw [← unnoted]
      refine Note.read?_congr (first.trans (Eq.symm ?_))
      exact first_of_bare tidy read ref bare words
  · exact Note.read?_eq_none first fun other mem same => kind ⟨other, mem, same⟩

end Fragment

theorem SyntaxFault.write_of_text {fault : SyntaxFault} {line : List Char} (some : line ≠ [])
    (tidy : IsTidy line) (text : fault.text = String.ofList line) :
    ∃ text, fault.write = '/' :: '/' :: text ∧ IsTidy fault.write := by
  have nonempty : fault.text ≠ "" := by
    intro none
    rw [text] at none
    have empty := congrArg String.toList none
    rw [String.toList_ofList] at empty
    exact some empty
  have write : fault.write = ['/', '/'] ++ line := by
    rw [write, if_neg nonempty, text]
    change ['/', '/'] ++ (String.ofList line).toList = _
    rw [String.toList_ofList]
  refine ⟨line, write, ?_⟩
  rw [write]
  refine ⟨startsInk_cons.2 (by decide), (endsInk_append some).2 tidy.ends, ?_⟩
  simp [tidy.single]

theorem SyntaxFault.write_of_message {fault : SyntaxFault} (text : fault.text = "")
    {front back : List Char} (made : fault.message.toList = front ++ back) (word : IsWord back)
    (single : '\n' ∉ front) : ∃ text, fault.write = '/' :: '/' :: text ∧ IsTidy fault.write := by
  have write : fault.write = ['/', '/', ' '] ++ fault.message.toList := by
    rw [write, if_pos text]
    rfl
  refine ⟨' ' :: fault.message.toList, write, ?_⟩
  rw [write, made]
  refine ⟨startsInk_cons.2 (by decide), ?_, ?_⟩
  · rw [← List.append_assoc, endsInk_append word.nonempty]
    exact word.endsInk
  · simp [single, word.single]

theorem single_toString (n : Nat) : '\n' ∉ (toString n).toList := by
  intro mem
  have digits : (toString n).toList = writeNat n := Nat.toList_repr
  rw [digits] at mem
  exact ne_of_isDigit (isDigit_of_mem_writeNat mem) (by decide) rfl

theorem single_keyword (body : BlockBody) : '\n' ∉ body.keyword.toList := by
  cases body with
  | fragment f => exact (FragmentType.isKeyword_keyword f.type).isWord.single
  | group g => exact (@IsKeyword.isWord ParticipantGroup.keyword (by decide)).single

namespace Element

theorem isTidy_slashes {text : List Char} (tidy : IsTidy ('#' :: text)) :
    IsTidy ('/' :: '/' :: text) := by
  refine ⟨startsInk_cons.2 (by decide), ?_, ?_⟩
  · cases text with
    | nil => exact IsWord.endsInk ⟨List.cons_ne_nil _ _, by decide⟩
    | cons c text => exact tidy.ends
  · have single := tidy.single
    rw [List.mem_cons, not_or] at single
    simp [single.2]

theorem isSpelled_of_isLine {line : List Char} (tidy : IsTidy line) {element : Element}
    (h : element.IsLine line) : element.IsSpelled := by
  cases h with
  | blank _ => exact trivial
  | comment text read =>
    rcases Line.eq_of_readComment? (Line.read_eq_comment_iff.1 read) with rfl | rfl
    · exact tidy
    · exact isTidy_slashes tidy
  | directive d read => exact Directive.isSpelled_of_read? tidy (Line.read_eq_directive_iff.1 read).2.2
  | divider d read => exact Divider.isSpelled_of_read? tidy.single (Line.read_eq_divider_iff.1 read).2
  | note n read block =>
    have spelled := Note.isSpelled_of_read? tidy.single (Line.read_eq_note_iff.1 read).2.2
    refine ⟨?_, by simp [block]⟩
    rw [Note.opening_of_line block]
    exact spelled
  | participant p read =>
    exact Participant.isSpelled_of_read? tidy.single (Line.read_eq_participant_iff.1 read).2.2.2.2.2
  | message m read =>
    exact Message.isSpelled_of_read? tidy.single (Line.read_eq_message_iff.1 read).2.2.2.2.2.2
  | fault fault some => exact SyntaxFault.write_of_text some tidy rfl

theorem isSpelled_of_isHead {line : List Char} (tidy : IsTidy line) {body : BlockBody}
    (h : body.IsHead line) : body.element.IsSpelled := by
  cases h with
  | fragment f read =>
    obtain ⟨-, -, unnoted, read⟩ := Line.read_eq_fragment_iff.1 read
    exact ⟨Fragment.isSpelled_of_readHead? tidy read, Fragment.unnoted tidy read unnoted⟩
  | group g read =>
    exact ParticipantGroup.isSpelled_of_readHead? tidy (Line.read_eq_group_iff.1 read).2.2.2.2

theorem isBlockText_of_join {n : Note} {rows : List (List Char)} (block : n.block = true)
    (text : n.text = String.ofList (join ['\n'] rows))
    (h : ∀ row ∈ rows, IsTidy row ∧ row ≠ n.kind.terminator) : n.IsBlockText := by
  by_cases empty : n.text = ""
  · have none : n.rows = [] := by
      unfold Note.rows writeBlockText
      simp [empty]
    refine ⟨by simp [none], ?_⟩
    rw [none, empty]
    rfl
  · have some : rows ≠ [] := by
      rintro rfl
      exact empty text
    have trimmed : rows.map trim = rows := by
      refine (List.map_congr_left fun row mem => ?_).trans (List.map_id rows)
      exact (h row mem).1.trim_eq
    have same : n.rows = rows := by
      unfold Note.rows writeBlockText
      simp only [block, Bool.true_and, ne_eq, empty, not_false_eq_true, decide_true, if_true]
      rw [text, String.toList_ofList, split_join some fun row mem => (h row mem).1.single, trimmed]
    exact ⟨same ▸ h, by rw [same, text]⟩

theorem IsRead.isSpelled {element : Element} (h : element.IsRead) : element.IsSpelled := by
  cases h with
  | line line tidy element read => exact isSpelled_of_isLine tidy read
  | head line tidy body read => exact isSpelled_of_isHead tidy read
  | note line tidy note read block text =>
    have spelled := Note.isSpelled_of_read? tidy.single (Line.read_eq_note_iff.1 read).2.2
    refine ⟨?_, fun _ => isBlockText_of_join block rfl
      fun row mem => text row (List.mem_reverse.1 mem)⟩
    have opening : ({ note.head with text := String.ofList (join ['\n'] note.text.reverse) } :
        Note).opening = note.head := by
      unfold Note.opening
      rw [if_pos block, ← spelled.block block]
    rw [opening]
    exact spelled
  | unterminatedBlock body line =>
    refine @SyntaxFault.write_of_message _ rfl ("unterminated " ++ body.keyword ++
      " block opened on line " ++ toString line ++ ": missing ").toList "`end`".toList
      ?_ ⟨by decide, by decide⟩ ?_
    · simp only [String.toList_append, List.append_assoc]
      rfl
    · simp only [String.toList_append, List.mem_append, not_or]
      exact ⟨⟨⟨⟨by decide, single_keyword body⟩, by decide⟩, single_toString line⟩, by decide⟩
  | unterminatedNote kind line =>
    refine @SyntaxFault.write_of_message _ rfl ("unterminated note opened on line " ++
      toString line ++ ": missing `" ++ String.ofList kind.terminator).toList
      "`".toList ?_ ⟨by decide, by decide⟩ ?_
    · simp only [String.toList_append]
    · simp only [String.toList_append, List.mem_append, not_or, String.toList_ofList]
      refine ⟨⟨⟨by decide, single_toString line⟩, by decide⟩, ?_⟩
      cases kind <;> decide

end Element

end SequenceDiagram
