import SequenceDiagram.Proofs.BlockHeads
import SequenceDiagram.Proofs.Directives
import SequenceDiagram.Proofs.FirstMatch
import SequenceDiagram.Proofs.Messages
import SequenceDiagram.Proofs.Notes
import SequenceDiagram.Proofs.Participants

set_option autoImplicit false

namespace SequenceDiagram

open Text

section
variable {line word rest : List Char}

theorem Divider.read?_eq_none (h : line.head? ≠ some '=') : read? line = none := by
  have split := StyleRun.split_splitTrailing line
  have bars : readText? (StyleRun.splitTrailing line).1 = none := by
    cases found : readText? (StyleRun.splitTrailing line).1 with
    | none => rfl
    | some text =>
      obtain ⟨tail, parts⟩ := split.front
      rw [eq_of_readText? found] at parts
      exact absurd (by rw [← parts]; rfl) h
  rw [read?]
  simp [bars]

theorem Note.read?_eq_none (first : nextWord? line = some (word, rest))
    (h : ∀ kind ∈ NoteKind.all, word ≠ kind.keyword.toList) : read? line = none := by
  have kind : NoteKind.ofKeyword? (String.ofList word) = none := by
    refine List.find?_eq_none.2 fun kind mem same => h kind mem ?_
    rw [of_decide_eq_true same, String.toList_ofList]
  rw [read?, first]
  simp [kind]

theorem Fragment.readHead?_eq_none (first : nextWord? line = some (word, rest))
    (h : readLead? word = none) : readHead? line = none := by
  rw [readHead?, first]
  simp [h]

theorem ParticipantGroup.readHead?_eq_none (first : nextWord? line = some (word, rest))
    (h : word ≠ keyword.toList) : readHead? line = none := by
  rw [readHead?, afterKeyword?, first]
  simp [h]

def Participant.keywords : List String :=
  ParticipantShape.all.map ParticipantShape.keyword ++ IconSet.all.map IconSet.keyword ++ ["image"]

theorem Participant.read?_eq_none (first : nextWord? line = some (word, rest))
    (h : ∀ keyword ∈ keywords, word ≠ keyword.toList) : read? line = none := by
  have shape : ParticipantShape.ofKeyword? (String.ofList word) = none := by
    refine List.find?_eq_none.2 fun shape mem same => h shape.keyword ?_ ?_
    · exact List.mem_append_left _ (List.mem_append_left _ (List.mem_map_of_mem mem))
    · rw [of_decide_eq_true same, String.toList_ofList]
  have icon : IconSet.ofKeyword? (String.ofList word) = none := by
    refine List.find?_eq_none.2 fun set mem same => h set.keyword ?_ ?_
    · exact List.mem_append_left _ (List.mem_append_right _ (List.mem_map_of_mem mem))
    · rw [of_decide_eq_true same, String.toList_ofList]
  have image : String.ofList word ≠ "image" := by
    intro same
    refine h "image" (List.mem_append_right _ List.mem_cons_self) ?_
    rw [← same, String.toList_ofList]
  rw [read?, ParticipantType.read?, first]
  simp [shape, icon, image]

structure Line.IsOrdinary (line : List Char) : Prop where
  notEnd : line ≠ "end".toList
  notElse : afterKeyword? "else".toList line = none

theorem Line.isOrdinary_of_first (first : nextWord? line = some (word, rest))
    (notEnd : word ≠ "end".toList) (notElse : word ≠ "else".toList) : IsOrdinary line where
  notEnd := by
    rintro rfl
    rw [nextWord?_word (IsKeyword.isWord (by decide))] at first
    exact notEnd (Prod.mk.inj (Option.some.inj first)).1.symm
  notElse := afterKeyword?_eq_none fun rest' first' => by
    rw [first] at first'
    exact notElse (Prod.mk.inj (Option.some.inj first')).1

theorem Line.readComment?_eq_none (h : line.head? ≠ some '/' ∧ line.head? ≠ some '#') :
    readComment? line = none := by
  unfold readComment?
  split
  · exact absurd rfl h.1
  · exact absurd rfl h.2
  · rfl

theorem head?_of_first (starts : StartsInk line) (first : nextWord? line = some (word, rest)) :
    line.head? = word.head? := by
  obtain ⟨gap, parts, -⟩ := exists_gap_of_nextWord? first
  obtain ⟨c, word', rfl⟩ := List.exists_cons_of_ne_nil (isWord_of_nextWord? first).nonempty
  rw [trimStart_eq_self_of_startsInk starts] at parts
  rw [parts]
  rfl

structure Line.IsLead (word : List Char) : Prop where
  divider : word.head? ≠ some '='
  directive : ∀ keyword ∈ Directive.keywords, word ≠ keyword.toList
  ordinary : word ≠ "end".toList ∧ word ≠ "else".toList

theorem Line.IsLead.isPlain (lead : IsLead word) (starts : StartsInk line)
    (first : nextWord? line = some (word, rest)) (comment : readComment? line = none) :
    IsPlain line ∧ Divider.read? line = none := by
  have head := head?_of_first starts first
  refine ⟨⟨?_, comment, Directive.read?_eq_none first lead.directive⟩,
    Divider.read?_eq_none (head ▸ lead.divider)⟩
  rintro rfl
  contradiction

theorem Line.IsLead.isOrdinary (lead : IsLead word) (first : nextWord? line = some (word, rest)) :
    IsOrdinary line :=
  isOrdinary_of_first first lead.ordinary.1 lead.ordinary.2

theorem exists_nextWord? (starts : StartsInk line) (some : line ≠ []) :
    ∃ word rest, nextWord? line = .some (word, rest) := by
  cases first : nextWord? line with
  | none =>
    rw [nextWord?_eq_none_iff, trimStart_eq_self_of_startsInk starts] at first
    exact absurd first some
  | some parts => exact ⟨parts.1, parts.2, rfl⟩

end

namespace Line

theorem head?_keyword {keyword : String} (h : IsKeyword keyword) (tail : List Char) {d : Char}
    (other : d.isAlphanum = false) : (keyword.toList ++ tail).head? ≠ some d := by
  obtain ⟨c, rest, parts⟩ := List.exists_cons_of_ne_nil h.1
  have letter := h.isAlphanum (c := c) (by rw [parts]; exact List.mem_cons_self)
  rw [parts, List.cons_append, List.head?_cons]
  intro same
  rw [Option.some.inj same, other] at letter
  contradiction

theorem read_directive {d : Directive} (h : d.IsSpelled) :
    read d.write = .directive d ∧ IsOrdinary d.write := by
  have keyword := d.isKeyword_keyword
  have first : nextWord? d.write = some (d.keyword.toList, d.payload) := by
    rw [Directive.write_eq h]
    exact nextWord?_wordsThen (by simpa using keyword.isWord) (Directive.isTidy_payload h).starts
  have head := head?_of_first (Directive.isTidy_write h).starts first
  have letter := fun {d : Char} => head?_keyword keyword [] (d := d)
  rw [List.append_nil] at letter
  have blocks : "end" ∉ Directive.keywords ∧ "else" ∉ Directive.keywords := by decide
  refine ⟨read_eq_directive_iff.2 ⟨?_, ?_, Directive.read?_write h⟩,
    isOrdinary_of_first first ?_ ?_⟩
  · intro none
    rw [none] at first
    contradiction
  · rw [readComment?_eq_none]
    rw [head]
    exact ⟨letter (by decide), letter (by decide)⟩
  · intro same
    exact blocks.1 (String.toList_inj.1 same ▸ d.keyword_mem)
  · intro same
    exact blocks.2 (String.toList_inj.1 same ▸ d.keyword_mem)

theorem ne_keyword {word keyword : List Char} {c : Char} (mem : c ∈ word)
    (other : c.isAlphanum = false) (h : ∀ d ∈ keyword, d.isAlphanum = true) : word ≠ keyword := by
  rintro rfl
  rw [h c mem] at other
  contradiction

theorem ne_of_foreign {word : List Char} {c : Char} (mem : c ∈ word) (other : c.isAlphanum = false) :
    (∀ keyword ∈ Directive.keywords, word ≠ keyword.toList) ∧
      word ≠ "end".toList ∧ word ≠ "else".toList := by
  have keyword {keyword : String} (h : IsKeyword keyword) : word ≠ keyword.toList :=
    ne_keyword mem other fun d mem => h.isAlphanum mem
  exact ⟨fun _ mem => keyword (Directive.isKeyword_of_mem mem), keyword (by decide),
    keyword (by decide)⟩

theorem read_divider {d : Divider} (h : d.IsSpelled) :
    read d.write = .divider d ∧ IsOrdinary d.write := by
  have head : d.write.head? = some '=' := by
    rw [Divider.write_eq]
    rfl
  have some : d.write ≠ [] := by
    intro none
    rw [none] at head
    contradiction
  have starts := (Divider.isTidy_write h).starts
  obtain ⟨word, rest, first⟩ := exists_nextWord? starts some
  have mem : '=' ∈ word := by
    rw [head?_of_first starts first] at head
    exact List.mem_of_head? head
  obtain ⟨directive, ordinary⟩ := ne_of_foreign mem (by decide)
  refine ⟨read_eq_divider_iff.2 ⟨⟨some, ?_, Directive.read?_eq_none first directive⟩,
    Divider.read?_write h⟩, isOrdinary_of_first first ordinary.1 ordinary.2⟩
  rw [readComment?_eq_none]
  rw [head]
  exact ⟨by decide, by decide⟩

theorem isLead_append {keyword : String} (h : IsKeyword keyword)
    (directive : keyword ∉ Directive.keywords) (ordinary : keyword ≠ "end" ∧ keyword ≠ "else")
    {tail : List Char} (foreign : ∀ c ∈ tail.head?, c.isAlphanum = false) :
    IsLead (keyword.toList ++ tail) := by
  cases tail with
  | nil =>
    rw [List.append_nil]
    refine ⟨?_, fun other mem same => ?_, ?_, ?_⟩
    · simpa using head?_keyword h [] (d := '=') (by decide)
    · exact directive (String.toList_inj.1 same ▸ mem)
    · exact fun same => ordinary.1 (String.toList_inj.1 same)
    · exact fun same => ordinary.2 (String.toList_inj.1 same)
  | cons c tail =>
    have mem : c ∈ keyword.toList ++ c :: tail := List.mem_append_right _ List.mem_cons_self
    obtain ⟨directive, ordinary⟩ := ne_of_foreign mem (foreign c rfl)
    exact ⟨head?_keyword h _ (by decide), directive, ordinary⟩

theorem readComment?_of_keyword {line word rest tail : List Char} (starts : StartsInk line)
    (first : nextWord? line = some (word, rest)) {keyword : String} (h : IsKeyword keyword)
    (parts : word = keyword.toList ++ tail) : readComment? line = none := by
  refine readComment?_eq_none ?_
  rw [head?_of_first starts first, parts]
  exact ⟨head?_keyword h _ (by decide), head?_keyword h _ (by decide)⟩

theorem read_note {n : Note} (h : n.IsSpelled) :
    read n.writeHead = .note n ∧ IsOrdinary n.writeHead := by
  have keyword := Note.isKeyword_keyword n.kind
  have starts := (Note.isTidy_writeHead h).starts
  have first : ∃ rest, nextWord? n.writeHead = some (n.kind.keyword.toList ++ [], rest) := by
    rw [Note.writeHead_eq h, List.append_nil]
    refine ⟨_, nextWord?_wordsThen ?_ ?_⟩
    · simpa using ⟨keyword.isWord, n.position.isWord_of_mem_words⟩
    · exact (startsInk_append (Note.middle_ne_nil h)).2 (Note.startsInk_middle h)
  obtain ⟨rest, first⟩ := first
  have lead : IsLead (n.kind.keyword.toList ++ []) := by
    refine isLead_append keyword ?_ ?_ (by simp) <;> cases n.kind <;> decide
  obtain ⟨plain, divider⟩ :=
    lead.isPlain starts first (readComment?_of_keyword starts first keyword rfl)
  exact ⟨read_eq_note_iff.2 ⟨plain, divider, Note.read?_writeHead h⟩, lead.isOrdinary first⟩

theorem read_fragment {f : Fragment} (h : f.IsSpelled) (unnoted : Note.read? f.writeHead = none) :
    read f.writeHead = .fragment f ∧ IsOrdinary f.writeHead := by
  have keyword := FragmentType.isKeyword_keyword f.type
  have starts := (Fragment.isTidy_writeHead h).starts
  have first : nextWord? f.writeHead =
      some (f.writeLead, wordsThen (Style.optionalWords f.style) f.condition.toList) := by
    rw [Fragment.writeHead_eq h]
    exact nextWord?_wordsThen (Fragment.isWord_of_mem_head h) h.condition.tidy.starts
  have lead : IsLead f.writeLead := by
    rw [Fragment.writeLead_eq]
    refine isLead_append keyword ?_ ?_ (Fragment.foreign_leadTail h) <;>
      cases f.type <;> decide
  obtain ⟨plain, divider⟩ := lead.isPlain starts first
    (readComment?_of_keyword starts first keyword (Fragment.writeLead_eq f))
  exact ⟨read_eq_fragment_iff.2 ⟨plain, divider, unnoted, Fragment.readHead?_writeHead h⟩,
    lead.isOrdinary first⟩

theorem read_group {g : ParticipantGroup} (h : g.IsSpelled) :
    read g.writeHead = .group g ∧ IsOrdinary g.writeHead := by
  have keyword : IsKeyword ParticipantGroup.keyword := by decide
  have starts := (ParticipantGroup.isTidy_writeHead h).starts
  have first : ∃ rest, nextWord? g.writeHead =
      some (ParticipantGroup.keyword.toList ++ [], rest) := by
    rw [ParticipantGroup.writeHead_eq, List.append_nil]
    exact ⟨_, nextWord?_wordsThen (ParticipantGroup.isWord_of_mem_words h) h.label.starts⟩
  obtain ⟨rest, first⟩ := first
  have lead : IsLead (ParticipantGroup.keyword.toList ++ []) :=
    isLead_append keyword (by decide) (by decide) (by simp)
  obtain ⟨plain, divider⟩ :=
    lead.isPlain starts first (readComment?_of_keyword starts first keyword rfl)
  refine ⟨read_eq_group_iff.2 ⟨plain, divider, Note.read?_eq_none first (by decide),
    Fragment.readHead?_eq_none first (by decide), ParticipantGroup.readHead?_writeHead h⟩,
    lead.isOrdinary first⟩

theorem mem_keywords_of_words {type : ParticipantType} :
    ∃ keyword ∈ Participant.keywords, ∃ data, type.words = keyword.toList :: data := by
  cases type with
  | shape known => exact ⟨known.keyword, by cases known <;> decide, [], rfl⟩
  | icon set code => exact ⟨set.keyword, by cases set <;> decide, [code.toList], rfl⟩
  | image data => exact ⟨"image", by decide, [data.toList], rfl⟩

/-- No other rule fits a line that begins as a declaration. -/
theorem lead_participant {keyword : String} (mem : keyword ∈ Participant.keywords) :
    IsLead keyword.toList ∧ (∀ kind ∈ NoteKind.all, keyword.toList ≠ kind.keyword.toList) ∧
      Fragment.readLead? keyword.toList = none ∧
      keyword.toList ≠ ParticipantGroup.keyword.toList ∧
      keyword.toList.head? ≠ some '/' ∧ keyword.toList.head? ≠ some '#' := by
  have all : ∀ keyword ∈ Participant.keywords,
      (keyword.toList.head? ≠ some '=' ∧
        (∀ other ∈ Directive.keywords, keyword.toList ≠ other.toList) ∧
        keyword.toList ≠ "end".toList ∧ keyword.toList ≠ "else".toList) ∧
      (∀ kind ∈ NoteKind.all, keyword.toList ≠ kind.keyword.toList) ∧
      (Fragment.readLead? keyword.toList).isNone = true ∧
      keyword.toList ≠ ParticipantGroup.keyword.toList ∧
      keyword.toList.head? ≠ some '/' ∧ keyword.toList.head? ≠ some '#' := by
    decide +kernel
  obtain ⟨⟨divider, directive, ordinary⟩, kinds, lead, rest⟩ := all keyword mem
  exact ⟨⟨divider, directive, ordinary⟩, kinds, Option.isNone_iff_eq_none.1 lead, rest⟩

theorem read_of_keyword {line rest : List Char} {keyword : String}
    (mem : keyword ∈ Participant.keywords) (starts : StartsInk line)
    (first : nextWord? line = some (keyword.toList, rest)) {p : Participant}
    (h : Participant.read? line = some p) : read line = .participant p ∧ IsOrdinary line := by
  obtain ⟨lead, kinds, fragment, group, comment⟩ := lead_participant mem
  have head := head?_of_first starts first
  obtain ⟨plain, divider⟩ :=
    lead.isPlain starts first (readComment?_eq_none (by rw [head]; exact comment))
  exact ⟨read_eq_participant_iff.2 ⟨plain, divider, Note.read?_eq_none first kinds,
    Fragment.readHead?_eq_none first fragment, ParticipantGroup.readHead?_eq_none first group, h⟩,
    lead.isOrdinary first⟩

theorem read_participant {p : Participant} (h : p.IsSpelled) :
    read p.write = .participant p ∧ IsOrdinary p.write := by
  have starts := (Participant.isTidy_write h).starts
  obtain ⟨keyword, mem, data, words⟩ := @mem_keywords_of_words p.type
  have spelled := ParticipantType.isWord_of_mem_words h.type
  have first : ∃ rest, nextWord? p.write = some (keyword.toList, rest) := by
    rw [Participant.write_eq h, words]
    exact ⟨_, nextWord?_wordsThen (words ▸ spelled) (Participant.startsInk_name h)⟩
  obtain ⟨rest, first⟩ := first
  exact read_of_keyword mem starts first (Participant.read?_write h)

theorem writeArrow_cons (arrow : Arrow) (style : List Char) :
    ∃ c d rest, Message.writeArrow arrow style = c :: d :: rest ∧ isBlank c = false ∧
      isBlank d = false ∧ c ≠ '/' ∧ (c = '<' ∨ c = '-' ∧ d ≠ '#') := by
  have plain : ∀ arrow ∈ Arrow.all, ∃ c d rest, arrow.token.toList = c :: d :: rest ∧
      isBlank c = false ∧ isBlank d = false ∧ c ≠ '/' ∧ (c = '<' ∨ c = '-' ∧ d ≠ '#') := by
    intro arrow _
    cases arrow <;> exact ⟨_, _, _, rfl, by decide, by decide, by decide, by decide⟩
  have before : ∀ arrow ∈ Arrow.all, arrow.beforeStyle.toList = ['-'] ∨
      arrow.beforeStyle.toList = ['<', '-'] := by
    decide +kernel
  unfold Message.writeArrow
  split
  · exact plain arrow (Arrow.mem_all arrow)
  · rcases before arrow (Arrow.mem_all arrow) with same | same
    · rw [same]
      exact ⟨'-', '[', _, rfl, by decide, by decide, by decide, by decide⟩
    · rw [same]
      exact ⟨'<', '-', _, rfl, by decide, by decide, by decide, by decide⟩

theorem nextWord?_append_ink {word : List Char} (h : IsWord word) (text : List Char) :
    ∃ rest, nextWord? (word ++ text) =
      some (word ++ text.takeWhile (!isBlank ·), rest) := by
  obtain ⟨c, tail, rfl⟩ := List.exists_cons_of_ne_nil h.nonempty
  have starts := @trimStart_eq_self _ (tail ++ text) (h.ink c List.mem_cons_self)
  have ink : ∀ d ∈ c :: tail, (!isBlank d) = true := fun d mem => by simp [h.ink d mem]
  refine ⟨trimStart (text.dropWhile (!isBlank ·)), ?_⟩
  unfold nextWord?
  rw [List.cons_append, starts]
  simp only
  rw [← List.cons_append, List.takeWhile_append_of_pos ink, List.dropWhile_append_of_pos ink]

theorem first_message {m : Message} (h : m.IsSpelled) :
    ∃ c d back rest, nextWord? m.write = some (m.source.toList ++ c :: d :: back, rest) ∧
      (c = '<' ∨ c = '-' ∧ d ≠ '#') := by
  obtain ⟨c, d, text, arrow, inkC, inkD, -, kind⟩ :=
    writeArrow_cons m.arrow (Message.writeStyle m.style)
  obtain ⟨rest, first⟩ := nextWord?_append_ink (Alias.isWord_of_isValid h.source)
    (c :: d :: (text ++ Message.tail m.delay m.star m.target.toList) ++
      Message.writeLabel m.label.toList)
  have line : m.write = m.source.toList ++
      (c :: d :: (text ++ Message.tail m.delay m.star m.target.toList) ++
        Message.writeLabel m.label.toList) := by
    rw [Message.write_eq, Message.head, arrow]
    simp only [List.append_assoc, List.cons_append]
  rw [← line] at first
  simp only [List.cons_append, List.takeWhile_cons, inkC, inkD, Bool.not_false, if_true] at first
  exact ⟨c, d, _, rest, first, kind⟩

theorem eq_of_append_cons {α : Type} {x : α} {a b c d : List α} (left : x ∉ a) (right : x ∉ b)
    (h : a ++ x :: b = c ++ x :: d) : b = d := by
  rcases List.append_eq_append_iff.1 h with ⟨front, -, parts⟩ | ⟨front, parts, same⟩
  · cases front with
    | nil => exact (List.cons.inj parts).2
    | cons y front =>
      refine absurd ?_ right
      rw [(List.cons.inj parts).2]
      simp
  · cases front with
    | nil => exact (List.cons.inj same).2.symm
    | cons y front =>
      refine absurd ?_ left
      rw [parts, ← (List.cons.inj same).1]
      simp

/-- No first word of a fragment holds an arrow. -/
theorem readLead?_eq_none {word front back : List Char} {c d : Char}
    (parts : word = front ++ c :: d :: back) (kind : c = '<' ∨ c = '-' ∧ d ≠ '#') :
    Fragment.readLead? word = none := by
  cases read : Fragment.readLead? word with
  | none => rfl
  | some lead =>
    obtain ⟨mark, whole, marked, -⟩ := Fragment.parts_of_readLead? read
    have keyword := FragmentType.isKeyword_keyword lead.type
    have spelled := (Fragment.isSpelled_of_readLead? read).2
    have clean {e : Char} (other : e.isAlphanum = false) (hash : e ≠ '#') :
        e ∉ lead.type.keyword.toList ∧ e ∉ Style.colorWord lead.operatorColor := by
      refine ⟨fun mem => ?_, fun mem => ?_⟩
      · rw [keyword.isAlphanum mem] at other
        contradiction
      · cases color : lead.operatorColor with
        | none =>
          rw [color] at mem
          contradiction
        | some name =>
          rw [color] at mem
          exact Color.ne_of_mem (spelled name color) mem hash other rfl
    have mem : c ∈ lead.type.keyword.toList ++ (mark ++ Style.colorWord lead.operatorColor) := by
      rw [← whole, parts]
      simp
    rcases kind with rfl | ⟨rfl, other⟩
    · obtain ⟨front, back⟩ := clean (e := '<') (by decide) (by decide)
      rcases marked with rfl | rfl | rfl <;> simp [front, back] at mem
    · obtain ⟨front, back⟩ := clean (e := '-') (by decide) (by decide)
      rcases marked with rfl | rfl | rfl
      · simp [front, back] at mem
      · simp [front, back] at mem
      · have color_eq := eq_of_append_cons front back (whole.symm.trans parts)
        rcases Fragment.head?_colorWord spelled with none | ⟨rest, some⟩
        · rw [none] at color_eq
          contradiction
        · rw [some] at color_eq
          exact absurd (List.cons.inj color_eq).1.symm other

theorem isAlphanum_participant {keyword : String} (h : keyword ∈ Participant.keywords) {c : Char}
    (mem : c ∈ keyword.toList) : c.isAlphanum = true := by
  have all : ∀ keyword ∈ Participant.keywords, ∀ c ∈ keyword.toList, c.isAlphanum = true := by
    decide +kernel
  exact all keyword h c mem

/-- A message line is a comment or a message. -/
theorem read_message {m : Message} (h : m.IsSpelled) :
    IsOrdinary m.write ∧
      ((∃ text, readComment? m.write = some text ∧ read m.write = .comment text) ∨
        readComment? m.write = none ∧
          ∃ m', Message.read? m.write = some m' ∧ read m.write = .message m') := by
  have starts := (Message.isTidy_write h).starts
  obtain ⟨c, d, back, rest, first, kind⟩ := first_message h
  have mem : c ∈ m.source.toList ++ c :: d :: back := by simp
  have other : c.isAlphanum = false := by rcases kind with rfl | ⟨rfl, -⟩ <;> decide
  obtain ⟨directive, ordinary⟩ := ne_of_foreign mem other
  refine ⟨isOrdinary_of_first first ordinary.1 ordinary.2, ?_⟩
  cases comment : readComment? m.write with
  | some text => exact Or.inl ⟨text, rfl, read_eq_comment_iff.2 comment⟩
  | none =>
    obtain ⟨m', read, -⟩ := Message.exists_read?_write h
    have divider : (m.source.toList ++ c :: d :: back).head? ≠ some '=' := by
      obtain ⟨e, tail, parts⟩ :=
        List.exists_cons_of_ne_nil (Alias.isWord_of_isValid h.source).nonempty
      have head := Alias.head?_ne (d := '=') h.source (Or.inl (by decide))
      rw [parts] at head ⊢
      exact head
    have lead : IsLead (m.source.toList ++ c :: d :: back) := ⟨divider, directive, ordinary⟩
    obtain ⟨plain, divider⟩ := lead.isPlain starts first comment
    refine Or.inr ⟨rfl, m', read, read_eq_message_iff.2 ⟨plain, divider, ?_, ?_, ?_, ?_, read⟩⟩
    · exact Note.read?_eq_none first fun kind _ =>
        ne_keyword mem other fun _ mem => (Note.isKeyword_keyword kind).isAlphanum mem
    · exact Fragment.readHead?_eq_none first (readLead?_eq_none rfl kind)
    · exact ParticipantGroup.readHead?_eq_none first
        (ne_keyword mem other fun _ mem => IsKeyword.isAlphanum (by decide) mem)
    · exact Participant.read?_eq_none first fun _ listed =>
        ne_keyword mem other fun _ mem => isAlphanum_participant listed mem

theorem read_slashes (text : List Char) :
    read ('/' :: '/' :: text) = .comment (String.ofList text) ∧
      IsOrdinary ('/' :: '/' :: text) := by
  refine ⟨read_eq_comment_iff.2 rfl, ?_⟩
  have starts : StartsInk ('/' :: '/' :: text) := startsInk_cons.2 (by decide)
  obtain ⟨word, rest, first⟩ := exists_nextWord? starts (List.cons_ne_nil _ _)
  have mem : '/' ∈ word := by
    have head := head?_of_first starts first
    exact List.mem_of_head? head.symm
  obtain ⟨-, ordinary⟩ := ne_of_foreign mem (by decide)
  exact isOrdinary_of_first first ordinary.1 ordinary.2

theorem eq_of_readComment? {line : List Char} {text : String} (h : readComment? line = some text) :
    line = '/' :: '/' :: text.toList ∨ line = '#' :: text.toList := by
  unfold readComment? at h
  split at h
  · rw [← Option.some.inj h, String.toList_ofList]
    exact Or.inl rfl
  · rw [← Option.some.inj h, String.toList_ofList]
    exact Or.inr rfl
  · contradiction

end Line

end SequenceDiagram
