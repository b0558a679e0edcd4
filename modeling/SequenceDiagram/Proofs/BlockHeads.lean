import SequenceDiagram.Line.BlockLine
import SequenceDiagram.Proofs.Styles

set_option autoImplicit false

namespace SequenceDiagram

open Text

namespace FragmentType

theorem isKeyword_keyword (type : FragmentType) : IsKeyword type.keyword := by
  cases type <;> decide

theorem readLead?_append (type : FragmentType) (tail : List Char) :
    readLead? (type.keyword.toList ++ tail) = some (type, tail) := by
  cases type <;> rfl

theorem eq_of_readLead? {word tail : List Char} {type : FragmentType}
    (h : readLead? word = some (type, tail)) : word = type.keyword.toList ++ tail := by
  have good : ∀ type tail, readLead? word = some (type, tail) →
      word = type.keyword.toList ++ tail := by
    unfold readLead?
    -- Every best match so far is one.
    refine List.foldlRecOn (motive := fun best => ∀ (type : FragmentType) tail, best = some (type, tail) →
      word = type.keyword.toList ++ tail) all _ (by simp) fun best ih other _ type tail same => ?_
    split at same
    · rename_i found
      split at same
      · obtain ⟨rfl, rfl⟩ := Prod.mk.inj (Option.some.inj same)
        exact eq_append_of_after? found
      · obtain ⟨rfl, rfl⟩ := Prod.mk.inj (Option.some.inj same)
        exact ih _ _ rfl
    · rename_i found
      obtain ⟨rfl, rfl⟩ := Prod.mk.inj (Option.some.inj same)
      exact eq_append_of_after? found
    · exact ih _ _ same
  exact good type tail h

end FragmentType

namespace Style

def boxPart (style : Option Style) : Option Style :=
  style.bind fun s => nonEmpty? { s with operatorColor := none }

def IsHead (style : Option Style) : Prop :=
  ∀ s ∈ style, s.IsSpelled ∧ s.textMarkup = none ∧ s ≠ empty

section
variable {style : Option Style}

theorem IsHead.isOptional_boxPart (h : IsHead style) : IsOptional (boxPart style) := by
  intro s hs
  obtain ⟨head, given, part⟩ := Option.bind_eq_some_iff.1 hs
  obtain ⟨spelled, markup, -⟩ := h head given
  obtain ⟨rfl, nonempty⟩ := nonEmpty?_eq_some_iff.1 part
  exact ⟨⟨⟨spelled.fill, spelled.border, nofun, spelled.name⟩, rfl, markup⟩, nonempty⟩

theorem optionalWords_boxPart (style : Option Style) :
    optionalWords (boxPart style) = optionalWords style := by
  cases style with
  | none => rfl
  | some s =>
    rw [boxPart, Option.bind_some, nonEmpty?]
    split
    · rename_i nothing
      have same : ({ s with operatorColor := none } : Style).boxWords = s.boxWords := rfl
      rw [optionalWords, optionalWords, ← same, of_decide_eq_true nothing]
      rfl
    · rfl

theorem withOperatorColor_boxPart (h : IsHead style) :
    Fragment.withOperatorColor (boxPart style) (style.bind operatorColor) = style := by
  cases style with
  | none => rfl
  | some s =>
    have nonempty := (h s rfl).2.2
    cases color : s.operatorColor with
    | none =>
      have same : ({ s with operatorColor := none } : Style) = s := by rw [← color]
      rw [boxPart, Option.bind_some, Option.bind_some, color, same, nonEmpty?_of_ne nonempty]
      rfl
    | some c =>
      have same : ({ s with operatorColor := some c } : Style) = s := by rw [← color]
      rw [boxPart, Option.bind_some, Option.bind_some, color, nonEmpty?]
      by_cases nothing : ({ s with operatorColor := none } : Style) = empty
      · have bare : ({ empty with operatorColor := some c } : Style) = s := by
          rw [← nothing, ← same]
        rw [if_pos (by simpa [isEmpty] using nothing), Fragment.withOperatorColor, Option.getD_none,
          bare]
      · rw [if_neg (by simpa [isEmpty] using nothing), Fragment.withOperatorColor, Option.getD_some,
          same]

end

end Style

namespace Fragment

structure IsSpelled (fragment : Fragment) : Prop where
  bare : fragment.entries = [] ∧ fragment.elseClauses = []
  condition : StyleRun.IsFree fragment.condition.toList
  style : Style.IsHead fragment.style
  collapsed : fragment.collapsed.isSome = true ↔ fragment.type = .expandable

def leadTail (fragment : Fragment) : List Char :=
  (if fragment.type = .expandable ∧ fragment.isCollapsed then ['-'] else []) ++
    Style.colorWord (fragment.style.bind Style.operatorColor)

theorem writeLead_eq (fragment : Fragment) :
    fragment.writeLead = fragment.type.keyword.toList ++ fragment.leadTail :=
  List.append_assoc _ _ _

section
variable {fragment : Fragment}

theorem isSpelled_operatorColor (h : fragment.IsSpelled) :
    Color.IsSpelled (fragment.style.bind Style.operatorColor) := by
  intro color found
  obtain ⟨s, given, found⟩ := Option.bind_eq_some_iff.1 found
  exact (h.style s given).1.operatorColor color found

theorem ink_of_mem_leadTail (h : fragment.IsSpelled) {c : Char} (mem : c ∈ fragment.leadTail) :
    isStyleChar c = true := by
  rcases List.mem_append.1 mem with mem | mem
  · split at mem
    · rw [List.mem_singleton.1 mem]
      rfl
    · contradiction
  · have word := Style.isStyleWord_colorWord (isSpelled_operatorColor h) (List.ne_nil_of_mem mem)
    exact word.chars c mem

theorem isWord_writeLead (h : fragment.IsSpelled) : IsWord fragment.writeLead := by
  have keyword := (FragmentType.isKeyword_keyword fragment.type).isWord
  rw [writeLead_eq]
  refine ⟨by simp [keyword.nonempty], fun c mem => ?_⟩
  rcases List.mem_append.1 mem with mem | mem
  · exact keyword.ink c mem
  · exact ink_of_isStyleChar (ink_of_mem_leadTail h mem)

theorem head?_colorWord {color : Option String} (h : Color.IsSpelled color) :
    Style.colorWord color = [] ∨ ∃ rest, Style.colorWord color = '#' :: rest := by
  cases color with
  | none => exact Or.inl rfl
  | some c =>
    obtain ⟨d, name, parts, -⟩ := Color.isValid_iff.1 (h c rfl)
    exact Or.inr ⟨d :: name, parts⟩

theorem foreign_leadTail (h : fragment.IsSpelled) :
    ∀ c ∈ fragment.leadTail.head?, c.isAlphanum = false := by
  intro c head
  unfold leadTail at head
  split at head
  · rw [← Option.some.inj head]
    rfl
  · rw [List.nil_append] at head
    rcases head?_colorWord (isSpelled_operatorColor h) with none | ⟨rest, some⟩
    · rw [none] at head
      contradiction
    · rw [some] at head
      rw [← Option.some.inj head]
      rfl

theorem readMarker?_color {type : FragmentType} {color : Option String}
    (h : Color.IsSpelled color) :
    readMarker? type (Style.colorWord color) =
      some (if type = .expandable then some false else none, Style.colorWord color) := by
  rcases head?_colorWord h with none | ⟨rest, some⟩
  · rw [none]
    cases type <;> rfl
  · rw [some]
    cases type <;> rfl

theorem readMarker?_leadTail (h : fragment.IsSpelled) :
    readMarker? fragment.type fragment.leadTail =
      some (fragment.collapsed, Style.colorWord (fragment.style.bind Style.operatorColor)) := by
  have spelled := isSpelled_operatorColor h
  have set := h.collapsed
  unfold leadTail
  cases collapsed : fragment.collapsed with
  | none =>
    have plain : fragment.type ≠ .expandable := fun type => by simp [collapsed, type] at set
    rw [if_neg (fun both => plain both.1), List.nil_append, readMarker?_color spelled, if_neg plain]
  | some closed =>
    have type : fragment.type = .expandable := by simpa [collapsed] using set
    cases closed with
    | false =>
      have shown : ¬(fragment.type = .expandable ∧ fragment.isCollapsed = true) := by
        simp [isCollapsed, collapsed]
      rw [if_neg shown, List.nil_append, readMarker?_color spelled, if_pos type]
    | true =>
      rw [if_pos ⟨type, by simp [isCollapsed, collapsed]⟩, type]
      rfl

theorem readLead?_writeLead (h : fragment.IsSpelled) :
    readLead? fragment.writeLead =
      some ⟨fragment.type, fragment.collapsed, fragment.style.bind Style.operatorColor⟩ := by
  have spelled := isSpelled_operatorColor h
  rw [writeLead_eq, readLead?, FragmentType.readLead?_append, Option.bind_eq_bind,
    Option.bind_some]
  simp only
  rw [readMarker?_leadTail h, Option.bind_eq_bind, Option.bind_some]
  cases color : fragment.style.bind Style.operatorColor with
  | none => rfl
  | some c =>
    have valid := spelled c color
    obtain ⟨d, name, parts, -⟩ := Color.isValid_iff.1 valid
    have read := Color.read?_ofList valid
    rw [parts] at read
    simp only [Style.colorWord, parts, read, Option.map_some]

theorem writeHead_eq (h : fragment.IsSpelled) :
    fragment.writeHead = wordsThen (fragment.writeLead :: Style.optionalWords fragment.style)
      fragment.condition.toList := by
  have lead := (isWord_writeLead h).nonempty
  change spaced ([fragment.writeLead] ++ [_, _]) = _
  rw [Style.spaced_optional, List.filter_cons_of_pos (by simpa using lead)]
  rfl

theorem readCondition?_wordsThen {style : Option Style} {condition : String}
    (h : Style.IsOptional style) (free : StyleRun.IsFree condition.toList) :
    readCondition? (wordsThen (Style.optionalWords style) condition.toList) =
      some (style, condition) := by
  rw [readCondition?, StyleRun.splitLeading_wordsThen
    (fun word mem => ⟨(h.isStyleWord mem).isWord, (h.isStyleWord mem).looks⟩) free]
  simp [Style.readOptional?_optionalWords h]

theorem isWord_of_mem_head (h : fragment.IsSpelled) :
    ∀ word ∈ fragment.writeLead :: Style.optionalWords fragment.style, IsWord word := by
  intro word mem
  rcases List.mem_cons.1 mem with rfl | mem
  · exact isWord_writeLead h
  · rw [← Style.optionalWords_boxPart] at mem
    exact (h.style.isOptional_boxPart.isStyleWord mem).isWord

theorem readHead?_writeHead (h : fragment.IsSpelled) :
    readHead? fragment.writeHead = some fragment := by
  have condition := readCondition?_wordsThen h.style.isOptional_boxPart h.condition
  rw [Style.optionalWords_boxPart] at condition
  rw [writeHead_eq h, readHead?, nextWord?_wordsThen (isWord_of_mem_head h) h.condition.tidy.starts]
  simp only [Option.bind_eq_bind, Option.bind_some, readLead?_writeLead h, condition,
    Style.withOperatorColor_boxPart h.style]
  rw [← h.bare.1, ← h.bare.2]

theorem isTidy_writeHead (h : fragment.IsSpelled) : IsTidy fragment.writeHead := by
  rw [writeHead_eq h]
  exact isTidy_wordsThen (isWord_of_mem_head h) h.condition.tidy

end

theorem isSpelled_of_readCondition? {rest : List Char} (tidy : IsTidy rest) {style : Option Style}
    {condition : String} (h : readCondition? rest = some (style, condition)) :
    StyleRun.IsFree condition.toList ∧ Style.IsOptional style := by
  obtain ⟨style', styled, same⟩ := Option.bind_eq_some_iff.1 h
  obtain ⟨rfl, rfl⟩ := Prod.mk.inj (Option.some.inj same)
  rw [String.toList_ofList]
  exact ⟨StyleRun.isFree_splitLeading tidy, Style.isOptional_of_readOptional? styled⟩

theorem collapsed_of_readMarker? {type : FragmentType} {tail rest : List Char}
    {collapsed : Option Bool} (h : readMarker? type tail = some (collapsed, rest)) :
    collapsed.isSome = true ↔ type = .expandable := by
  obtain ⟨marked, shape⟩ : ∃ marked : Option Bool × List Char, readMarker? type tail =
      if type = .expandable then some (some (marked.1.getD false), marked.2)
      else if marked.1.isSome then none else some (none, marked.2) := ⟨_, rfl⟩
  rw [shape] at h
  split at h
  · rename_i type'
    rw [← (Prod.mk.inj (Option.some.inj h)).1]
    simp [type']
  · rename_i other
    split at h
    · contradiction
    · rw [← (Prod.mk.inj (Option.some.inj h)).1]
      simp [other]

theorem isSpelled_of_readLead? {word : List Char} {lead : Lead} (h : readLead? word = some lead) :
    (lead.collapsed.isSome = true ↔ lead.type = .expandable) ∧
      Color.IsSpelled lead.operatorColor := by
  obtain ⟨⟨type, tail⟩, -, h⟩ := Option.bind_eq_some_iff.1 h
  obtain ⟨⟨collapsed, tail'⟩, marked, h⟩ := Option.bind_eq_some_iff.1 h
  have set := collapsed_of_readMarker? marked
  simp only at h
  split at h
  · rw [← Option.some.inj h]
    exact ⟨set, by simp [Color.IsSpelled]⟩
  · obtain ⟨color, read, made⟩ := Option.map_eq_some_iff.1 h
    rw [← made]
    refine ⟨set, ?_⟩
    intro c found
    rw [Option.mem_def, Option.some.injEq] at found
    exact found ▸ (Color.isValid_of_read? read).1

theorem tail_of_readMarker? {type : FragmentType} {tail rest : List Char}
    {collapsed : Option Bool} (h : readMarker? type tail = some (collapsed, rest)) :
    ∃ mark, tail = mark ++ rest ∧ (mark = [] ∨ mark = ['+'] ∨ mark = ['-']) ∧
      (collapsed = none → mark = []) := by
  obtain ⟨marked, read, mark, parts, kind, bare⟩ :
      ∃ marked : Option Bool × List Char, readMarker? type tail =
        (if type = .expandable then some (some (marked.1.getD false), marked.2)
          else if marked.1.isSome then none else some (none, marked.2)) ∧
        ∃ mark, tail = mark ++ marked.2 ∧ (mark = [] ∨ mark = ['+'] ∨ mark = ['-']) ∧
          (marked.1 = none → mark = []) := by
    refine ⟨_, rfl, ?_⟩
    split
    · exact ⟨['+'], rfl, Or.inr (Or.inl rfl), by simp⟩
    · exact ⟨['-'], rfl, Or.inr (Or.inr rfl), by simp⟩
    · exact ⟨[], rfl, Or.inl rfl, fun _ => rfl⟩
  rw [read] at h
  split at h
  · obtain ⟨rfl, rfl⟩ := Prod.mk.inj (Option.some.inj h)
    exact ⟨mark, parts, kind, nofun⟩
  · split at h
    · contradiction
    · rename_i unmarked
      obtain ⟨rfl, rfl⟩ := Prod.mk.inj (Option.some.inj h)
      exact ⟨mark, parts, kind, fun _ => bare (by simpa using unmarked)⟩

/-- The first word of a fragment is a keyword, a marker and a color. -/
theorem parts_of_readLead? {word : List Char} {lead : Lead} (h : readLead? word = some lead) :
    ∃ mark, word = lead.type.keyword.toList ++ (mark ++ Style.colorWord lead.operatorColor) ∧
      (mark = [] ∨ mark = ['+'] ∨ mark = ['-']) ∧ (lead.collapsed = none → mark = []) := by
  obtain ⟨⟨type, tail⟩, typed, h⟩ := Option.bind_eq_some_iff.1 h
  obtain ⟨⟨collapsed, color⟩, marked, h⟩ := Option.bind_eq_some_iff.1 h
  obtain ⟨mark, tail_eq, kind, bare⟩ := tail_of_readMarker? marked
  rw [FragmentType.eq_of_readLead? typed, tail_eq]
  simp only at h
  split at h
  · rw [← Option.some.inj h]
    exact ⟨mark, rfl, kind, bare⟩
  · obtain ⟨name, read, made⟩ := Option.map_eq_some_iff.1 h
    obtain ⟨-, spelled⟩ := Color.isValid_of_read? read
    rw [← made]
    refine ⟨mark, ?_, kind, bare⟩
    rw [Style.colorWord, spelled]

theorem isHead_withOperatorColor {style : Option Style} {color : Option String}
    (h : Style.IsOptional style) (spelled : Color.IsSpelled color) :
    Style.IsHead (withOperatorColor style color) := by
  have box : (style.getD .empty).IsBox := by
    cases style with
    | none => exact Style.isBox_empty
    | some s => exact (h s rfl).1
  intro s hs
  cases color with
  | none =>
    obtain ⟨box, nonempty⟩ := h s hs
    exact ⟨box.toIsSpelled, box.noMarkup, nonempty⟩
  | some c =>
    rw [Option.mem_def, withOperatorColor, Option.some.injEq] at hs
    rw [← hs]
    refine ⟨⟨box.fill, box.border, spelled, box.name⟩, box.noMarkup, ?_⟩
    intro nothing
    have unset := congrArg Style.operatorColor nothing
    contradiction

theorem isSpelled_of_readHead? {line : List Char} (tidy : IsTidy line) {fragment : Fragment}
    (h : readHead? line = some fragment) : fragment.IsSpelled := by
  obtain ⟨⟨word, rest⟩, first, h⟩ := Option.bind_eq_some_iff.1 h
  obtain ⟨lead, led, h⟩ := Option.bind_eq_some_iff.1 h
  obtain ⟨⟨style, condition⟩, read, made⟩ := Option.bind_eq_some_iff.1 h
  have rest := tidy.of_suffix (suffix_of_nextWord? first) (startsInk_of_nextWord? first)
  obtain ⟨free, optional⟩ := isSpelled_of_readCondition? rest read
  obtain ⟨collapsed, color⟩ := isSpelled_of_readLead? led
  rw [← Option.some.inj made]
  exact ⟨⟨rfl, rfl⟩, free, isHead_withOperatorColor optional color, collapsed⟩

end Fragment

namespace ElseClause

structure IsSpelled (clause : ElseClause) : Prop where
  bare : clause.entries = []
  condition : StyleRun.IsFree clause.condition.toList
  style : Style.IsOptional clause.style

theorem isWord_else : IsWord "else".toList := IsKeyword.isWord (by decide)

section
variable {clause : ElseClause}

theorem writeHead_eq (clause : ElseClause) :
    clause.writeHead =
      wordsThen ("else".toList :: Style.optionalWords clause.style) clause.condition.toList := by
  change spaced (["else".toList] ++ [_, _]) = _
  rw [Style.spaced_optional]
  rfl

theorem isWord_of_mem_head (h : clause.IsSpelled) :
    ∀ word ∈ "else".toList :: Style.optionalWords clause.style, IsWord word := by
  intro word mem
  rcases List.mem_cons.1 mem with rfl | mem
  · exact isWord_else
  · exact (h.style.isStyleWord mem).isWord

theorem readHead?_writeHead (h : clause.IsSpelled) : readHead? clause.writeHead = some clause := by
  rw [writeHead_eq, readHead?,
    afterKeyword?_wordsThen (isWord_of_mem_head h) h.condition.tidy.starts]
  simp only [Option.bind_eq_bind, Option.bind_some,
    Fragment.readCondition?_wordsThen h.style h.condition]
  rw [← h.bare]

theorem isTidy_writeHead (h : clause.IsSpelled) : IsTidy clause.writeHead := by
  rw [writeHead_eq]
  exact isTidy_wordsThen (isWord_of_mem_head h) h.condition.tidy

end

theorem isSpelled_of_readHead? {line : List Char} (tidy : IsTidy line) {clause : ElseClause}
    (h : readHead? line = some clause) : clause.IsSpelled := by
  obtain ⟨rest, keyword, h⟩ := Option.bind_eq_some_iff.1 h
  obtain ⟨⟨style, condition⟩, read, made⟩ := Option.bind_eq_some_iff.1 h
  have first := exists_of_afterKeyword? keyword
  have rest := tidy.of_suffix (suffix_of_nextWord? first) (startsInk_of_nextWord? first)
  obtain ⟨free, optional⟩ := Fragment.isSpelled_of_readCondition? rest read
  rw [← Option.some.inj made]
  exact ⟨rfl, free, optional⟩

end ElseClause

namespace ParticipantGroup

structure IsSpelled (group : ParticipantGroup) : Prop where
  bare : group.participants = [] ∧ group.nestedGroups = []
  color : Color.IsSpelled group.color
  label : IsTidy group.label.toList
  plain : group.color = none → StyleRun.Stops Color.isValid group.label.toList

theorem isWord_keyword : IsWord keyword.toList := IsKeyword.isWord (by decide)

def words (group : ParticipantGroup) : List (List Char) :=
  keyword.toList :: [Style.colorWord group.color].filter fun part => !part.isEmpty

section
variable {group : ParticipantGroup}

theorem writeHead_eq (group : ParticipantGroup) :
    group.writeHead = wordsThen group.words group.label.toList := by
  change spaced ([keyword.toList, _] ++ [_]) = _
  rw [spaced_append]
  rfl

theorem isWord_of_mem_words (h : group.IsSpelled) : ∀ word ∈ group.words, IsWord word := by
  intro word mem
  rcases List.mem_cons.1 mem with rfl | mem
  · exact isWord_keyword
  · obtain ⟨mem, nonempty⟩ := List.mem_filter.1 mem
    rw [List.mem_singleton.1 mem] at nonempty ⊢
    exact (Style.isStyleWord_colorWord h.color (by simpa using nonempty)).isWord

theorem readHead?_writeHead (h : group.IsSpelled) : readHead? group.writeHead = some group := by
  have words := isWord_of_mem_words h
  obtain ⟨participants, nestedGroups⟩ := h.bare
  rw [writeHead_eq, readHead?, ParticipantGroup.words, afterKeyword?_wordsThen words h.label.starts,
    Option.bind_eq_bind, Option.bind_some]
  cases color : group.color with
  | none =>
    have plain := h.plain color
    rw [show ([Style.colorWord none].filter fun part => !part.isEmpty) = [] from rfl]
    simp only [wordsThen, List.foldr_nil]
    cases first : nextWord? group.label.toList with
    | none =>
      simp only [String.ofList_toList]
      rw [← color, ← participants, ← nestedGroups]
    | some parts =>
      obtain ⟨word, after⟩ := parts
      simp only [plain word after first, Bool.false_eq_true, if_false, String.ofList_toList]
      rw [← color, ← participants, ← nestedGroups]
  | some c =>
    have valid := h.color c color
    have word := (StyleRun.isStyleWord_color valid).isWord
    have filtered : ([Style.colorWord (some c)].filter fun part => !part.isEmpty) = [c.toList] :=
      List.filter_cons_of_pos (by simpa [Style.colorWord] using word.nonempty)
    rw [filtered, nextWord?_wordsThen (by simpa using word) h.label.starts]
    simp only [valid, if_true, wordsThen, List.foldr_nil, String.ofList_toList]
    rw [← color, ← participants, ← nestedGroups]

theorem isTidy_writeHead (h : group.IsSpelled) : IsTidy group.writeHead := by
  rw [writeHead_eq]
  exact isTidy_wordsThen (isWord_of_mem_words h) h.label

end

theorem isSpelled_of_readHead? {line : List Char} (tidy : IsTidy line) {group : ParticipantGroup}
    (h : readHead? line = some group) : group.IsSpelled := by
  obtain ⟨rest, keyword, made⟩ := Option.bind_eq_some_iff.1 h
  have first := exists_of_afterKeyword? keyword
  have label := tidy.of_suffix (suffix_of_nextWord? first) (startsInk_of_nextWord? first)
  simp only at made
  cases second : nextWord? rest with
  | none =>
    rw [second] at made
    rw [← Option.some.inj made]
    refine ⟨⟨rfl, rfl⟩, by simp [Color.IsSpelled], ?_, fun _ => ?_⟩
    · simpa using label
    · rw [String.toList_ofList]
      intro word after found
      rw [second] at found
      contradiction
  | some parts =>
    obtain ⟨word, after⟩ := parts
    rw [second] at made
    simp only at made
    by_cases valid : Color.isValid word = true
    · rw [if_pos valid] at made
      rw [← Option.some.inj made]
      refine ⟨⟨rfl, rfl⟩, by simpa [Color.IsSpelled] using valid, ?_, nofun⟩
      rw [String.toList_ofList]
      exact label.of_suffix (suffix_of_nextWord? second) (startsInk_of_nextWord? second)
    · rw [if_neg valid] at made
      rw [← Option.some.inj made]
      refine ⟨⟨rfl, rfl⟩, by simp [Color.IsSpelled], ?_, fun _ => ?_⟩
      · simpa using label
      · rw [String.toList_ofList]
        intro word' after' found
        rw [second, Option.some.injEq, Prod.mk.injEq] at found
        rw [← found.1]
        simpa using valid

end ParticipantGroup

end SequenceDiagram
