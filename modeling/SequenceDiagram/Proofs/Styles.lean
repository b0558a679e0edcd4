import SequenceDiagram.Proofs.StyleWords

set_option autoImplicit false

namespace SequenceDiagram

open Text StyleRun

namespace Style

structure IsSpelled (style : Style) : Prop where
  fill : Color.IsSpelled style.fill
  border : Color.IsSpelled style.border
  operatorColor : Color.IsSpelled style.operatorColor
  name : ∀ name ∈ style.styleName, StyleName.isValid name.toList = true

structure IsBox (style : Style) : Prop extends IsSpelled style where
  noOperatorColor : style.operatorColor = none
  noMarkup : style.textMarkup = none

structure IsLine (style : Style) : Prop extends IsBox style where
  noFill : style.fill = none

def boxWords (style : Style) : List (List Char) :=
  [style.nameWord, colorWord style.fill, style.boxBorderWord].filter fun part => !part.isEmpty

def lineWords (style : Style) : List (List Char) :=
  [style.nameWord, style.borderWord].filter fun part => !part.isEmpty

theorem writeBox_eq (style : Style) : style.writeBox = wordsThen style.boxWords [] :=
  spaced_eq _

theorem writeLine_eq (style : Style) : style.writeLine = wordsThen style.lineWords [] :=
  spaced_eq _

theorem isStyleWord_nameWord {style : Style} (h : style.IsSpelled)
    (nonempty : style.nameWord ≠ []) : IsStyleWord style.nameWord := by
  unfold nameWord at nonempty ⊢
  cases e : style.styleName with
  | none => simp [e] at nonempty
  | some n => exact isStyleWord_name (h.name n e)

theorem isStyleWord_colorWord {color : Option String} (h : Color.IsSpelled color)
    (nonempty : colorWord color ≠ []) : IsStyleWord (colorWord color) := by
  cases color with
  | none => contradiction
  | some c => exact isStyleWord_color (h c rfl)

theorem isStyleChar_of_mem_writeTail {width : Option UInt32} {style : Option BorderStyle} {c : Char}
    (h : c ∈ Border.writeTail width style) : isStyleChar c = true := by
  have digit {n : UInt32} (h : c ∈ writeUInt32 n) : isStyleChar c = true := by
    have isDigit := isDigit_of_mem_writeNat h
    exact isStyleChar_of_isAlphanum (by simp [Char.isAlphanum, isDigit])
  have letter {style : BorderStyle} (h : c ∈ style.keyword.toList) : isStyleChar c = true := by
    have all : ∀ style : BorderStyle, style.keyword.toList.all isStyleChar = true := by
      intro style
      cases style <;> decide
    exact List.all_eq_true.1 (all style) c h
  have semicolon (h : c = ';') : isStyleChar c = true := by
    rw [h]
    decide
  rcases List.mem_append.1 h with h | h
  · cases width with
    | none => contradiction
    | some n => exact (List.mem_cons.1 h).elim semicolon digit
  · cases style with
    | none => contradiction
    | some style =>
      rcases List.mem_append.1 h with h | h
      · split at h
        · exact semicolon (List.mem_singleton.1 h)
        · contradiction
      · exact (List.mem_cons.1 h).elim semicolon letter

theorem writeTail_eq_nil_or (width : Option UInt32) (style : Option BorderStyle) :
    Border.writeTail width style = [] ∨ (Border.writeTail width style).head? = some ';' := by
  cases width with
  | none =>
    cases style with
    | none => exact Or.inl rfl
    | some style => exact Or.inr rfl
  | some width => exact Or.inr rfl

theorem isStyleWord_border {color : Option String} (h : Color.IsSpelled color) {tail : List Char}
    (chars : ∀ c ∈ tail, isStyleChar c = true) (ends : tail = [] ∨ tail.head? = some ';')
    (nonempty : colorWord color ++ tail ≠ []) : IsStyleWord (colorWord color ++ tail) := by
  cases color with
  | none =>
    refine ⟨nonempty, chars, ?_⟩
    rcases ends with rfl | ends
    · contradiction
    · cases tail with
      | nil => contradiction
      | cons c tail =>
        obtain rfl := Option.some.inj ends
        rfl
  | some c =>
    have valid := h c rfl
    refine ⟨nonempty, fun d hd => ?_, looksLikeStyle_color valid tail ends⟩
    rcases List.mem_append.1 hd with hd | hd
    · exact Color.isStyleChar_of_mem valid hd
    · exact chars d hd

theorem isStyleWord_borderWord {style : Style} (h : style.IsSpelled)
    (nonempty : style.borderWord ≠ []) : IsStyleWord style.borderWord :=
  isStyleWord_border h.border (fun _ hc => isStyleChar_of_mem_writeTail hc)
    (writeTail_eq_nil_or _ _) nonempty

theorem isStyleWord_boxBorderWord {style : Style} (h : style.IsSpelled)
    (nonempty : style.boxBorderWord ≠ []) : IsStyleWord style.boxBorderWord := by
  unfold boxBorderWord at nonempty ⊢
  split
  · rename_i lone
    simp only [Bool.and_eq_true, Option.isNone_iff_eq_none] at lone
    obtain ⟨⟨-, width⟩, line⟩ := lone
    rw [borderWord, width, line, Border.writeTail, List.append_nil, List.append_nil]
    exact isStyleWord_border h.border (by decide) (Or.inr rfl) (by simp)
  · rename_i lone
    rw [if_neg lone] at nonempty
    exact isStyleWord_borderWord h nonempty

theorem isStyleWord_of_mem_boxWords {style : Style} (h : style.IsSpelled) {word : List Char}
    (mem : word ∈ style.boxWords) : IsStyleWord word := by
  obtain ⟨mem, some⟩ := List.mem_filter.1 mem
  have nonempty : word ≠ [] := by simpa using some
  simp only [List.mem_cons, List.not_mem_nil, or_false] at mem
  rcases mem with rfl | rfl | rfl
  · exact isStyleWord_nameWord h nonempty
  · exact isStyleWord_colorWord h.fill nonempty
  · exact isStyleWord_boxBorderWord h nonempty

theorem isStyleWord_of_mem_lineWords {style : Style} (h : style.IsSpelled) {word : List Char}
    (mem : word ∈ style.lineWords) : IsStyleWord word := by
  obtain ⟨mem, some⟩ := List.mem_filter.1 mem
  have nonempty : word ≠ [] := by simpa using some
  simp only [List.mem_cons, List.not_mem_nil, or_false] at mem
  rcases mem with rfl | rfl
  · exact isStyleWord_nameWord h nonempty
  · exact isStyleWord_borderWord h nonempty

theorem foldlM_filter_cons {add : Style → List Char → Option Style} {word : List Char}
    {style next : Style} (parts : List (List Char)) (missing : word = [] → style = next)
    (added : word ≠ [] → add style word = some next) :
    ((word :: parts).filter fun part => !part.isEmpty).foldlM add style =
      (parts.filter fun part => !part.isEmpty).foldlM add next := by
  by_cases empty : word = []
  · subst empty
    rw [missing rfl]
    rfl
  · rw [List.filter_cons, if_pos (by simp [empty]), List.foldlM_cons, added empty]
    rfl

theorem colorWord_eq_nil {color : Option String} (h : Color.IsSpelled color)
    (empty : colorWord color = []) : color = none := by
  cases color with
  | none => rfl
  | some c =>
    have valid := h c rfl
    rw [show c.toList = [] from empty] at valid
    contradiction

theorem not_mem_color {color : String} (h : Color.isValid color.toList = true) :
    color.toList.contains ';' = false := by
  rw [← Bool.not_eq_true, List.contains_iff_mem]
  exact fun mem => Color.ne_of_mem h mem (by decide) (by decide) rfl

theorem contains_writeTail {color : Option String} {width : Option UInt32}
    {line : Option BorderStyle} (h : width.isSome = true ∨ line.isSome = true) :
    (colorWord color ++ Border.writeTail width line).contains ';' = true := by
  rw [List.contains_iff_mem]
  apply List.mem_append_right
  cases width with
  | some width => simp [Border.writeTail]
  | none =>
    cases line with
    | some line => simp [Border.writeTail]
    | none => simp at h

theorem after?_border {color : Option String} (h : Color.IsSpelled color) {tail : List Char}
    (ends : tail = [] ∨ tail.head? = some ';') :
    after? ['#', '#'] (colorWord color ++ tail) = none := by
  cases color with
  | some c => exact Color.after?_name (h c rfl) tail
  | none =>
    rcases ends with rfl | ends
    · rfl
    · cases tail with
      | nil => contradiction
      | cons d tail =>
        obtain rfl := Option.some.inj ends
        rfl

section
variable {style : Style}

theorem withName?_nameWord {name : String} (h : StyleName.isValid name.toList = true)
    (fresh : style.styleName = none) :
    style.withName? name.toList = some { style with styleName := some name } := by
  simp [withName?, h, fresh]

theorem addBoxWord?_name {name : String} (h : StyleName.isValid name.toList = true)
    (fresh : style.styleName = none) :
    style.addBoxWord? ('#' :: '#' :: name.toList) = some { style with styleName := some name } := by
  simp only [addBoxWord?, after?, if_true]
  exact withName?_nameWord h fresh

theorem addLineWord?_name {name : String} (h : StyleName.isValid name.toList = true)
    (fresh : style.styleName = none) :
    style.addLineWord? ('#' :: '#' :: name.toList) = some { style with styleName := some name } := by
  simp only [addLineWord?, after?, if_true]
  exact withName?_nameWord h fresh

theorem addBoxWord?_color {color : String} (h : Color.isValid color.toList = true) :
    style.addBoxWord? color.toList = style.withBoxColor? color := by
  have noName := Color.after?_name h []
  rw [List.append_nil] at noName
  simp only [addBoxWord?, noName, not_mem_color h, Bool.false_eq_true, if_false,
    Color.read?_ofList h, Option.bind_some]

theorem addLineWord?_color {color : String} (h : Color.isValid color.toList = true) :
    style.addLineWord? color.toList = style.withBorder? { color := some color } := by
  have noName := Color.after?_name h []
  rw [List.append_nil] at noName
  simp only [addLineWord?, noName, not_mem_color h, Bool.false_eq_true, if_false,
    Color.read?_ofList h, Option.bind_some]

theorem addWord?_border {color : Option String} (h : Color.IsSpelled color)
    {tail : List Char} {border : Border} (ends : tail = [] ∨ tail.head? = some ';')
    (semicolon : (colorWord color ++ tail).contains ';' = true)
    (read : Border.read? (colorWord color ++ tail) = some border) :
    style.addBoxWord? (colorWord color ++ tail) = style.withBorder? border ∧
      style.addLineWord? (colorWord color ++ tail) = style.withBorder? border := by
  have noName := after?_border h ends
  constructor
  · simp only [addBoxWord?, noName, semicolon, if_true, read, Option.bind_some]
  · simp only [addLineWord?, noName, semicolon, if_true, read, Option.bind_some]

end

theorem boxBorderWord_of_set {style : Style}
    (set : style.borderWidth.isSome = true ∨ style.borderStyle.isSome = true) :
    style.boxBorderWord = style.borderWord := by
  rw [boxBorderWord, if_neg]
  rcases set with set | set <;> simp [Option.isSome_iff_ne_none.1 set]

theorem boxBorderWord_of_unset {style : Style} (width : style.borderWidth = none)
    (line : style.borderStyle = none) :
    style.boxBorderWord =
      if style.border.isSome && style.fill.isNone then colorWord style.border ++ [';']
      else colorWord style.border := by
  simp [boxBorderWord, borderWord, width, line, Border.writeTail]

theorem eq_of_fields {style : Style} (h : style.IsBox) :
    style = { fill := style.fill, border := style.border, borderWidth := style.borderWidth,
              borderStyle := style.borderStyle, styleName := style.styleName } := by
  obtain ⟨fill, border, width, line, operator, markup, name⟩ := style
  obtain rfl : operator = none := h.noOperatorColor
  obtain rfl : markup = none := h.noMarkup
  rfl

theorem addBoxWord?_boxBorderWord {style : Style} (h : style.IsBox)
    (nonempty : style.boxBorderWord ≠ []) :
    addBoxWord? { fill := style.fill, styleName := style.styleName } style.boxBorderWord =
      some style := by
  have whole := eq_of_fields h
  by_cases set : style.borderWidth.isSome = true ∨ style.borderStyle.isSome = true
  · rw [boxBorderWord_of_set set, borderWord, (addWord?_border h.border (writeTail_eq_nil_or _ _)
      (contains_writeTail set) (Border.read?_writeTail h.border set)).1]
    exact congrArg some whole.symm
  · simp only [not_or, Bool.not_eq_true, Option.isSome_eq_false_iff, Option.isNone_iff_eq_none] at set
    obtain ⟨width, line⟩ := set
    have word := boxBorderWord_of_unset width line
    rw [word] at nonempty ⊢
    rw [width, line] at whole
    cases border : style.border with
    | none => simp [border, colorWord] at nonempty
    | some c =>
      have spelled := h.border c border
      rw [border] at whole
      cases fill : style.fill with
      | none =>
        rw [fill] at whole
        simp only [Option.isSome_some, Option.isNone_none, Bool.and_self, if_true]
        rw [(addWord?_border (border ▸ h.border) (Or.inr rfl) (by simp)
          (Border.read?_lone spelled)).1]
        exact congrArg some whole.symm
      | some f =>
        rw [fill] at whole
        simp only [Option.isSome_some, Option.isNone_some, Bool.and_false, Bool.false_eq_true,
          if_false]
        rw [colorWord, addBoxWord?_color spelled]
        exact congrArg some whole.symm

theorem unset_of_borderWord {style : Style} (h : style.IsSpelled)
    (empty : style.borderWord = []) :
    style.border = none ∧ style.borderWidth = none ∧ style.borderStyle = none := by
  by_cases set : style.borderWidth.isSome = true ∨ style.borderStyle.isSome = true
  · have semicolon := @contains_writeTail style.border _ _ set
    rw [borderWord] at empty
    rw [empty] at semicolon
    contradiction
  · simp only [not_or, Bool.not_eq_true, Option.isSome_eq_false_iff, Option.isNone_iff_eq_none] at set
    exact ⟨colorWord_eq_nil h.border (List.append_eq_nil_iff.1 empty).1, set⟩

theorem borderWord_of_boxBorderWord {style : Style} (empty : style.boxBorderWord = []) :
    style.borderWord = [] := by
  unfold boxBorderWord at empty
  split at empty
  · simp at empty
  · exact empty

theorem readBox?_boxWords {style : Style} (h : style.IsBox) :
    readBox? style.boxWords = some style := by
  rw [readBox?, boxWords,
    @foldlM_filter_cons _ _ _ { styleName := style.styleName } _ ?_ ?_,
    @foldlM_filter_cons _ _ _ { fill := style.fill, styleName := style.styleName } _ ?_ ?_,
    @foldlM_filter_cons _ _ _ style _ ?_ (addBoxWord?_boxBorderWord h)]
  · rfl
  · intro empty
    obtain ⟨border, width, line⟩ := unset_of_borderWord h.toIsSpelled (borderWord_of_boxBorderWord empty)
    have whole := eq_of_fields h
    rw [border, width, line] at whole
    exact whole.symm
  · intro empty
    rw [colorWord_eq_nil h.fill empty]
  · intro nonempty
    cases e : style.fill with
    | none => simp [e, colorWord] at nonempty
    | some c =>
      rw [colorWord, addBoxWord?_color (h.fill c e)]
      rfl
  · intro empty
    unfold nameWord at empty
    split at empty
    · contradiction
    · rename_i e
      rw [e]
      rfl
  · intro nonempty
    cases e : style.styleName with
    | none => simp [e, nameWord] at nonempty
    | some n =>
      rw [nameWord, e]
      exact addBoxWord?_name (h.name n e) rfl

theorem addLineWord?_borderWord {style : Style} (h : style.IsLine)
    (nonempty : style.borderWord ≠ []) :
    addLineWord? { styleName := style.styleName } style.borderWord = some style := by
  have whole := eq_of_fields h.toIsBox
  rw [h.noFill] at whole
  by_cases set : style.borderWidth.isSome = true ∨ style.borderStyle.isSome = true
  · rw [borderWord, (addWord?_border h.border (writeTail_eq_nil_or _ _)
      (contains_writeTail set) (Border.read?_writeTail h.border set)).2]
    exact congrArg some whole.symm
  · simp only [not_or, Bool.not_eq_true, Option.isSome_eq_false_iff, Option.isNone_iff_eq_none] at set
    obtain ⟨width, line⟩ := set
    have word : style.borderWord = colorWord style.border := by
      simp [borderWord, width, line, Border.writeTail]
    rw [word] at nonempty ⊢
    rw [width, line] at whole
    cases border : style.border with
    | none => simp [border, colorWord] at nonempty
    | some c =>
      rw [border] at whole
      rw [colorWord, addLineWord?_color (h.border c border)]
      exact congrArg some whole.symm

theorem readLine?_lineWords {style : Style} (h : style.IsLine) :
    readLine? style.lineWords = some style := by
  rw [readLine?, lineWords,
    @foldlM_filter_cons _ _ _ { styleName := style.styleName } _ ?_ ?_,
    @foldlM_filter_cons _ _ _ style _ ?_ (addLineWord?_borderWord h)]
  · rfl
  · intro empty
    obtain ⟨border, width, line⟩ := unset_of_borderWord h.toIsSpelled empty
    have whole := eq_of_fields h.toIsBox
    rw [border, width, line, h.noFill] at whole
    exact whole.symm
  · intro empty
    unfold nameWord at empty
    split at empty
    · contradiction
    · rename_i e
      rw [e]
      rfl
  · intro nonempty
    cases e : style.styleName with
    | none => simp [e, nameWord] at nonempty
    | some n =>
      rw [nameWord, e]
      exact addLineWord?_name (h.name n e) rfl

theorem foldlM_invariant {P : Style → Prop} {add : Style → List Char → Option Style}
    (step : ∀ style word next, P style → add style word = some next → P next)
    {words : List (List Char)} {style result : Style} (start : P style)
    (h : words.foldlM add style = some result) : P result := by
  induction words generalizing style with
  | nil =>
    obtain rfl := Option.some.inj h
    exact start
  | cons word words ih =>
    simp only [List.foldlM_cons, bind, Option.bind_eq_some_iff] at h
    obtain ⟨next, added, rest⟩ := h
    exact ih (step style word next start added) rest

theorem isBox_empty : IsBox empty where
  fill := nofun
  border := nofun
  operatorColor := nofun
  name := nofun
  noOperatorColor := rfl
  noMarkup := rfl

section
variable {style next : Style}

theorem IsBox.withName? (h : style.IsBox) {name : List Char} (e : style.withName? name = some next) :
    next.IsBox ∧ next.fill = style.fill ∧ next ≠ empty := by
  unfold Style.withName? at e
  split at e
  · contradiction
  · rename_i ok
    obtain rfl := Option.some.inj e
    simp only [Bool.or_eq_true, Bool.not_eq_true', not_or, Bool.not_eq_false] at ok
    refine ⟨⟨⟨h.fill, h.border, h.operatorColor, ?_⟩, h.noOperatorColor, h.noMarkup⟩, rfl, ?_⟩
    · intro n hn
      rw [← Option.some.inj hn, String.toList_ofList]
      exact ok.2
    · exact fun same => absurd (congrArg styleName same) nofun

theorem IsBox.withBorder? (h : style.IsBox) {border : Border} (color : Color.IsSpelled border.color)
    (set : border ≠ {}) (e : style.withBorder? border = some next) :
    next.IsBox ∧ next.fill = style.fill ∧ next ≠ empty := by
  unfold Style.withBorder? at e
  split at e
  · contradiction
  · obtain rfl := Option.some.inj e
    refine ⟨⟨⟨h.fill, color, h.operatorColor, h.name⟩, h.noOperatorColor, h.noMarkup⟩, rfl, ?_⟩
    intro same
    apply set
    obtain ⟨c, w, l⟩ := border
    have color := congrArg Style.border same
    have width := congrArg borderWidth same
    have line := congrArg borderStyle same
    simp only [empty] at color width line
    rw [color, width, line]

theorem IsBox.withBoxColor? (h : style.IsBox) {color : String}
    (valid : Color.isValid color.toList = true) (e : style.withBoxColor? color = some next) :
    next.IsBox ∧ next ≠ empty := by
  have spelled : Color.IsSpelled (some color) := fun c hc => Option.some.inj hc ▸ valid
  unfold Style.withBoxColor? at e
  split at e
  · obtain rfl := Option.some.inj e
    exact ⟨⟨⟨spelled, h.border, h.operatorColor, h.name⟩, h.noOperatorColor, h.noMarkup⟩,
      fun same => absurd (congrArg fill same) nofun⟩
  · split at e
    · obtain rfl := Option.some.inj e
      exact ⟨⟨⟨h.fill, spelled, h.operatorColor, h.name⟩, h.noOperatorColor, h.noMarkup⟩,
        fun same => absurd (congrArg border same) nofun⟩
    · contradiction

theorem IsBox.addBoxWord? (h : style.IsBox) {word : List Char}
    (e : style.addBoxWord? word = some next) : next.IsBox ∧ next ≠ empty := by
  unfold Style.addBoxWord? at e
  split at e
  · exact ⟨(h.withName? e).1, (h.withName? e).2.2⟩
  · split at e
    · obtain ⟨border, read, added⟩ := Option.bind_eq_some_iff.1 e
      obtain ⟨color, set⟩ := Border.isColor_of_read? read
      exact ⟨(h.withBorder? color set added).1, (h.withBorder? color set added).2.2⟩
    · obtain ⟨color, read, added⟩ := Option.bind_eq_some_iff.1 e
      exact h.withBoxColor? (Color.isValid_of_read? read).1 added

theorem IsBox.addLineWord? (h : style.IsBox) {word : List Char}
    (e : style.addLineWord? word = some next) : next.IsBox ∧ next.fill = style.fill := by
  unfold Style.addLineWord? at e
  split at e
  · exact ⟨(h.withName? e).1, (h.withName? e).2.1⟩
  · split at e
    · obtain ⟨border, read, added⟩ := Option.bind_eq_some_iff.1 e
      obtain ⟨color, set⟩ := Border.isColor_of_read? read
      exact ⟨(h.withBorder? color set added).1, (h.withBorder? color set added).2.1⟩
    · obtain ⟨color, read, added⟩ := Option.bind_eq_some_iff.1 e
      have spelled : Color.IsSpelled (some color) := fun c hc =>
        Option.some.inj hc ▸ (Color.isValid_of_read? read).1
      have added := @IsBox.withBorder? _ _ h { color := some color } spelled nofun added
      exact ⟨added.1, added.2.1⟩

end

theorem isBox_of_readBox? {words : List (List Char)} {style : Style}
    (h : readBox? words = some style) : style.IsBox :=
  foldlM_invariant (fun _ _ _ start added => (start.addBoxWord? added).1) isBox_empty h

theorem isLine_of_readLine? {words : List (List Char)} {style : Style}
    (h : readLine? words = some style) : style.IsLine := by
  have kept := foldlM_invariant (P := fun style => style.IsBox ∧ style.fill = none)
    (fun _ _ _ start added => ⟨(start.1.addLineWord? added).1,
      (start.1.addLineWord? added).2.trans start.2⟩) ⟨isBox_empty, rfl⟩ h
  exact ⟨kept.1, kept.2⟩

/-- Every word sets something. -/
theorem eq_nil_of_readBox?_empty {words : List (List Char)} (h : readBox? words = some empty) :
    words = [] := by
  cases words with
  | nil => rfl
  | cons word words =>
    simp only [readBox?, List.foldlM_cons, bind, Option.bind_eq_some_iff] at h
    obtain ⟨next, added, rest⟩ := h
    have kept := foldlM_invariant (P := fun style => style.IsBox ∧ style ≠ empty)
      (fun _ _ _ start added => start.1.addBoxWord? added) (isBox_empty.addBoxWord? added) rest
    exact absurd rfl kept.2

def IsOptional (style : Option Style) : Prop :=
  ∀ s ∈ style, s.IsBox ∧ s ≠ empty

def optionalWords : Option Style → List (List Char)
  | some style => style.boxWords
  | none => []

theorem writeOptional_eq (style : Option Style) :
    writeOptional style = wordsThen (optionalWords style) [] := by
  cases style with
  | none => rfl
  | some style => exact writeBox_eq style

theorem ne_nil_of_mem_optionalWords {style : Option Style} {word : List Char}
    (mem : word ∈ optionalWords style) : word ≠ [] := by
  cases style with
  | none => contradiction
  | some style => simpa using (List.mem_filter.1 mem).2

/-- The head of a line: words, the words of a style, and a text. -/
theorem spaced_optional (parts : List (List Char)) (style : Option Style) (rest : List Char) :
    spaced (parts ++ [writeOptional style, rest]) =
      wordsThen ((parts.filter fun part => !part.isEmpty) ++ optionalWords style) rest := by
  rw [show parts ++ [writeOptional style, rest] = (parts ++ [writeOptional style]) ++ [rest] by simp,
    spaced_append, List.filter_append, wordsThen_append, wordsThen_append, writeOptional_eq,
    wordsThen_joined fun word => ne_nil_of_mem_optionalWords]

theorem isStyleWord_of_mem_optionalWords {style : Option Style}
    (h : ∀ s ∈ style, s.IsSpelled) {word : List Char} (mem : word ∈ optionalWords style) :
    IsStyleWord word := by
  cases style with
  | none => contradiction
  | some style => exact isStyleWord_of_mem_boxWords (h style rfl) mem

theorem IsOptional.isStyleWord {style : Option Style} (h : IsOptional style) {word : List Char}
    (mem : word ∈ optionalWords style) : IsStyleWord word :=
  isStyleWord_of_mem_optionalWords (fun s hs => (h s hs).1.toIsSpelled) mem

theorem nonEmpty?_of_ne {style : Style} (h : style ≠ empty) : style.nonEmpty? = some style := by
  simp [nonEmpty?, isEmpty, h]

theorem nonEmpty?_eq_some_iff {style style' : Style} :
    style.nonEmpty? = some style' ↔ style = style' ∧ style' ≠ empty := by
  unfold nonEmpty? isEmpty
  by_cases h : style = empty
  · simp [h, eq_comm]
  · simp only [h, decide_false, Bool.false_eq_true, if_false, Option.some.injEq]
    exact ⟨fun same => ⟨same, same ▸ h⟩, And.left⟩

theorem readOptional?_optionalWords {style : Option Style} (h : IsOptional style) :
    readOptional? (optionalWords style) = some style := by
  cases style with
  | none => rfl
  | some style =>
    obtain ⟨box, nonempty⟩ := h style rfl
    rw [readOptional?, optionalWords, readBox?_boxWords box, Option.map_some,
      nonEmpty?_of_ne nonempty]

theorem isOptional_of_readOptional? {words : List (List Char)} {style : Option Style}
    (h : readOptional? words = some style) : IsOptional style := by
  obtain ⟨box, read, rfl⟩ := Option.map_eq_some_iff.1 h
  intro s hs
  obtain ⟨rfl, nonempty⟩ := nonEmpty?_eq_some_iff.1 hs
  exact ⟨isBox_of_readBox? read, nonempty⟩

theorem eq_nil_of_readOptional?_none {words : List (List Char)}
    (h : readOptional? words = some none) : words = [] := by
  obtain ⟨box, read, none⟩ := Option.map_eq_some_iff.1 h
  unfold nonEmpty? isEmpty at none
  split at none
  · rename_i nothing
    exact eq_nil_of_readBox?_empty (of_decide_eq_true nothing ▸ read)
  · contradiction

theorem not_mem_wordsThen {words : List (List Char)} (h : ∀ word ∈ words, IsStyleWord word)
    {c : Char} (other : isStyleChar c = false) (space : c ≠ ' ') : c ∉ wordsThen words [] := by
  intro mem
  rcases mem_wordsThen mem with rfl | ⟨word, hword, mem⟩ | mem
  · exact space rfl
  · simp [(h word hword).chars c mem] at other
  · contradiction

section
variable {style : Style}

theorem IsLine.isStyleWord (h : style.IsLine) {word : List Char} (mem : word ∈ style.lineWords) :
    IsStyleWord word :=
  isStyleWord_of_mem_lineWords h.toIsSpelled mem

theorem IsLine.words_writeLine (h : style.IsLine) : words style.writeLine = style.lineWords := by
  rw [writeLine_eq, words_wordsThen (fun _ mem => (h.isStyleWord mem).isWord) startsInk_nil,
    words_eq_nil rfl, List.append_nil]

theorem IsLine.isTidy_writeLine (h : style.IsLine) : IsTidy style.writeLine := by
  rw [writeLine_eq]
  exact isTidy_wordsThen (fun _ mem => (h.isStyleWord mem).isWord) isTidy_nil

theorem IsLine.lineWords_ne_nil (h : style.IsLine) (nonempty : style ≠ empty) :
    style.lineWords ≠ [] := by
  intro none
  have read := readLine?_lineWords h
  rw [none] at read
  exact nonempty (Option.some.inj read).symm

theorem IsLine.writeLine_ne_nil (h : style.IsLine) (nonempty : style ≠ empty) :
    style.writeLine ≠ [] := by
  intro none
  refine h.lineWords_ne_nil nonempty ?_
  rw [← h.words_writeLine, none]
  exact words_eq_nil rfl

theorem IsLine.readLine?_writeLine (h : style.IsLine) (nonempty : style ≠ empty) :
    (readLine? (words style.writeLine)).bind nonEmpty? = some style := by
  rw [h.words_writeLine, readLine?_lineWords h, Option.bind_some, nonEmpty?_of_ne nonempty]

end

/-- What a definition can say: it sets something, and there are no blanks around its markup. -/
structure IsDefinable (style : Style) : Prop extends IsSpelled style where
  noOperatorColor : style.operatorColor = none
  nonempty : style ≠ empty
  markup : ∀ markup ∈ style.textMarkup, markup.toList ≠ [] ∧ trim markup.toList = markup.toList

structure IsDefinition (style : Style) : Prop extends IsSpelled style where
  noOperatorColor : style.operatorColor = none
  nonempty : style ≠ empty
  markup : ∀ markup ∈ style.textMarkup, markup.toList ≠ [] ∧ IsTidy markup.toList

def shape (style : Style) : Style :=
  { style with textMarkup := none }

section
variable {style : Style}

theorem IsDefinition.isDefinable (h : style.IsDefinition) : style.IsDefinable where
  toIsSpelled := h.toIsSpelled
  noOperatorColor := h.noOperatorColor
  nonempty := h.nonempty
  markup markup mem := ⟨(h.markup markup mem).1, (h.markup markup mem).2.trim_eq⟩

theorem isSpelled_shape_iff : style.shape.IsSpelled ↔ style.IsSpelled :=
  ⟨fun h => ⟨h.fill, h.border, h.operatorColor, h.name⟩,
    fun h => ⟨h.fill, h.border, h.operatorColor, h.name⟩⟩

theorem IsDefinable.isBox_shape (h : style.IsDefinable) : style.shape.IsBox where
  toIsSpelled := isSpelled_shape_iff.2 h.toIsSpelled
  noOperatorColor := h.noOperatorColor
  noMarkup := rfl

theorem isStyleWord_of_mem_shape (h : style.IsDefinable) {word : List Char}
    (mem : word ∈ style.shape.boxWords) : IsStyleWord word :=
  isStyleWord_of_mem_boxWords h.isBox_shape.toIsSpelled mem

theorem writeDefinition_eq (style : Style) :
    style.writeDefinition = wordsThen style.shape.boxWords [] ++
      match style.textMarkup with
      | some markup => ',' :: markup.toList
      | none => [] :=
  congrArg (· ++ _) (writeBox_eq style.shape)

theorem IsBox.words_writeBox (h : style.IsBox) : words style.writeBox = style.boxWords := by
  rw [writeBox_eq, words_wordsThen
    (fun _ mem => (isStyleWord_of_mem_boxWords h.toIsSpelled mem).isWord) startsInk_nil,
    words_eq_nil rfl, List.append_nil]

theorem readDefinition?_writeDefinition (h : style.IsDefinable) :
    readDefinition? style.writeDefinition = some style := by
  have comma : ',' ∉ wordsThen style.shape.boxWords [] :=
    not_mem_wordsThen (fun word mem => isStyleWord_of_mem_shape h mem) (by decide) (by decide)
  have read := readBox?_boxWords h.isBox_shape
  have words := h.isBox_shape.words_writeBox
  rw [writeBox_eq] at words
  rw [writeDefinition_eq]
  cases markup : style.textMarkup with
  | none =>
    have same : style.shape = style := by
      rw [shape, ← markup]
    rw [same] at read comma words
    simp only [List.append_nil, readDefinition?, same, cut?_eq_none_iff.2 comma, words, read,
      Option.bind_some, nonEmpty?_of_ne h.nonempty]
  | some text =>
    obtain ⟨some, trimmed⟩ := h.markup text markup
    simp only [readDefinition?, cut?_append comma, words, read, trimmed]
    simp [shape, ← markup]

theorem isTidy_writeDefinition (h : style.IsDefinition) : IsTidy style.writeDefinition := by
  have shape := isTidy_wordsThen
    (fun word mem => (isStyleWord_of_mem_shape h.isDefinable mem).isWord) isTidy_nil
  rw [writeDefinition_eq]
  cases markup : style.textMarkup with
  | none => simpa using shape
  | some text =>
    obtain ⟨some, tidy⟩ := h.markup text markup
    refine ⟨?_, ?_, ?_⟩
    · by_cases none : wordsThen style.shape.boxWords [] = []
      · rw [none]
        exact startsInk_cons.2 (by decide)
      · exact (startsInk_append none).2 shape.starts
    · rw [endsInk_append (List.cons_ne_nil _ _), ← List.singleton_append, endsInk_append some]
      exact tidy.ends
    · simpa [shape.single] using tidy.single

theorem writeDefinition_ne_nil (h : style.IsDefinable) : style.writeDefinition ≠ [] := by
  intro none
  have read := readDefinition?_writeDefinition h
  rw [none, readDefinition?, cut?, words_eq_nil rfl] at read
  contradiction

/-- What is read sets something, and its markup is what is left of a part of the text without the
blanks around it. -/
theorem parts_of_readDefinition? {text : List Char} (h : readDefinition? text = some style) :
    style.shape.IsBox ∧ style ≠ empty ∧ ∀ markup ∈ style.textMarkup,
      markup.toList ≠ [] ∧ ∃ part ⊆ text, markup.toList = trim part := by
  have ofBox {box : Style} (h : box.IsBox) (nonempty : box ≠ empty) :
      box.shape.IsBox ∧ box ≠ empty ∧ ∀ markup ∈ box.textMarkup,
        markup.toList ≠ [] ∧ ∃ part ⊆ text, markup.toList = trim part :=
    ⟨⟨isSpelled_shape_iff.2 h.toIsSpelled, h.noOperatorColor, rfl⟩, nonempty,
      by simp [h.noMarkup]⟩
  unfold readDefinition? at h
  split at h
  · obtain ⟨box, read, set⟩ := Option.bind_eq_some_iff.1 h
    obtain ⟨rfl, nonempty⟩ := nonEmpty?_eq_some_iff.1 set
    exact ofBox (isBox_of_readBox? read) nonempty
  · rename_i shape markup cut
    obtain ⟨rfl, -⟩ := eq_of_cut? cut
    simp only [bind, Option.bind_eq_some_iff] at h
    obtain ⟨box, read, rest⟩ := h
    have isBox := isBox_of_readBox? read
    split at rest
    · obtain ⟨rfl, nonempty⟩ := nonEmpty?_eq_some_iff.1 rest
      exact ofBox isBox nonempty
    · rename_i some
      obtain rfl := Option.some.inj rest
      refine ⟨⟨⟨isBox.fill, isBox.border, isBox.operatorColor, isBox.name⟩, isBox.noOperatorColor,
        rfl⟩, fun same => absurd (congrArg textMarkup same) nofun, fun m hm => ?_⟩
      rw [← Option.some.inj hm, String.toList_ofList]
      exact ⟨some, markup, fun _ mem => by simp [mem], rfl⟩

theorem isDefinable_of_readDefinition? {text : List Char}
    (h : readDefinition? text = some style) : style.IsDefinable := by
  obtain ⟨box, nonempty, markup⟩ := parts_of_readDefinition? h
  refine ⟨isSpelled_shape_iff.1 box.toIsSpelled, box.noOperatorColor, nonempty,
    fun text mem => ?_⟩
  obtain ⟨some, part, -, trimmed⟩ := markup text mem
  exact ⟨some, trimmed ▸ trim_trim part⟩

theorem isDefinition_of_readDefinition? {text : List Char} (single : '\n' ∉ text)
    (h : readDefinition? text = some style) : style.IsDefinition := by
  have definable := isDefinable_of_readDefinition? h
  obtain ⟨-, -, markup⟩ := parts_of_readDefinition? h
  refine ⟨definable.toIsSpelled, definable.noOperatorColor, definable.nonempty, fun text mem => ?_⟩
  obtain ⟨some, part, inside, trimmed⟩ := markup text mem
  exact ⟨some, trimmed ▸ isTidy_trim fun ended => single (inside ended)⟩

end

/-- The style grammars lose nothing. What is written for a box, for a line or for a definition is
read back field by field, and unset fields stay unset, exactly if the style is one that a box, a
line or a definition can have, with colors and a name that are spelled as they have to be. -/
theorem written_styles_are_read (style : Style) :
    (readBox? (words style.writeBox) = some style ↔ style.IsBox) ∧
      (readLine? (words style.writeLine) = some style ↔ style.IsLine) ∧
      (readDefinition? style.writeDefinition = some style ↔ style.IsDefinable) := by
  refine ⟨⟨isBox_of_readBox?, fun box => ?_⟩, ⟨isLine_of_readLine?, fun line => ?_⟩,
    ⟨isDefinable_of_readDefinition?, readDefinition?_writeDefinition⟩⟩
  · rw [box.words_writeBox]
    exact readBox?_boxWords box
  · rw [line.words_writeLine]
    exact readLine?_lineWords line

end Style

end SequenceDiagram
