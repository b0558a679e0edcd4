import SequenceDiagram.Line.StyleText
import SequenceDiagram.Proofs.Cuts
import SequenceDiagram.Proofs.Numerals
import SequenceDiagram.Proofs.Runs

set_option autoImplicit false

namespace SequenceDiagram

open Text

def isStyleChar (c : Char) : Bool :=
  c.isAlphanum || c = '#' || c = '_' || c = '-' || c = ';'

theorem ink_of_isStyleChar {c : Char} (h : isStyleChar c = true) : isBlank c = false := by
  simp only [isStyleChar, Bool.or_eq_true, decide_eq_true_eq] at h
  rcases h with (((h | rfl) | rfl) | rfl) | rfl
  · exact ink_of_isAlphanum h
  all_goals decide

theorem isStyleChar_of_isAlphanum {c : Char} (h : c.isAlphanum = true) : isStyleChar c = true := by
  simp [isStyleChar, h]

namespace Color

/-- A color is a hash and at least one letter or digit. -/
theorem isValid_iff {word : List Char} :
    isValid word = true ↔
      ∃ c name, word = '#' :: c :: name ∧ c.isAlphanum = true ∧ ∀ d ∈ name, d.isAlphanum = true := by
  constructor
  · intro h
    unfold isValid at h
    split at h
    · rename_i name
      cases name with
      | nil => simp at h
      | cons c name =>
        simp only [List.isEmpty_cons, Bool.not_false, Bool.true_and, List.all_cons, Bool.and_eq_true,
          List.all_eq_true] at h
        exact ⟨c, name, rfl, h⟩
    · contradiction
  · rintro ⟨c, name, rfl, h⟩
    simpa [isValid] using h

theorem isStyleChar_of_mem {word : List Char} (h : isValid word = true) {c : Char}
    (mem : c ∈ word) : isStyleChar c = true := by
  obtain ⟨d, name, rfl, hd, hname⟩ := isValid_iff.1 h
  rcases List.mem_cons.1 mem with rfl | mem
  · decide
  · rcases List.mem_cons.1 mem with rfl | mem
    · exact isStyleChar_of_isAlphanum hd
    · exact isStyleChar_of_isAlphanum (hname c mem)

theorem ne_of_mem {word : List Char} (h : isValid word = true) {c d : Char} (mem : c ∈ word)
    (hash : d ≠ '#') (other : d.isAlphanum = false) : c ≠ d := by
  rintro rfl
  obtain ⟨e, name, rfl, he, hname⟩ := isValid_iff.1 h
  rcases List.mem_cons.1 mem with rfl | mem
  · exact hash rfl
  · rcases List.mem_cons.1 mem with rfl | mem
    · simp [he] at other
    · simp [hname _ mem] at other

/-- A color is not taken for a name, which has two hashes. -/
theorem after?_name {word : List Char} (h : isValid word = true) (tail : List Char) :
    after? ['#', '#'] (word ++ tail) = none := by
  obtain ⟨c, name, rfl, hc, -⟩ := isValid_iff.1 h
  have other : '#' ≠ c := by
    rintro rfl
    contradiction
  simp [after?, other]

theorem read?_ofList {color : String} (h : isValid color.toList = true) :
    read? color.toList = some color := by
  rw [read?, if_pos h, String.ofList_toList]

theorem isValid_of_read? {word : List Char} {color : String} (h : read? word = some color) :
    isValid color.toList = true ∧ color.toList = word := by
  unfold read? at h
  split at h
  · rename_i valid
    obtain rfl := Option.some.inj h
    rw [String.toList_ofList]
    exact ⟨valid, rfl⟩
  · contradiction

def IsSpelled (color : Option String) : Prop :=
  ∀ c ∈ color, isValid c.toList = true

end Color

namespace StyleName

theorem isStyleChar_of_mem {name : List Char} (h : isValid name = true) {c : Char}
    (mem : c ∈ name) : isStyleChar c = true := by
  simp only [isValid, Bool.and_eq_true, List.all_eq_true] at h
  have allowed := h.2 c mem
  simp only [isNameChar, Bool.or_eq_true, decide_eq_true_eq] at allowed
  rcases allowed with (allowed | rfl) | rfl
  · exact isStyleChar_of_isAlphanum allowed
  all_goals decide

theorem isWord_of_isValid {name : List Char} (h : isValid name = true) : IsWord name where
  nonempty := by
    rintro rfl
    contradiction
  ink _ mem := ink_of_isStyleChar (isStyleChar_of_mem h mem)

end StyleName

namespace StyleRun

structure IsStyleWord (word : List Char) : Prop where
  nonempty : word ≠ []
  chars : ∀ c ∈ word, isStyleChar c = true
  looks : looksLikeStyle word = true

theorem IsStyleWord.isWord {word : List Char} (h : IsStyleWord word) : IsWord word :=
  ⟨h.nonempty, fun c hc => ink_of_isStyleChar (h.chars c hc)⟩

theorem isStyleWord_name {name : List Char} (h : StyleName.isValid name = true) :
    IsStyleWord ('#' :: '#' :: name) where
  nonempty := List.cons_ne_nil _ _
  chars c hc := by
    simp only [List.mem_cons] at hc
    rcases hc with rfl | rfl | hc
    · decide
    · decide
    · exact StyleName.isStyleChar_of_mem h hc
  looks := h

theorem looksLikeStyle_color {color : List Char} (h : Color.isValid color = true)
    (tail : List Char) (ends : tail = [] ∨ tail.head? = some ';') :
    looksLikeStyle (color ++ tail) = true := by
  have taken : (color ++ tail).takeWhile (· ≠ ';') = color := by
    rw [List.takeWhile_append_of_pos fun c hc => by
      simpa using Color.ne_of_mem h hc (by decide) (by decide)]
    rcases ends with rfl | ends
    · simp
    · cases tail with
      | nil => simp
      | cons c tail =>
        obtain rfl := Option.some.inj ends
        simp
  obtain ⟨c, name, rfl, hc, -⟩ := Color.isValid_iff.1 h
  unfold looksLikeStyle
  split
  · rename_i same
    simp only [List.cons_append, List.cons.injEq, true_and] at same
    rw [same.1] at hc
    contradiction
  · rename_i same
    simp at same
  · rw [taken]
    exact h

theorem isStyleWord_color {color : List Char} (h : Color.isValid color = true) :
    IsStyleWord color where
  nonempty := by
    rintro rfl
    contradiction
  chars _ hc := Color.isStyleChar_of_mem h hc
  looks := by simpa using looksLikeStyle_color h [] (Or.inl rfl)

/-- Style words start with a hash or a semicolon. -/
theorem head?_of_looksLikeStyle {word : List Char} (h : looksLikeStyle word = true) :
    word.head? = some '#' ∨ word.head? = some ';' := by
  unfold looksLikeStyle at h
  split at h
  · exact Or.inl rfl
  · exact Or.inr rfl
  · obtain ⟨c, name, e, -⟩ := Color.isValid_iff.1 h
    cases word with
    | nil => simp at e
    | cons d word =>
      rw [List.takeWhile_cons] at e
      split at e
      · simp only [List.cons.injEq] at e
        exact Or.inl (congrArg some e.1)
      · contradiction

end StyleRun

namespace Border

theorem readColor?_colorWord {color : Option String} (h : Color.IsSpelled color) :
    readColor? (Style.colorWord color) = some color := by
  cases color with
  | none => rfl
  | some c =>
    have valid : Color.isValid c.toList = true := h c rfl
    have read := Color.read?_ofList valid
    obtain ⟨d, name, e, -⟩ := Color.isValid_iff.1 valid
    rw [e] at read
    simp [Style.colorWord, e, readColor?, read]

theorem not_mem_colorWord {color : Option String} (h : Color.IsSpelled color) :
    ';' ∉ Style.colorWord color := by
  cases color with
  | none => exact List.not_mem_nil
  | some c => exact fun mem => Color.ne_of_mem (h c rfl) mem (by decide) (by decide) rfl

theorem not_mem_writeUInt32 (n : UInt32) : ';' ∉ writeUInt32 n :=
  fun mem => ne_of_isDigit (isDigit_of_mem_writeNat mem) rfl rfl

theorem not_mem_keyword (style : BorderStyle) : ';' ∉ style.keyword.toList := by
  cases style <;> decide

theorem readWidth?_writeUInt32 (n : UInt32) : readWidth? (writeUInt32 n) = some (some n) := by
  have back := readUInt32?_writeUInt32 n
  cases e : writeUInt32 n with
  | nil => exact absurd e (writeNat_ne_nil _)
  | cons d digits =>
    rw [e] at back
    simp [readWidth?, back]

theorem readStyle?_keyword (style : BorderStyle) :
    readStyle? style.keyword.toList = some (some style) := by
  rw [readStyle?, String.ofList_toList, BorderStyle.ofKeyword?_keyword]
  rfl

/-- A border with a width or a line style is read back from its word. -/
theorem read?_writeTail {color : Option String} (h : Color.IsSpelled color) {width : Option UInt32}
    {style : Option BorderStyle} (some : width.isSome = true ∨ style.isSome = true) :
    read? (Style.colorWord color ++ writeTail width style) = .some { color, width, style } := by
  have front := not_mem_colorWord h
  have back := readColor?_colorWord h
  cases width with
  | none =>
    cases style with
    | none => simp at some
    | some style =>
      have parts : split ';' (Style.colorWord color ++ writeTail none (.some style)) =
          [Style.colorWord color, [], style.keyword.toList] := by
        simp only [writeTail, Option.isNone_none, if_true, List.nil_append, List.singleton_append]
        rw [split_append front, split, if_pos rfl, split_eq_self (not_mem_keyword style)]
      simp [read?, parts, readParts?, back, readWidth?, readStyle?_keyword]
  | some width =>
    cases style with
    | none =>
      have parts : split ';' (Style.colorWord color ++ writeTail (.some width) none) =
          [Style.colorWord color, writeUInt32 width] := by
        simp only [writeTail, List.append_nil]
        rw [split_append front, split_eq_self (not_mem_writeUInt32 width)]
      simp [read?, parts, readParts?, back, readWidth?_writeUInt32]
    | some style =>
      have parts : split ';' (Style.colorWord color ++ writeTail (.some width) (.some style)) =
          [Style.colorWord color, writeUInt32 width, style.keyword.toList] := by
        simp only [writeTail, Option.isNone_some, Bool.false_eq_true, if_false, List.nil_append,
          List.cons_append]
        rw [split_append front, split_append (not_mem_writeUInt32 width),
          split_eq_self (not_mem_keyword style)]
      simp [read?, parts, readParts?, back, readWidth?_writeUInt32, readStyle?_keyword]

/-- A lone color is a border when a semicolon is behind it. -/
theorem read?_lone {color : String} (h : Color.isValid color.toList = true) :
    read? (color.toList ++ [';']) = some { color := some color } := by
  have isColor : Color.IsSpelled (some color) := fun c hc => Option.some.inj hc ▸ h
  have front := not_mem_colorWord isColor
  have back := readColor?_colorWord isColor
  rw [Style.colorWord] at front back
  have parts : split ';' (color.toList ++ [';']) = [color.toList, []] := by
    rw [split_append front]
    rfl
  simp [read?, parts, readParts?, back, readWidth?]

theorem isColor_of_readColor? {word : List Char} {color : Option String}
    (h : readColor? word = some color) : Color.IsSpelled color := by
  unfold readColor? at h
  split at h
  · obtain rfl := Option.some.inj h
    exact nofun
  · obtain ⟨c, read, rfl⟩ := Option.map_eq_some_iff.1 h
    intro d hd
    rw [← Option.some.inj hd]
    exact (Color.isValid_of_read? read).1

theorem isColor_of_read? {word : List Char} {border : Border} (h : read? word = some border) :
    Color.IsSpelled border.color ∧ border ≠ {} := by
  simp only [read?, bind, Option.bind_eq_some_iff] at h
  obtain ⟨border', parts, rest⟩ := h
  split at rest
  · contradiction
  · rename_i set
    obtain rfl := Option.some.inj rest
    refine ⟨?_, set⟩
    unfold readParts? at parts
    split at parts
    · simp only [bind, Option.bind_eq_some_iff, Option.some.injEq] at parts
      obtain ⟨color, read, rfl⟩ := parts
      exact isColor_of_readColor? read
    · simp only [bind, Option.bind_eq_some_iff, Option.some.injEq] at parts
      obtain ⟨color, read, width, -, rfl⟩ := parts
      exact isColor_of_readColor? read
    · simp only [bind, Option.bind_eq_some_iff, Option.some.injEq] at parts
      obtain ⟨color, read, width, -, style, -, rfl⟩ := parts
      exact isColor_of_readColor? read
    · contradiction

end Border

end SequenceDiagram
