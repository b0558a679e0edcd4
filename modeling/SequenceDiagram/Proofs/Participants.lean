import SequenceDiagram.Line.ParticipantLine
import SequenceDiagram.Proofs.Aliases
import SequenceDiagram.Proofs.Styles

set_option autoImplicit false

namespace SequenceDiagram

open Text

namespace ParticipantType

def IsSpelled : ParticipantType → Prop
  | shape _ => True
  | icon _ code => IsWord code.toList
  | image data => IsWord data.toList

def words : ParticipantType → List (List Char)
  | shape known => [known.keyword.toList]
  | icon set code => [set.keyword.toList, code.toList]
  | image data => ["image".toList, data.toList]

theorem isKeyword_shape (known : ParticipantShape) : IsKeyword known.keyword := by
  cases known <;> decide

theorem isWord_icon (set : IconSet) : IsWord set.keyword.toList where
  nonempty := by cases set <;> decide
  ink := by cases set <;> decide

theorem isWord_image : IsWord "image".toList := IsKeyword.isWord (by decide)

theorem isWord_of_mem_words {type : ParticipantType} (h : type.IsSpelled) :
    ∀ word ∈ type.words, IsWord word := by
  cases type with
  | shape known => simpa [words] using (isKeyword_shape known).isWord
  | icon set code => simpa [words] using ⟨isWord_icon set, h⟩
  | image data => simpa [words] using ⟨isWord_image, h⟩

theorem write_eq (type : ParticipantType) (h : type.IsSpelled) :
    type.write = wordsThen type.words [] := by
  have pair (keyword : List Char) {data : String} (word : IsWord data.toList) :
      keyword ++ ' ' :: data.toList = wordsThen [keyword, data.toList] [] := by
    rw [wordsThen_cons, wordsThen_singleton, padded_nil, List.append_nil, padded_of_ne word.nonempty]
  cases type with
  | shape known => exact (List.append_nil _).symm
  | icon set code => exact pair _ h
  | image data => exact pair _ h

theorem ofKeyword?_icon (set : IconSet) : ParticipantShape.ofKeyword? set.keyword = none := by
  cases set <;> decide

theorem read?_words {type : ParticipantType} (h : type.IsSpelled) {rest : List Char}
    (starts : StartsInk rest) : read? (wordsThen type.words rest) = some (type, rest) := by
  have each := isWord_of_mem_words h
  cases type with
  | shape known =>
    rw [words, read?, nextWord?_wordsThen each starts]
    simp [ParticipantShape.ofKeyword?_keyword, wordsThen]
  | icon set code =>
    have code' : IsWord code.toList := h
    rw [words, read?, nextWord?_wordsThen each starts]
    simp only [Option.bind_eq_bind, Option.bind_some, String.ofList_toList, ofKeyword?_icon,
      IconSet.ofKeyword?_keyword, readIcon?]
    rw [nextWord?_wordsThen (by simpa using code') starts]
    simp [wordsThen]
  | image data =>
    have data' : IsWord data.toList := h
    rw [words, read?, nextWord?_wordsThen each starts]
    simp only [Option.bind_eq_bind, Option.bind_some, String.ofList_toList, readImage?,
      show ParticipantShape.ofKeyword? "image" = none by decide,
      show IconSet.ofKeyword? "image" = none by decide, if_true]
    rw [nextWord?_wordsThen (by simpa using data') starts]
    simp [wordsThen]

theorem isSpelled_of_read? {line rest : List Char} {type : ParticipantType}
    (h : read? line = some (type, rest)) : type.IsSpelled ∧ rest <:+ line ∧ StartsInk rest := by
  obtain ⟨⟨word, tail⟩, first, h⟩ := Option.bind_eq_some_iff.1 h
  have suffix := suffix_of_nextWord? first
  simp only at h
  split at h
  · obtain ⟨rfl, rfl⟩ := Prod.mk.inj (Option.some.inj h)
    exact ⟨trivial, suffix, startsInk_of_nextWord? first⟩
  · obtain ⟨⟨code, after⟩, second, same⟩ := Option.map_eq_some_iff.1 h
    obtain ⟨rfl, rfl⟩ := Prod.mk.inj same
    refine ⟨?_, (suffix_of_nextWord? second).trans suffix, startsInk_of_nextWord? second⟩
    rw [IsSpelled, String.toList_ofList]
    exact isWord_of_nextWord? second
  · split at h
    · obtain ⟨⟨data, after⟩, second, same⟩ := Option.map_eq_some_iff.1 h
      obtain ⟨rfl, rfl⟩ := Prod.mk.inj same
      refine ⟨?_, (suffix_of_nextWord? second).trans suffix, startsInk_of_nextWord? second⟩
      rw [IsSpelled, String.toList_ofList]
      exact isWord_of_nextWord? second
    · contradiction

end ParticipantType

namespace Participant

structure IsSpelled (participant : Participant) : Prop where
  type : participant.type.IsSpelled
  named : trim participant.displayName.toList ≠ []
  unquoted : '"' ∉ participant.displayName.toList
  single : '\n' ∉ participant.displayName.toList
  key : Alias.isValid participant.key.toList = true ∨ participant.key = participant.displayName
  style : Style.IsOptional participant.style

def tailWords (participant : Participant) : List (List Char) :=
  (if participant.key = participant.displayName then []
    else ["as".toList, participant.key.toList]) ++ Style.optionalWords participant.style

theorem isWord_as : IsWord "as".toList := IsKeyword.isWord (by decide)

section
variable {participant : Participant}

theorem isWord_of_mem_style (h : participant.IsSpelled) :
    ∀ word ∈ Style.optionalWords participant.style, IsWord word :=
  fun _ mem => (h.style.isStyleWord mem).isWord

theorem isWord_of_mem_tailWords (h : participant.IsSpelled) :
    ∀ word ∈ participant.tailWords, IsWord word := by
  intro word mem
  rcases List.mem_append.1 mem with mem | mem
  · split at mem
    · contradiction
    · rename_i other
      have valid := h.key.resolve_right other
      rcases List.mem_cons.1 mem with rfl | mem
      · exact isWord_as
      · rw [List.mem_singleton.1 mem]
        exact Alias.isWord_of_isValid valid
  · exact isWord_of_mem_style h word mem

theorem startsInk_tail (h : participant.IsSpelled) : StartsInk (wordsThen participant.tailWords []) :=
  startsInk_wordsThen (isWord_of_mem_tailWords h) startsInk_nil

theorem writeName_ne_nil (name : String) : writeName name ≠ [] := by
  unfold writeName
  split
  · rename_i valid
    exact (Alias.isWord_of_isValid valid).nonempty
  · exact List.cons_ne_nil _ _

theorem isTidy_writeName {name : String} (single : '\n' ∉ name.toList) :
    IsTidy (writeName name) := by
  unfold writeName
  split
  · rename_i valid
    exact (Alias.isWord_of_isValid valid).isTidy
  · refine ⟨startsInk_cons.2 (by decide), ?_, ?_⟩
    · rw [← List.cons_append, endsInk_append (by simp)]
      exact IsWord.endsInk ⟨by simp, by decide⟩
    · simp [single]

theorem write_eq (h : participant.IsSpelled) :
    participant.write = wordsThen participant.type.words
      (writeName participant.displayName ++ padded (wordsThen participant.tailWords [])) := by
  have typed := fun word mem => (ParticipantType.isWord_of_mem_words h.type word mem).nonempty
  have some : participant.type.words ≠ [] := by
    cases participant.type <;> exact List.cons_ne_nil _ _
  have parts : (([participant.type.write, writeName participant.displayName] ++
      (if participant.key = participant.displayName then []
        else ["as".toList, participant.key.toList])).filter fun part => !part.isEmpty) =
      [participant.type.write, writeName participant.displayName] ++
        (if participant.key = participant.displayName then []
          else ["as".toList, participant.key.toList]) := by
    refine List.filter_eq_self.2 fun part mem => ?_
    rcases List.mem_append.1 mem with mem | mem
    · rcases List.mem_cons.1 mem with rfl | mem
      · rw [ParticipantType.write_eq _ h.type]
        simpa using wordsThen_ne_nil typed some []
      · rw [List.mem_singleton.1 mem]
        simpa using writeName_ne_nil participant.displayName
    · have word := isWord_of_mem_tailWords h part (List.mem_append_left _ mem)
      simpa using word.nonempty
  rw [write, spaced_append, parts, Style.writeOptional_eq, wordsThen_append, ← wordsThen_append _ _ [],
    ← tailWords, wordsThen_cons, ParticipantType.write_eq _ h.type, wordsThen_nil_append typed some]
  rfl

theorem readName?_writeName {name : String} (named : trim name.toList ≠ [])
    (unquoted : '"' ∉ name.toList) {tail : List Char} (starts : StartsInk tail) :
    readName? (writeName name ++ padded tail) =
      some ⟨name.toList, !Alias.isValid name.toList, tail⟩ := by
  unfold writeName
  by_cases valid : Alias.isValid name.toList = true
  · have word := Alias.isWord_of_isValid valid
    have first : (name.toList ++ padded tail).head? ≠ some '"' := by
      have quote := Alias.head?_ne (d := '"') valid (Or.inr (by decide))
      obtain ⟨c, rest, parts⟩ := List.exists_cons_of_ne_nil word.nonempty
      rw [parts] at quote ⊢
      exact quote
    rw [if_pos valid]
    unfold readName?
    split
    · rename_i inner same
      rw [same] at first
      exact absurd rfl first
    · rw [nextWord?_padded word starts]
      simp [unquoted, valid]
  · rw [if_neg valid, List.cons_append, List.append_assoc, List.singleton_append, readName?,
      cut?_append unquoted]
    simp [named, valid, trimStart_padded starts]

theorem readAlias?_tail (h : participant.IsSpelled) :
    readAlias? ⟨participant.displayName.toList, !Alias.isValid participant.displayName.toList,
        wordsThen participant.tailWords []⟩ =
      some (participant.key, wordsThen (Style.optionalWords participant.style) []) := by
  have styled : ∀ word ∈ Style.optionalWords participant.style, StyleRun.IsStyleWord word :=
    fun _ => h.style.isStyleWord
  by_cases same : participant.key = participant.displayName
  · have missing : afterKeyword? "as".toList (wordsThen participant.tailWords []) = none := by
      refine afterKeyword?_eq_none fun rest first => ?_
      rw [tailWords, if_pos same, List.nil_append] at first
      cases list : Style.optionalWords participant.style with
      | nil =>
        rw [list] at first
        contradiction
      | cons word words =>
        rw [list, nextWord?_wordsThen (fun other mem => (styled other (list ▸ mem)).isWord)
          startsInk_nil] at first
        have looks := (styled word (by rw [list]; exact List.mem_cons_self)).looks
        rw [(Prod.mk.inj (Option.some.inj first)).1] at looks
        contradiction
    rw [readAlias?, missing, tailWords, if_pos same]
    simp [same]
  · have valid := h.key.resolve_right same
    have words := isWord_of_mem_tailWords h
    rw [tailWords, if_neg same, List.cons_append, List.cons_append, List.nil_append] at words ⊢
    rw [readAlias?, afterKeyword?_wordsThen words startsInk_nil]
    simp only
    rw [nextWord?_wordsThen (fun word mem => words word (List.mem_cons_of_mem _ mem)) startsInk_nil]
    simp [Alias.read?_ofList valid]

theorem startsInk_name (h : participant.IsSpelled) :
    StartsInk (writeName participant.displayName ++
      padded (wordsThen participant.tailWords [])) :=
  (startsInk_append (writeName_ne_nil _)).2 (isTidy_writeName h.single).starts

theorem read?_write (h : participant.IsSpelled) : read? participant.write = some participant := by
  have words : Text.words (wordsThen (Style.optionalWords participant.style) []) =
      Style.optionalWords participant.style := by
    rw [words_wordsThen (isWord_of_mem_style h) startsInk_nil, words_eq_nil rfl, List.append_nil]
  have looks : (Style.optionalWords participant.style).all StyleRun.looksLikeStyle = true :=
    List.all_eq_true.2 fun _ mem => (h.style.isStyleWord mem).looks
  rw [write_eq h, read?, ParticipantType.read?_words h.type (startsInk_name h)]
  simp only [Option.bind_eq_bind, Option.bind_some]
  rw [readName?_writeName h.named h.unquoted (startsInk_tail h), Option.bind_some,
    readAlias?_tail h, Option.bind_some]
  simp only [words, looks, if_true]
  rw [Style.readOptional?_optionalWords h.style, Option.bind_some, String.ofList_toList]

theorem isTidy_write (h : participant.IsSpelled) : IsTidy participant.write := by
  have tail := isTidy_wordsThen (isWord_of_mem_tailWords h) isTidy_nil
  have name := isTidy_writeName h.single
  rw [write_eq h]
  refine isTidy_wordsThen (ParticipantType.isWord_of_mem_words h.type) ⟨?_, ?_, ?_⟩
  · exact (startsInk_append (writeName_ne_nil _)).2 name.starts
  · exact endsInk_append_padded name.ends tail.ends
  · intro mem
    rcases List.mem_append.1 mem with mem | mem
    · exact name.single mem
    · rcases mem_padded mem with space | mem
      · contradiction
      · exact tail.single mem

end

theorem named_of_readName? {text : List Char} {name : NameText} (h : readName? text = some name) :
    trim name.name ≠ [] ∧ '"' ∉ name.name ∧ name.name ⊆ text := by
  unfold readName? at h
  split at h
  · rename_i inner
    obtain ⟨⟨front, rest⟩, cut, h⟩ := Option.bind_eq_some_iff.1 h
    obtain ⟨parts, unquoted⟩ := eq_of_cut? cut
    simp only at h
    split at h
    · contradiction
    · rename_i named
      rw [← Option.some.inj h]
      refine ⟨named, unquoted, ?_⟩
      intro c mem
      rw [parts]
      simp [mem]
  · obtain ⟨⟨front, rest⟩, first, h⟩ := Option.bind_eq_some_iff.1 h
    have word := isWord_of_nextWord? first
    obtain ⟨gap, parts, -⟩ := exists_gap_of_nextWord? first
    simp only at h
    split at h
    · contradiction
    · rename_i unquoted
      rw [← Option.some.inj h]
      refine ⟨?_, by simpa using unquoted, ?_⟩
      · rw [trim_eq_self word.startsInk word.endsInk]
        exact word.nonempty
      · intro c mem
        refine (trimStart_suffix text).subset ?_
        rw [parts]
        exact List.mem_append_left _ mem

theorem key_of_readAlias? {name : NameText} {key : String} {rest : List Char}
    (h : readAlias? name = some (key, rest)) :
    Alias.isValid key.toList = true ∨ key = String.ofList name.name := by
  unfold readAlias? at h
  split at h
  · obtain ⟨⟨word, after⟩, first, h⟩ := Option.bind_eq_some_iff.1 h
    obtain ⟨key', read, same⟩ := Option.bind_eq_some_iff.1 h
    rw [← (Prod.mk.inj (Option.some.inj same)).1]
    exact Or.inl (Alias.isValid_of_read? read).1
  · split at h
    · exact Or.inr (Prod.mk.inj (Option.some.inj h)).1.symm
    · contradiction

theorem isSpelled_of_read? {line : List Char} (single : '\n' ∉ line) {participant : Participant}
    (h : read? line = some participant) : participant.IsSpelled := by
  obtain ⟨⟨type, rest⟩, typed, h⟩ := Option.bind_eq_some_iff.1 h
  obtain ⟨name, named, h⟩ := Option.bind_eq_some_iff.1 h
  obtain ⟨⟨key, tail⟩, keyed, h⟩ := Option.bind_eq_some_iff.1 h
  obtain ⟨spelled, suffix, -⟩ := ParticipantType.isSpelled_of_read? typed
  obtain ⟨nonempty, unquoted, subset⟩ := named_of_readName? named
  simp only at h
  split at h
  · obtain ⟨style, read, made⟩ := Option.bind_eq_some_iff.1 h
    rw [← Option.some.inj made]
    refine ⟨spelled, ?_, ?_, ?_, key_of_readAlias? keyed, Style.isOptional_of_readOptional? read⟩
    · rwa [String.toList_ofList]
    · rwa [String.toList_ofList]
    · rw [String.toList_ofList]
      exact fun mem => single (suffix.subset (subset mem))
  · contradiction

end Participant

end SequenceDiagram
