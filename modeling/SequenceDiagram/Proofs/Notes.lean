import SequenceDiagram.Line.NoteLine
import SequenceDiagram.Proofs.Aliases
import SequenceDiagram.Proofs.Styles

set_option autoImplicit false

namespace SequenceDiagram

open Text

namespace StyleRun

theorem endsRun_of_word {word : List Char} (h : IsWord word) (plain : looksLikeStyle word = false) :
    EndsRun word := by
  intro other rest first
  rw [nextWord?_word (isWord_reverse.2 h), Option.some.injEq, Prod.mk.injEq] at first
  simp only [← first.1, List.reverse_reverse]
  exact plain

end StyleRun

namespace NotePosition

def words : NotePosition → List (List Char)
  | .over => ["over".toList]
  | .leftOf => ["left".toList, "of".toList]
  | .rightOf => ["right".toList, "of".toList]

theorem isWord_of_mem_words (position : NotePosition) : ∀ word ∈ position.words, IsWord word := by
  have all : ∀ word ∈ position.words, word ≠ [] ∧ ∀ c ∈ word, isBlank c = false := by
    cases position <;> decide
  exact fun word mem => ⟨(all word mem).1, (all word mem).2⟩

theorem keyword_eq (position : NotePosition) :
    position.keyword.toList = wordsThen position.words [] := by
  cases position <;> decide

theorem read?_words (position : NotePosition) {rest : List Char} (starts : StartsInk rest) :
    read? (wordsThen position.words rest) = some (position, rest) := by
  have each := position.isWord_of_mem_words
  have later := fun word mem => each word (List.mem_of_mem_tail mem)
  cases position
  · rw [words, read?, nextWord?_wordsThen each starts, Option.bind_eq_bind, Option.bind_some]
    exact if_pos rfl
  · rw [words, read?, nextWord?_wordsThen each starts, Option.bind_eq_bind, Option.bind_some]
    simp only
    rw [if_neg (by decide), afterKeyword?_wordsThen later starts, Option.bind_eq_bind,
      Option.bind_some]
    exact if_pos trivial
  · rw [words, read?, nextWord?_wordsThen each starts, Option.bind_eq_bind, Option.bind_some]
    simp only
    rw [if_neg (by decide), afterKeyword?_wordsThen later starts, Option.bind_eq_bind,
      Option.bind_some, if_neg (by decide)]
    exact if_pos trivial

theorem suffix_of_read? {text rest : List Char} {position : NotePosition}
    (h : read? text = some (position, rest)) : rest <:+ text := by
  obtain ⟨⟨word, tail⟩, first, h⟩ := Option.bind_eq_some_iff.1 h
  have suffix := suffix_of_nextWord? first
  simp only at h
  split at h
  · rwa [← (Prod.mk.inj (Option.some.inj h)).2]
  · obtain ⟨after, second, h⟩ := Option.bind_eq_some_iff.1 h
    have shorter := (suffix_of_nextWord? (exists_of_afterKeyword? second)).trans suffix
    split at h
    · rwa [← (Prod.mk.inj (Option.some.inj h)).2]
    · split at h
      · rwa [← (Prod.mk.inj (Option.some.inj h)).2]
      · contradiction

end NotePosition

namespace Note

structure IsSpelled (note : Note) : Prop where
  named : note.participants ≠ []
  valid : ∀ key ∈ note.participants, Alias.isValid key.toList = true
  style : Style.IsOptional note.style
  text : IsTidy note.text.toList
  block : note.block = true → note.text = ""

def targets (note : Note) : List Char :=
  join [','] (note.participants.map String.toList)

def middle (note : Note) : List Char :=
  note.targets ++ padded (wordsThen (Style.optionalWords note.style) [])

def tail (note : Note) : List Char :=
  if note.block then [] else ':' :: note.text.toList

theorem isKeyword_keyword (kind : NoteKind) : IsKeyword kind.keyword := by
  cases kind <;> decide

section
variable {note : Note}

theorem split_targets (h : note.IsSpelled) :
    split ',' note.targets = note.participants.map String.toList := by
  refine split_join (by simpa using h.named) ?_
  intro part mem
  obtain ⟨key, found, rfl⟩ := List.mem_map.1 mem
  exact Alias.not_mem_of_isValid (h.valid key found) (by decide)

theorem mem_targets {c : Char} (mem : c ∈ note.targets) :
    c = ',' ∨ ∃ key ∈ note.participants, c ∈ key.toList := by
  rcases mem_join mem with comma | ⟨part, found, mem⟩
  · exact Or.inl (List.mem_singleton.1 comma)
  · obtain ⟨key, listed, rfl⟩ := List.mem_map.1 found
    exact Or.inr ⟨key, listed, mem⟩

theorem targets_ne_nil (h : note.IsSpelled) : note.targets ≠ [] := by
  obtain ⟨key, keys, parts⟩ := List.exists_cons_of_ne_nil h.named
  have valid := h.valid key (by rw [parts]; exact List.mem_cons_self)
  rw [targets, parts, List.map_cons]
  exact join_ne_nil (Alias.isWord_of_isValid valid).nonempty

theorem isWord_targets (h : note.IsSpelled) : IsWord note.targets where
  nonempty := targets_ne_nil h
  ink c mem := by
    rcases mem_targets mem with rfl | ⟨key, found, mem⟩
    · decide
    · exact (Alias.isWord_of_isValid (h.valid key found)).ink c mem

theorem head?_targets (h : note.IsSpelled) :
    note.targets.head? ≠ some '#' ∧ note.targets.head? ≠ some ';' := by
  obtain ⟨key, keys, parts⟩ := List.exists_cons_of_ne_nil h.named
  have valid := h.valid key (by rw [parts]; exact List.mem_cons_self)
  have first : note.targets.head? = key.toList.head? := by
    obtain ⟨c, rest, spelled⟩ := List.exists_cons_of_ne_nil (Alias.isWord_of_isValid valid).nonempty
    rw [targets, parts, List.map_cons, spelled]
    cases keys <;> rfl
  rw [first]
  exact ⟨Alias.head?_ne valid (Or.inl (by decide)), Alias.head?_ne valid (Or.inr (by decide))⟩

theorem endsRun_targets (h : note.IsSpelled) : StyleRun.EndsRun note.targets := by
  refine StyleRun.endsRun_of_word (isWord_targets h) ?_
  cases looks : StyleRun.looksLikeStyle note.targets with
  | false => rfl
  | true =>
    have first := head?_targets h
    rcases StyleRun.head?_of_looksLikeStyle looks with hash | semicolon
    · exact absurd hash first.1
    · exact absurd semicolon first.2

theorem middle_ne_nil (h : note.IsSpelled) : note.middle ≠ [] := by
  simp [middle, targets_ne_nil h]

theorem not_mem_middle (h : note.IsSpelled) : ':' ∉ note.middle := by
  intro mem
  rcases List.mem_append.1 mem with mem | mem
  · rcases mem_targets mem with comma | ⟨key, found, mem⟩
    · contradiction
    · exact Alias.not_mem_of_isValid (h.valid key found) (by decide) mem
  · rcases mem_padded mem with space | mem
    · contradiction
    · exact Style.not_mem_wordsThen (fun _ => h.style.isStyleWord) (by decide) (by decide) mem

theorem startsInk_middle (h : note.IsSpelled) : StartsInk note.middle :=
  (startsInk_append (targets_ne_nil h)).2 (isWord_targets h).startsInk

theorem writeHead_eq (h : note.IsSpelled) :
    note.writeHead = wordsThen (note.kind.keyword.toList :: note.position.words)
      (note.middle ++ note.tail) := by
  have some : note.position.words ≠ [] := by cases note.position <;> exact List.cons_ne_nil _ _
  have words := note.position.isWord_of_mem_words
  have kind := (isKeyword_keyword note.kind).isWord.nonempty
  have position : note.position.keyword.toList ≠ [] := by cases note.position <;> decide
  have targets := targets_ne_nil h
  have head : spaced [note.kind.keyword.toList, note.position.keyword.toList,
      join [','] (note.participants.map String.toList), Style.writeOptional note.style] =
      wordsThen (note.kind.keyword.toList :: note.position.words) note.middle := by
    change spaced ([_, _, note.targets] ++ [_]) = _
    rw [spaced_append, Style.writeOptional_eq, List.filter_eq_self.2 (by simp [kind, position, targets]),
      wordsThen_cons, wordsThen_cons, wordsThen_cons note.targets, NotePosition.keyword_eq,
      wordsThen_nil_append (fun word mem => (words word mem).nonempty) some]
    rfl
  rw [← wordsThen_append_right _ (middle_ne_nil h), ← head]
  rfl

theorem cutText_middle (h : note.IsSpelled) :
    cutText (note.middle ++ note.tail) =
      (note.middle, if note.block then none else some note.text.toList) := by
  unfold tail cutText
  by_cases block : note.block = true
  · rw [if_pos block, if_pos block, List.append_nil, cut?_eq_none_iff.2 (not_mem_middle h)]
  · rw [if_neg block, if_neg block, cut?_append (not_mem_middle h)]
    simp only
    rw [h.text.trim_eq]

theorem splitTrailing_middle (h : note.IsSpelled) :
    StyleRun.splitTrailing note.middle = (note.targets, Style.optionalWords note.style) :=
  StyleRun.splitTrailing_append (targets_ne_nil h) (isWord_targets h).endsInk (endsRun_targets h)
    fun _ mem => ⟨(h.style.isStyleWord mem).isWord, (h.style.isStyleWord mem).looks⟩

theorem mapM_read? {keys : List String} (h : ∀ key ∈ keys, Alias.isValid key.toList = true) :
    (keys.map String.toList).mapM (fun part => Alias.read? (trim part)) = some keys := by
  induction keys with
  | nil => rfl
  | cons key keys ih =>
    have valid := h key List.mem_cons_self
    have rest := ih fun other mem => h other (List.mem_cons_of_mem _ mem)
    have word := Alias.isWord_of_isValid valid
    rw [List.map_cons, List.mapM_cons, trim_eq_self word.startsInk word.endsInk,
      Alias.read?_ofList valid, rest]
    rfl

theorem readTargets?_targets (h : note.IsSpelled) :
    readTargets? note.targets = some note.participants := by
  rw [readTargets?, split_targets h, mapM_read? h.valid]

theorem read?_writeHead (h : note.IsSpelled) : read? note.writeHead = some note := by
  have words := note.position.isWord_of_mem_words
  have kind := (isKeyword_keyword note.kind).isWord
  have starts : StartsInk (note.middle ++ note.tail) :=
    (startsInk_append (middle_ne_nil h)).2 (startsInk_middle h)
  rw [writeHead_eq h, read?, nextWord?_wordsThen (by simpa using ⟨kind, words⟩) starts]
  simp only [Option.bind_eq_bind, Option.bind_some, String.ofList_toList,
    NoteKind.ofKeyword?_keyword, NotePosition.read?_words note.position starts, cutText_middle h,
    splitTrailing_middle h, Style.readOptional?_optionalWords h.style, readTargets?_targets h]
  have text : (if note.block then none else some note.text.toList).getD [] = note.text.toList := by
    cases block : note.block with
    | false => rfl
    | true =>
      rw [h.block block]
      rfl
  have block : (if note.block then none else some note.text.toList).isNone = note.block := by
    cases note.block <;> rfl
  rw [text, block, String.ofList_toList]

theorem isTidy_middle (h : note.IsSpelled) : IsTidy note.middle where
  starts := startsInk_middle h
  ends := endsInk_append_padded (isWord_targets h).endsInk
    (endsInk_wordsThen (fun _ mem => (h.style.isStyleWord mem).isWord) endsInk_nil)
  single mem := by
    rcases List.mem_append.1 mem with mem | mem
    · exact (isWord_targets h).single mem
    · rcases mem_padded mem with space | mem
      · contradiction
      · exact Style.not_mem_wordsThen (fun _ => h.style.isStyleWord) (by decide) (by decide) mem

theorem isTidy_writeHead (h : note.IsSpelled) : IsTidy note.writeHead := by
  have middle := isTidy_middle h
  have words := note.position.isWord_of_mem_words
  rw [writeHead_eq h]
  refine isTidy_wordsThen (by simpa using ⟨(isKeyword_keyword note.kind).isWord, words⟩) ⟨?_, ?_, ?_⟩
  · exact (startsInk_append (middle_ne_nil h)).2 middle.starts
  · unfold tail
    split
    · rw [List.append_nil]
      exact middle.ends
    · rw [endsInk_append (by simp), ← List.singleton_append]
      by_cases empty : note.text.toList = []
      · rw [empty]
        exact IsWord.endsInk ⟨by simp, by decide⟩
      · exact (endsInk_append empty).2 h.text.ends
  · intro mem
    rcases List.mem_append.1 mem with mem | mem
    · exact middle.single mem
    · unfold tail at mem
      split at mem
      · contradiction
      · rcases List.mem_cons.1 mem with colon | mem
        · contradiction
        · exact h.text.single mem

end

theorem valid_of_mapM {parts : List (List Char)} {keys : List String}
    (h : parts.mapM (fun part => Alias.read? (trim part)) = some keys) :
    keys.length = parts.length ∧ ∀ key ∈ keys, Alias.isValid key.toList = true := by
  induction parts generalizing keys with
  | nil =>
    rw [List.mapM_nil] at h
    rw [← Option.some.inj h]
    exact ⟨rfl, nofun⟩
  | cons part parts ih =>
    rw [List.mapM_cons] at h
    obtain ⟨key, read, h⟩ := Option.bind_eq_some_iff.1 h
    obtain ⟨rest, later, made⟩ := Option.bind_eq_some_iff.1 h
    obtain ⟨length, valid⟩ := ih later
    rw [← Option.some.inj made]
    refine ⟨by simp [length], ?_⟩
    intro other mem
    rcases List.mem_cons.1 mem with rfl | mem
    · exact (Alias.isValid_of_read? read).1
    · exact valid other mem

theorem isTidy_cutText {text : List Char} (single : '\n' ∉ text) :
    IsTidy ((cutText text).2.getD []) := by
  unfold cutText
  split
  · rename_i head tail cut
    obtain ⟨parts, -⟩ := eq_of_cut? cut
    refine isTidy_trim fun mem => single ?_
    rw [parts]
    simp [mem]
  · exact isTidy_nil

theorem isSpelled_of_read? {line : List Char} (single : '\n' ∉ line) {note : Note}
    (h : read? line = some note) : note.IsSpelled := by
  obtain ⟨⟨word, rest⟩, first, h⟩ := Option.bind_eq_some_iff.1 h
  obtain ⟨kind, -, h⟩ := Option.bind_eq_some_iff.1 h
  obtain ⟨⟨position, rest'⟩, placed, h⟩ := Option.bind_eq_some_iff.1 h
  obtain ⟨style, styled, h⟩ := Option.bind_eq_some_iff.1 h
  obtain ⟨participants, named, made⟩ := Option.bind_eq_some_iff.1 h
  obtain ⟨length, valid⟩ := valid_of_mapM named
  have suffix := (NotePosition.suffix_of_read? placed).trans (suffix_of_nextWord? first)
  have text := isTidy_cutText fun mem => single (suffix.mem mem)
  have some : participants ≠ [] := by
    rintro rfl
    exact split_ne_nil _ _ (List.eq_nil_of_length_eq_zero length.symm)
  rw [← Option.some.inj made]
  refine ⟨some, valid, Style.isOptional_of_readOptional? styled, ?_, ?_⟩
  · rw [String.toList_ofList]
    exact text
  · intro block
    have none : (cutText rest').2 = none := Option.isNone_iff_eq_none.1 block
    change String.ofList ((cutText rest').2.getD []) = ""
    rw [none]
    rfl

end Note

namespace Divider

structure IsSpelled (divider : Divider) : Prop where
  stops : StyleRun.EndsRun (bar ++ divider.text.toList ++ bar)
  single : '\n' ∉ divider.text.toList
  style : Style.IsOptional divider.style

theorem readText?_bars (text : List Char) : readText? (bar ++ text ++ bar) = some text := by
  have back : (text ++ bar).reverse = bar ++ text.reverse := by
    rw [List.reverse_append]
    rfl
  rw [readText?, List.append_assoc, after?_append, Option.bind_eq_bind, Option.bind_some, back,
    after?_append]
  simp

theorem eq_of_readText? {head text : List Char} (h : readText? head = some text) :
    head = bar ++ text ++ bar := by
  obtain ⟨rest, front, h⟩ := Option.bind_eq_some_iff.1 h
  obtain ⟨reversed, back, same⟩ := Option.bind_eq_some_iff.1 h
  have parts := congrArg List.reverse (eq_append_of_after? back)
  rw [List.reverse_reverse, List.reverse_append, Option.some.inj same] at parts
  rw [eq_append_of_after? front, parts, List.append_assoc]
  rfl

section
variable {divider : Divider}

theorem write_eq (divider : Divider) :
    divider.write = (bar ++ divider.text.toList ++ bar) ++
      padded (wordsThen (Style.optionalWords divider.style) []) := by
  rw [write, spaced_cons (by simp [bar]), ← Style.writeOptional_eq]
  unfold spaced
  by_cases empty : Style.writeOptional divider.style = []
  · rw [empty]
    rfl
  · rw [List.filter_cons_of_pos (by simpa using empty)]
    rfl

theorem read?_write (h : divider.IsSpelled) : read? divider.write = some divider := by
  have ends : EndsInk (bar ++ divider.text.toList ++ bar) := by
    rw [endsInk_append (by decide)]
    exact IsWord.endsInk ⟨by decide, by decide⟩
  have split := StyleRun.splitTrailing_append (by simp [bar]) ends h.stops
    fun word mem => ⟨(h.style.isStyleWord mem).isWord, (h.style.isStyleWord mem).looks⟩
  rw [write_eq, read?, split]
  simp only
  rw [readText?_bars, Option.bind_eq_bind, Option.bind_some,
    Style.readOptional?_optionalWords h.style]
  simp

theorem isTidy_write (h : divider.IsSpelled) : IsTidy divider.write := by
  rw [write_eq]
  refine ⟨startsInk_cons.2 (by decide), ?_, ?_⟩
  · refine endsInk_append_padded ?_
      (endsInk_wordsThen (fun _ mem => (h.style.isStyleWord mem).isWord) endsInk_nil)
    rw [endsInk_append (by decide)]
    exact IsWord.endsInk ⟨by decide, by decide⟩
  · intro mem
    rcases List.mem_append.1 mem with mem | mem
    · simp [bar, h.single] at mem
    · rcases mem_padded mem with space | mem
      · contradiction
      · exact Style.not_mem_wordsThen (fun _ => h.style.isStyleWord) (by decide) (by decide) mem

end

theorem isSpelled_of_read? {line : List Char} (single : '\n' ∉ line) {divider : Divider}
    (h : read? line = some divider) : divider.IsSpelled := by
  have split := StyleRun.split_splitTrailing line
  obtain ⟨text, bars, h⟩ := Option.bind_eq_some_iff.1 h
  obtain ⟨style, styled, made⟩ := Option.bind_eq_some_iff.1 h
  have head : (StyleRun.splitTrailing line).1 = bar ++ text ++ bar := eq_of_readText? bars
  have front := split.front
  have stops := split.stops
  rw [← Option.some.inj made]
  refine ⟨?_, ?_, Style.isOptional_of_readOptional? styled⟩
  · rw [String.toList_ofList, ← head]
    exact stops
  · rw [String.toList_ofList]
    refine fun mem => single (front.subset ?_)
    rw [head]
    simp [mem]

end Divider

end SequenceDiagram
