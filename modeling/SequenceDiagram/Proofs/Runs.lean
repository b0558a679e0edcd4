import SequenceDiagram.Line.StyleRun
import SequenceDiagram.Proofs.Words

set_option autoImplicit false

namespace SequenceDiagram

open Text

namespace StyleRun

def Stops (test : List Char → Bool) (text : List Char) : Prop :=
  ∀ word rest, nextWord? text = some (word, rest) → test word = false

theorem stops_nil (test : List Char → Bool) : Stops test [] := nofun

theorem splitWhile_of_stops {test : List Char → Bool} {text : List Char} (h : Stops test text) :
    splitWhile test text = ([], trimStart text) := by
  rw [splitWhile]
  split
  · rename_i none
    rw [nextWord?_eq_none_iff.1 none]
  · rename_i word rest some
    rw [if_neg (by simp [h word rest some])]

theorem splitWhile_cons {test : List Char → Bool} {text word rest : List Char}
    (h : nextWord? text = some (word, rest)) (hit : test word = true) :
    splitWhile test text = (word :: (splitWhile test rest).1, (splitWhile test rest).2) := by
  rw [splitWhile]
  split
  · rename_i none
    rw [h] at none
    contradiction
  · rename_i word' rest' some
    rw [h, Option.some.injEq, Prod.mk.injEq] at some
    obtain ⟨rfl, rfl⟩ := some
    rw [if_pos hit]

theorem splitWhile_wordsThen {test : List Char → Bool} {words : List (List Char)}
    {rest : List Char} (h : ∀ word ∈ words, IsWord word ∧ test word = true)
    (starts : StartsInk rest) (stops : Stops test rest) :
    splitWhile test (wordsThen words rest) = (words, rest) := by
  induction words with
  | nil =>
    rw [wordsThen, List.foldr_nil, splitWhile_of_stops stops, trimStart_eq_self_of_startsInk starts]
  | cons word words ih =>
    have later : ∀ other ∈ words, IsWord other ∧ test other = true :=
      fun other mem => h other (List.mem_cons_of_mem _ mem)
    have first := nextWord?_wordsThen (fun other mem => (h other mem).1) starts
    rw [splitWhile_cons first (h word List.mem_cons_self).2, ih later]

theorem eq_trimStart_of_splitWhile {test : List Char → Bool} {text rest : List Char}
    (h : splitWhile test text = ([], rest)) : rest = trimStart text := by
  have stops : Stops test text := by
    intro word after first
    cases hit : test word with
    | false => rfl
    | true =>
      rw [splitWhile_cons first hit] at h
      exact absurd (Prod.mk.inj h).1 (List.cons_ne_nil _ _)
  rw [splitWhile_of_stops stops] at h
  exact (Prod.mk.inj h).2.symm

/-- What a split yields: words of the run, and a text at which the run stops. -/
structure Split (test : List Char → Bool) (text : List Char) (run : List (List Char))
    (rest : List Char) : Prop where
  words : ∀ word ∈ run, IsWord word ∧ test word = true
  starts : StartsInk rest
  stops : Stops test rest
  suffix : rest <:+ text
  all : Text.words text = run ++ Text.words rest

theorem split_splitWhile (test : List Char → Bool) (text : List Char) :
    Split test text (splitWhile test text).1 (splitWhile test text).2 := by
  induction text using splitWhile.induct test with
  | case1 text none =>
    rw [splitWhile_of_stops (by simp [Stops, none]), nextWord?_eq_none_iff.1 none]
    refine ⟨nofun, startsInk_nil, stops_nil test, List.nil_suffix, ?_⟩
    rw [words_eq_nil none]
    exact (words_eq_nil rfl).symm
  | case2 text word rest some hit _ _ _ ih =>
    rw [splitWhile_cons some hit]
    refine ⟨?_, ih.starts, ih.stops, ih.suffix.trans (suffix_of_nextWord? some), ?_⟩
    · intro other mem
      rcases List.mem_cons.1 mem with rfl | mem
      · exact ⟨isWord_of_nextWord? some, hit⟩
      · exact ih.words other mem
    · rw [words_of_nextWord? some, ih.all, List.cons_append]
  | case3 text word rest some miss =>
    have first := (nextWord?_trimStart text).trans some
    have stops : Stops test (trimStart text) := by
      intro word' rest' some'
      rw [first, Option.some.injEq, Prod.mk.injEq] at some'
      rw [← some'.1]
      simpa using miss
    have stops' : Stops test text := by
      intro word' rest' some'
      exact stops word' rest' ((nextWord?_trimStart text).trans some')
    rw [splitWhile_of_stops stops']
    refine ⟨nofun, startsInk_trimStart text, stops, trimStart_suffix text, ?_⟩
    rw [words_of_nextWord? some, words_of_nextWord? first, List.nil_append]

structure IsFree (text : List Char) : Prop where
  tidy : IsTidy text
  stops : Stops looksLikeStyle text

theorem splitLeading_wordsThen {words : List (List Char)} {rest : List Char}
    (h : ∀ word ∈ words, IsWord word ∧ looksLikeStyle word = true) (free : IsFree rest) :
    splitLeading (wordsThen words rest) = (words, rest) :=
  splitWhile_wordsThen h free.tidy.starts free.stops

theorem isFree_splitLeading {text : List Char} (tidy : IsTidy text) :
    IsFree (splitLeading text).2 := by
  have split := split_splitWhile looksLikeStyle text
  exact ⟨tidy.of_suffix split.suffix split.starts, split.stops⟩

theorem reverse_append_padded {head : List Char} (some : head ≠ []) (words : List (List Char))
    (h : ∀ word ∈ words, word ≠ []) :
    (head ++ padded (wordsThen words [])).reverse =
      wordsThen (words.map List.reverse).reverse head.reverse := by
  induction words generalizing head with
  | nil => simp [wordsThen, padded_nil]
  | cons word words ih =>
    have nonempty := h word List.mem_cons_self
    have moved : head ++ padded (wordsThen (word :: words) []) =
        (head ++ ' ' :: word) ++ padded (wordsThen words []) := by
      rw [wordsThen_cons, padded_append nonempty, padded_of_ne nonempty, List.append_assoc]
    rw [moved, ih (by simp) fun other mem => h other (List.mem_cons_of_mem _ mem)]
    simp [wordsThen, padded_of_ne, some]

theorem isWord_reverse {word : List Char} : IsWord word.reverse ↔ IsWord word :=
  ⟨fun h => ⟨by simpa using h.nonempty, by simpa using h.ink⟩,
    fun h => ⟨by simpa using h.nonempty, by simpa using h.ink⟩⟩

def EndsRun (text : List Char) : Prop :=
  Stops (fun word => looksLikeStyle word.reverse) text.reverse

theorem splitTrailing_append {head : List Char} {words : List (List Char)} (some : head ≠ [])
    (ends : EndsInk head) (stops : EndsRun head)
    (h : ∀ word ∈ words, IsWord word ∧ looksLikeStyle word = true) :
    splitTrailing (head ++ padded (wordsThen words [])) = (head, words) := by
  have reversed := reverse_append_padded some words fun word mem => (h word mem).1.nonempty
  have split := @splitWhile_wordsThen (fun word => looksLikeStyle word.reverse)
    (words.map List.reverse).reverse head.reverse (by
      intro word mem
      obtain ⟨other, found, rfl⟩ := List.mem_map.1 (List.mem_reverse.1 mem)
      simpa [isWord_reverse] using h other found) (endsInk_iff_reverse.1 ends) stops
  unfold splitTrailing
  rw [reversed, split]
  simp only [List.reverse_reverse, List.map_reverse, List.map_map, Function.comp_def,
    List.map_id_fun', id_eq]

structure SplitEnd (text head : List Char) (run : List (List Char)) : Prop where
  words : ∀ word ∈ run, IsWord word ∧ looksLikeStyle word = true
  ends : EndsInk head
  stops : EndsRun head
  front : head <+: text

theorem split_splitTrailing (text : List Char) :
    SplitEnd text (splitTrailing text).1 (splitTrailing text).2 := by
  have split := split_splitWhile (fun word => looksLikeStyle word.reverse) text.reverse
  unfold splitTrailing
  refine ⟨?_, ?_, ?_, ?_⟩
  · intro word mem
    obtain ⟨other, found, rfl⟩ := List.mem_map.1 (List.mem_reverse.1 mem)
    have belongs := split.words other found
    exact ⟨isWord_reverse.2 belongs.1, belongs.2⟩
  · rw [endsInk_iff_reverse, List.reverse_reverse]
    exact split.starts
  · rw [EndsRun, List.reverse_reverse]
    exact split.stops
  · have suffix := List.reverse_prefix.2 split.suffix
    rwa [List.reverse_reverse] at suffix

end StyleRun

end SequenceDiagram
