import SequenceDiagram.Proofs.Runs

set_option autoImplicit false

/-!
# Splitting style runs off

A text is cut into tokens at its blanks. The style words at its beginning, and those at its end, are
split off without losing a token, and as many as there are: what is left does not go on with a style
word. They are taken word by word, and each loop ends after as many rounds as there are words in its
run.
-/
namespace SequenceDiagram

namespace Text

/-- What stands between the blanks of a text. -/
def tokens (text : List Char) : List (List Char) :=
  (text.splitOnP isBlank).filter fun token => !token.isEmpty

theorem tokens_append_blank {c : Char} (blank : isBlank c = true) (a b : List Char) :
    tokens (a ++ c :: b) = tokens a ++ tokens b := by
  rw [tokens, List.splitOnP_append_cons a b blank, List.filter_append]
  rfl

theorem tokens_of_ink {ink : List Char} (h : ∀ c ∈ ink, isBlank c = false) :
    tokens ink = [ink].filter fun token => !token.isEmpty := by
  rw [tokens, List.splitOnP_eq_singleton h]

theorem tokens_of_isWord {word : List Char} (h : IsWord word) : tokens word = [word] := by
  rw [tokens_of_ink h.ink, List.filter_cons_of_pos (by simp [h.nonempty]), List.filter_nil]

/-- A text is ink up to its first blank, and what is behind that blank is a text again. -/
theorem ink_induction {motive : List Char → Prop}
    (last : ∀ ink, (∀ c ∈ ink, isBlank c = false) → motive ink)
    (next : ∀ ink c rest, (∀ d ∈ ink, isBlank d = false) → isBlank c = true → motive rest →
      motive (ink ++ c :: rest)) (text : List Char) : motive text := by
  induction size : text.length using Nat.strongRecOn generalizing text with
  | ind n ih =>
    have ink : ∀ c ∈ text.takeWhile (!isBlank ·), isBlank c = false := fun c mem => by
      simpa using List.all_eq_true.1 List.all_takeWhile c mem
    have whole := List.takeWhile_append_dropWhile (p := (!isBlank ·)) (l := text)
    have first := List.head?_dropWhile_not (!isBlank ·) text
    cases left : text.dropWhile (!isBlank ·) with
    | nil =>
      rw [left, List.append_nil] at whole
      rw [← whole]
      exact last _ ink
    | cons c rest =>
      rw [left] at whole first
      have shorter : rest.length < n := by
        rw [← size, ← whole, List.length_append, List.length_cons]
        omega
      rw [← whole]
      exact next _ c rest ink (by simpa using first) (ih _ shorter rest rfl)

theorem words_trimStart (text : List Char) : words (trimStart text) = words text := by
  have same := nextWord?_trimStart text
  cases first : nextWord? text with
  | none => rw [words_eq_nil first, words_eq_nil (same.trans first)]
  | some split =>
    obtain ⟨word, rest⟩ := split
    rw [words_of_nextWord? first, words_of_nextWord? (same.trans first)]

theorem words_eq_tokens (text : List Char) : words text = tokens text := by
  induction text using ink_induction with
  | last ink h =>
    by_cases empty : ink = []
    · rw [empty]
      exact words_eq_nil rfl
    · have word : IsWord ink := ⟨empty, h⟩
      rw [words_of_nextWord? (nextWord?_word word), tokens_of_isWord word]
      exact congrArg _ (words_eq_nil rfl)
  | next ink c rest h blank ih =>
    have behind : words (trimStart (c :: rest)) = tokens rest := by
      rw [trimStart, List.dropWhile_cons, if_pos blank, ← ih]
      exact words_trimStart rest
    rw [tokens_append_blank blank]
    by_cases empty : ink = []
    · rw [empty, List.nil_append, ← words_trimStart, behind]
      rfl
    · have word : IsWord ink := ⟨empty, h⟩
      have first := nextWord?_append word (Or.inr ⟨c, rest, rfl, blank⟩)
      rw [words_of_nextWord? first, behind, tokens_of_isWord word]
      rfl

theorem tokens_reverse (text : List Char) :
    tokens text.reverse = ((tokens text).map List.reverse).reverse := by
  induction text using ink_induction with
  | last ink h =>
    rw [tokens_of_ink h, tokens_of_ink fun c mem => h c (List.mem_reverse.1 mem)]
    by_cases empty : ink = [] <;> simp [empty]
  | next ink c rest h blank ih =>
    have turned : (ink ++ c :: rest).reverse = rest.reverse ++ c :: ink.reverse := by simp
    rw [turned, tokens_append_blank blank, tokens_append_blank blank, ih, tokens_of_ink h,
      tokens_of_ink fun c mem => h c (List.mem_reverse.1 mem)]
    by_cases empty : ink = [] <;> simp [empty]

theorem flatten_tokens (text : List Char) :
    (tokens text).flatten = text.filter (!isBlank ·) := by
  have kept {ink : List Char} (h : ∀ c ∈ ink, isBlank c = false) :
      ink.filter (!isBlank ·) = ink := List.filter_eq_self.2 fun c mem => by simp [h c mem]
  induction text using ink_induction with
  | last ink h =>
    rw [tokens_of_ink h, kept h]
    by_cases empty : ink = [] <;> simp [empty]
  | next ink c rest h blank ih =>
    rw [tokens_append_blank blank, List.flatten_append, ih, List.filter_append, kept h,
      List.filter_cons_of_neg (by simp [blank]), tokens_of_ink h]
    by_cases empty : ink = [] <;> simp [empty]

theorem tokens_eq_nil_iff {text : List Char} (starts : StartsInk text) :
    tokens text = [] ↔ text = [] := by
  refine ⟨fun none => ?_, fun empty => empty ▸ rfl⟩
  have held := flatten_tokens text
  rw [none] at held
  cases text with
  | nil => rfl
  | cons c text => simp [startsInk_cons.1 starts] at held

theorem eq_of_suffix {text a b : List Char} (enda : a <:+ text) (endb : b <:+ text)
    (inka : StartsInk a) (inkb : StartsInk b) (same : tokens a = tokens b) : a = b := by
  -- the longer end would start with ink that no token of the shorter one holds
  have shorter {a b : List Char} (part : a <:+ b) (ink : StartsInk b) (same : tokens a = tokens b) :
      a = b := by
    obtain ⟨front, rfl⟩ := part
    have none : front.filter (!isBlank ·) = [] := by
      have held := congrArg List.flatten same
      rw [flatten_tokens, flatten_tokens, List.filter_append] at held
      exact List.self_eq_append_left.1 held
    cases front with
    | nil => rfl
    | cons c front =>
      have first : isBlank c = false := startsInk_cons.1 ink
      simp [first] at none
  rcases List.suffix_or_suffix_of_suffix enda endb with part | part
  · exact shorter part inkb same
  · exact (shorter part inka same.symm).symm

end Text

open Text

namespace StyleRun

/-- A text is a run of words that pass a test, and a rest that starts with no such word. -/
structure IsSplit (test : List Char → Bool) (text : List Char) (run : List (List Char))
    (rest : List Char) : Prop where
  tokens : Text.tokens text = run ++ Text.tokens rest
  passed : ∀ word ∈ run, test word = true
  suffix : rest <:+ text
  starts : StartsInk rest
  stops : rest = [] ∨ ∃ word, (Text.tokens rest).head? = some word ∧ test word = false

theorem isSplit_splitWhile (test : List Char → Bool) (text : List Char) :
    IsSplit test text (splitWhile test text).1 (splitWhile test text).2 := by
  have split := split_splitWhile test text
  refine ⟨?_, fun word mem => (split.words word mem).2, split.suffix, split.starts, ?_⟩
  · rw [← words_eq_tokens, ← words_eq_tokens]
    exact split.all
  · cases first : nextWord? (splitWhile test text).2 with
    | none =>
      rw [nextWord?_eq_none_iff, trimStart_eq_self_of_startsInk split.starts] at first
      exact Or.inl first
    | some parts =>
      obtain ⟨word, rest⟩ := parts
      refine Or.inr ⟨word, ?_, split.stops word rest first⟩
      rw [← words_eq_tokens, words_of_nextWord? first]
      rfl

namespace IsSplit
variable {test : List Char → Bool} {text rest rest' : List Char} {run run' : List (List Char)}

/-- The run is as long as it can be, and the rest holds the tokens behind it. -/
theorem run_eq (split : IsSplit test text run rest) :
    run = (Text.tokens text).takeWhile test ∧
      Text.tokens rest = (Text.tokens text).dropWhile test := by
  have stops : (Text.tokens rest).takeWhile test = [] ∧
      (Text.tokens rest).dropWhile test = Text.tokens rest := by
    rcases split.stops with rfl | ⟨word, first, miss⟩
    · exact ⟨rfl, rfl⟩
    · obtain ⟨later, whole⟩ := List.head?_eq_some_iff.1 first
      simp [whole, miss]
  rw [split.tokens, List.takeWhile_append_of_pos split.passed,
    List.dropWhile_append_of_pos split.passed, stops.1, stops.2]
  exact ⟨(List.append_nil run).symm, rfl⟩

theorem unique (split : IsSplit test text run rest) (split' : IsSplit test text run' rest') :
    run = run' ∧ rest = rest' :=
  ⟨split.run_eq.1.trans split'.run_eq.1.symm, eq_of_suffix split.suffix split'.suffix split.starts
    split'.starts (split.run_eq.2.trans split'.run_eq.2.symm)⟩

end IsSplit

theorem splitWhile_eq_iff {test : List Char → Bool} {text rest : List Char}
    {run : List (List Char)} : splitWhile test text = (run, rest) ↔ IsSplit test text run rest := by
  have split := isSplit_splitWhile test text
  constructor
  · intro same
    rwa [same] at split
  · intro other
    obtain ⟨runs, rests⟩ := split.unique other
    exact Prod.ext runs rests

structure IsSplitEnd (text head : List Char) (run : List (List Char)) : Prop where
  tokens : Text.tokens text = Text.tokens head ++ run
  passed : ∀ word ∈ run, looksLikeStyle word = true
  front : head <+: text
  ends : EndsInk head
  stops : Text.tokens head = [] ∨
    ∃ word, (Text.tokens head).getLast? = some word ∧ looksLikeStyle word = false

/-- From behind, a run at the end is one at the beginning. -/
theorem isSplitEnd_iff_reverse {text head : List Char} {run : List (List Char)} :
    IsSplitEnd text head run ↔ IsSplit (fun word => looksLikeStyle word.reverse) text.reverse
      (run.map List.reverse).reverse head.reverse := by
  have tokens : Text.tokens text.reverse =
      (run.map List.reverse).reverse ++ Text.tokens head.reverse ↔
        Text.tokens text = Text.tokens head ++ run := by
    rw [tokens_reverse, tokens_reverse, ← List.reverse_append, ← List.map_append,
      List.reverse_inj, List.map_inj_right fun _ _ => List.reverse_inj.1]
  have passed : (∀ word ∈ (run.map List.reverse).reverse, looksLikeStyle word.reverse = true) ↔
      ∀ word ∈ run, looksLikeStyle word = true := by
    simp only [List.mem_reverse, List.forall_mem_map, List.reverse_reverse]
  have ends : StartsInk head.reverse ↔ EndsInk head := endsInk_iff_reverse.symm
  have stops (ends : EndsInk head) : (head.reverse = [] ∨ ∃ word,
      (Text.tokens head.reverse).head? = some word ∧ looksLikeStyle word.reverse = false) ↔
        (Text.tokens head = [] ∨
          ∃ word, (Text.tokens head).getLast? = some word ∧ looksLikeStyle word = false) := by
    rw [← tokens_eq_nil_iff (endsInk_iff_reverse.1 ends), tokens_reverse, List.head?_reverse,
      List.getLast?_map]
    cases (Text.tokens head).getLast? <;> simp
  constructor
  · intro split
    exact ⟨tokens.2 split.tokens, passed.2 split.passed, List.reverse_suffix.2 split.front,
      ends.2 split.ends, (stops split.ends).2 split.stops⟩
  · intro split
    exact ⟨tokens.1 split.tokens, passed.1 split.passed, List.reverse_suffix.1 split.suffix,
      ends.1 split.starts, (stops (ends.1 split.starts)).1 split.stops⟩

theorem splitTrailing_eq_iff {text head : List Char} {run : List (List Char)} :
    splitTrailing text = (head, run) ↔ IsSplitEnd text head run := by
  have twice (words : List (List Char)) :
      ((words.map List.reverse).reverse.map List.reverse).reverse = words := by
    rw [List.map_reverse, List.reverse_reverse, List.map_map]
    exact (List.map_congr_left fun word _ => List.reverse_reverse word).trans (List.map_id words)
  rw [isSplitEnd_iff_reverse, ← splitWhile_eq_iff, splitTrailing]
  obtain ⟨words, rest⟩ := splitWhile (fun word => looksLikeStyle word.reverse) text.reverse
  rw [Prod.mk.injEq, Prod.mk.injEq]
  constructor
  · rintro ⟨rfl, rfl⟩
    exact ⟨(twice words).symm, (List.reverse_reverse rest).symm⟩
  · rintro ⟨rfl, rfl⟩
    exact ⟨List.reverse_reverse head, twice run⟩

/-- A loop that starts in one state stops in another one after so many rounds. -/
def StopsAfter {σ : Type} (round : σ → Option σ) : Nat → σ → σ → Prop
  | 0, start, stop => start = stop ∧ round start = none
  | rounds + 1, start, stop => ∃ next, round start = some next ∧ StopsAfter round rounds next stop

def takeFirst : List (List Char) × List Char → Option (List (List Char) × List Char)
  | (run, rest) =>
    match nextWord? rest with
    | some (word, rest) => if looksLikeStyle word then some (run ++ [word], rest) else none
    | none => none

def takeLast : List Char × List (List Char) → Option (List Char × List (List Char))
  | (head, run) =>
    let word := (head.reverse.takeWhile (!isBlank ·)).reverse
    let before := (head.reverse.dropWhile (!isBlank ·)).reverse
    if looksLikeStyle word then some (trimEnd before, word :: run) else none

/-- A loop splits a text when a round of it takes the next word and stops at one that fails the
test. `state` is what the loop keeps for a run that it has taken and the text behind it. -/
theorem stopsAfter_splitWhile {σ : Type} {round : σ → Option σ} {test : List Char → Bool}
    (state : List (List Char) → List Char → σ)
    (ends : ∀ run text, nextWord? text = none → round (state run (trimStart text)) = none)
    (takes : ∀ run text word rest, nextWord? text = some (word, rest) →
      round (state run (trimStart text)) =
        if test word then some (state (run ++ [word]) rest) else none)
    (text : List Char) (run : List (List Char)) :
    StopsAfter round (splitWhile test text).1.length (state run (trimStart text))
      (state (run ++ (splitWhile test text).1) (splitWhile test text).2) := by
  induction text using splitWhile.induct test generalizing run with
  | case1 text none =>
    rw [splitWhile_of_stops (by simp [Stops, none]), List.append_nil]
    exact ⟨rfl, ends run text none⟩
  | case2 text word rest some hit _ _ _ ih =>
    have later := ih (run ++ [word])
    rw [trimStart_eq_self_of_startsInk (startsInk_of_nextWord? some), List.append_assoc] at later
    rw [splitWhile_cons some hit]
    exact ⟨_, (takes run text word rest some).trans (if_pos hit), later⟩
  | case3 text word rest some miss =>
    have stops : Stops test text := by
      intro word' rest' some'
      rw [some, Option.some.injEq, Prod.mk.injEq] at some'
      exact some'.1 ▸ eq_false_of_ne_true miss
    rw [splitWhile_of_stops stops, List.append_nil]
    exact ⟨rfl, (takes run text word rest some).trans (if_neg miss)⟩

theorem stopsAfter_takeFirst (text : List Char) :
    StopsAfter takeFirst (splitLeading text).1.length ([], trimStart text)
      (splitLeading text) := by
  refine stopsAfter_splitWhile Prod.mk (fun run text none => ?_)
    (fun run text word rest some => ?_) text []
  · have first := (nextWord?_trimStart text).trans none
    simp [takeFirst, first]
  · have first := (nextWord?_trimStart text).trans some
    simp [takeFirst, first]

theorem takeLast_reverse {text word rest : List Char} (h : nextWord? text = some (word, rest))
    (run : List (List Char)) :
    takeLast ((trimStart text).reverse, run) =
      if looksLikeStyle word.reverse then some (rest.reverse, word.reverse :: run) else none := by
  unfold nextWord? at h
  split at h
  · contradiction
  · rename_i ink
    obtain ⟨taken, left⟩ := Prod.mk.inj (Option.some.inj h)
    rw [takeLast, List.reverse_reverse, ink, taken, trimEnd_eq_reverse, List.reverse_reverse, left]

theorem stopsAfter_takeLast (text : List Char) :
    StopsAfter takeLast (splitTrailing text).2.length (trimEnd text, []) (splitTrailing text) := by
  let state (run : List (List Char)) (rest : List Char) :=
    (rest.reverse, (run.map List.reverse).reverse)
  rw [splitTrailing, List.length_reverse, List.length_map, trimEnd_eq_reverse]
  refine stopsAfter_splitWhile state (fun run text none => ?_)
    (fun run text word rest some => ?_) text.reverse []
  · rw [nextWord?_eq_none_iff.1 none]
    rfl
  · simp [state, takeLast_reverse some]

/-- The style words at the two ends of a text are split off as long runs, and what is split off is
told by the tokens of the text alone. Each loop takes one word in a round, and stops. -/
theorem splits_off_runs (text : List Char) :
    (∀ run rest, splitLeading text = (run, rest) ↔ IsSplit looksLikeStyle text run rest) ∧
    (∀ head run, splitTrailing text = (head, run) ↔ IsSplitEnd text head run) ∧
    StopsAfter takeFirst (splitLeading text).1.length ([], trimStart text) (splitLeading text) ∧
    StopsAfter takeLast (splitTrailing text).2.length (trimEnd text, []) (splitTrailing text) := by
  exact ⟨fun _ _ => splitWhile_eq_iff, fun _ _ => splitTrailing_eq_iff, stopsAfter_takeFirst text,
    stopsAfter_takeLast text⟩

end StyleRun

end SequenceDiagram
