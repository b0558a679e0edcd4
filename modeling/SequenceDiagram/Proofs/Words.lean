import SequenceDiagram.Proofs.Ink

set_option autoImplicit false

namespace SequenceDiagram.Text

def padded (text : List Char) : List Char :=
  if text = [] then [] else ' ' :: text

def wordsThen (words : List (List Char)) (rest : List Char) : List Char :=
  words.foldr (fun word text => word ++ padded text) rest

theorem padded_nil : padded [] = [] := rfl

theorem padded_of_ne {text : List Char} (h : text ≠ []) : padded text = ' ' :: text := if_neg h

theorem padded_append {a : List Char} (h : a ≠ []) (b : List Char) :
    padded (a ++ b) = padded a ++ b := by
  rw [padded_of_ne h, padded_of_ne (by simp [h]), List.cons_append]

theorem trimStart_padded {text : List Char} (h : StartsInk text) : trimStart (padded text) = text := by
  by_cases empty : text = []
  · subst empty
    rfl
  · rw [padded_of_ne empty, trimStart, List.dropWhile_cons, if_pos isBlank_space]
    exact trimStart_eq_self_of_startsInk h

theorem nextWord?_append {word rest : List Char} (h : IsWord word)
    (gap : rest = [] ∨ ∃ c text, rest = c :: text ∧ isBlank c = true) :
    nextWord? (word ++ rest) = some (word, trimStart rest) := by
  have ink : ∀ c ∈ word, (!isBlank c) = true := fun c hc => by simp [h.ink c hc]
  have taken : (word ++ rest).takeWhile (!isBlank ·) = word := by
    rw [List.takeWhile_append_of_pos ink]
    rcases gap with rfl | ⟨c, text, rfl, blank⟩ <;> simp [*]
  have left : (word ++ rest).dropWhile (!isBlank ·) = rest := by
    rw [List.dropWhile_append_of_pos ink]
    rcases gap with rfl | ⟨c, text, rfl, blank⟩ <;> simp [*]
  have starts : trimStart (word ++ rest) = word ++ rest :=
    trimStart_eq_self_of_startsInk ((startsInk_append h.nonempty).2 h.startsInk)
  have some : word ++ rest ≠ [] := by simp [h.nonempty]
  unfold nextWord?
  rw [starts]
  split
  · contradiction
  · rename_i e
    rw [← e, taken, left]

theorem nextWord?_padded {word rest : List Char} (h : IsWord word) (starts : StartsInk rest) :
    nextWord? (word ++ padded rest) = some (word, rest) := by
  rw [nextWord?_append h, trimStart_padded starts]
  by_cases empty : rest = []
  · simp [empty, padded_nil]
  · exact Or.inr ⟨' ', rest, padded_of_ne empty, isBlank_space⟩

theorem nextWord?_word {word : List Char} (h : IsWord word) : nextWord? word = some (word, []) := by
  simpa [padded_nil] using nextWord?_padded h startsInk_nil

theorem nextWord?_trimStart (text : List Char) : nextWord? (trimStart text) = nextWord? text := by
  unfold nextWord?
  rw [trimStart_eq_self_of_startsInk (startsInk_trimStart text)]

/-- A text is its first word, a gap and the text after it. -/
theorem exists_gap_of_nextWord? {text word rest : List Char}
    (h : nextWord? text = some (word, rest)) :
    ∃ gap, trimStart text = word ++ (gap ++ rest) ∧ (∀ c ∈ gap, isBlank c = true) ∧
      (gap = [] → rest = []) := by
  unfold nextWord? at h
  split at h
  · contradiction
  · rename_i c cs e
    simp only [Option.some.injEq, Prod.mk.injEq] at h
    obtain ⟨rfl, rfl⟩ := h
    rw [e]
    let tail := (c :: cs).dropWhile (!isBlank ·)
    refine ⟨tail.takeWhile isBlank, ?_, ?_, ?_⟩
    · rw [trimStart, List.takeWhile_append_dropWhile, List.takeWhile_append_dropWhile]
    · exact fun c hc => List.all_eq_true.1 List.all_takeWhile c hc
    · intro noGap
      cases e : tail with
      | nil =>
        change trimStart tail = []
        rw [e]
        rfl
      | cons d ds =>
        have first := List.head?_dropWhile_not (fun c => !isBlank c) (c :: cs)
        rw [show (c :: cs).dropWhile (fun c => !isBlank c) = d :: ds from e] at first
        rw [e] at noGap
        have blank : isBlank d = true := by simpa using first
        simp [blank] at noGap

theorem isWord_of_nextWord? {text word rest : List Char}
    (h : nextWord? text = some (word, rest)) : IsWord word := by
  have starts := startsInk_trimStart text
  unfold nextWord? at h
  split at h
  · contradiction
  · rename_i c cs e
    simp only [Option.some.injEq, Prod.mk.injEq] at h
    rw [e] at starts
    have ink := startsInk_cons.1 starts
    constructor
    · rw [← h.1]
      simp [ink]
    · intro d hd
      rw [← h.1] at hd
      simpa using List.all_eq_true.1 List.all_takeWhile d hd

theorem startsInk_of_nextWord? {text word rest : List Char}
    (h : nextWord? text = some (word, rest)) : StartsInk rest := by
  unfold nextWord? at h
  split at h
  · contradiction
  · simp only [Option.some.injEq, Prod.mk.injEq] at h
    rw [← h.2]
    exact startsInk_trimStart _

theorem suffix_of_nextWord? {text word rest : List Char}
    (h : nextWord? text = some (word, rest)) : rest <:+ text := by
  obtain ⟨gap, whole, -, -⟩ := exists_gap_of_nextWord? h
  have inside : rest <:+ trimStart text := ⟨word ++ gap, by rw [whole, List.append_assoc]⟩
  exact inside.trans (trimStart_suffix text)

theorem nextWord?_eq_none_iff {text : List Char} : nextWord? text = none ↔ trimStart text = [] := by
  unfold nextWord?
  split <;> simp [*]

theorem wordsThen_cons (word : List Char) (words : List (List Char)) (rest : List Char) :
    wordsThen (word :: words) rest = word ++ padded (wordsThen words rest) := rfl

theorem wordsThen_singleton (word rest : List Char) :
    wordsThen [word] rest = word ++ padded rest := rfl

theorem wordsThen_append (front words : List (List Char)) (rest : List Char) :
    wordsThen (front ++ words) rest = wordsThen front (wordsThen words rest) :=
  List.foldr_append

theorem wordsThen_ne_nil {words : List (List Char)} (h : ∀ word ∈ words, word ≠ [])
    (some : words ≠ []) (rest : List Char) : wordsThen words rest ≠ [] := by
  cases words with
  | nil => exact absurd rfl some
  | cons word words => simp [wordsThen_cons, h word List.mem_cons_self]

theorem wordsThen_nil_append {words : List (List Char)} (h : ∀ word ∈ words, word ≠ [])
    (some : words ≠ []) (rest : List Char) :
    wordsThen words [] ++ padded rest = wordsThen words rest := by
  induction words with
  | nil => exact absurd rfl some
  | cons word words ih =>
    have later : ∀ other ∈ words, other ≠ [] := fun other mem => h other (List.mem_cons_of_mem _ mem)
    by_cases last : words = []
    · simp [last, wordsThen, padded_nil]
    · rw [wordsThen_cons, wordsThen_cons, List.append_assoc,
        ← padded_append (wordsThen_ne_nil later last []), ih later last]

theorem wordsThen_ne_nil_of_rest (words : List (List Char)) {rest : List Char} (some : rest ≠ []) :
    wordsThen words rest ≠ [] := by
  induction words with
  | nil => exact some
  | cons word words ih => simp [wordsThen_cons, padded_of_ne ih]

theorem wordsThen_append_right (words : List (List Char)) {rest : List Char} (some : rest ≠ [])
    (suffix : List Char) : wordsThen words rest ++ suffix = wordsThen words (rest ++ suffix) := by
  induction words with
  | nil => rfl
  | cons word words ih =>
    have inner := wordsThen_ne_nil_of_rest words some
    rw [wordsThen_cons, wordsThen_cons, List.append_assoc, ← padded_append inner, ih]

/-- Words that were joined before are written as they stand. -/
theorem wordsThen_joined {words : List (List Char)} (h : ∀ word ∈ words, word ≠ [])
    (rest : List Char) :
    wordsThen ([wordsThen words []].filter fun part => !part.isEmpty) rest =
      wordsThen words rest := by
  by_cases none : words = []
  · simp [none, wordsThen]
  · have some := wordsThen_ne_nil h none []
    rw [List.filter_cons_of_pos (by simpa using some), List.filter_nil, wordsThen_cons]
    exact wordsThen_nil_append h none rest

theorem startsInk_wordsThen {words : List (List Char)} {rest : List Char}
    (h : ∀ word ∈ words, IsWord word) (starts : StartsInk rest) :
    StartsInk (wordsThen words rest) := by
  cases words with
  | nil => exact starts
  | cons word words =>
    have first := h word List.mem_cons_self
    rw [wordsThen_cons, startsInk_append first.nonempty]
    exact first.startsInk

theorem nextWord?_wordsThen {word : List Char} {words : List (List Char)} {rest : List Char}
    (h : ∀ other ∈ word :: words, IsWord other) (starts : StartsInk rest) :
    nextWord? (wordsThen (word :: words) rest) = some (word, wordsThen words rest) :=
  nextWord?_padded (h word List.mem_cons_self)
    (startsInk_wordsThen (fun other mem => h other (List.mem_cons_of_mem _ mem)) starts)

theorem afterKeyword?_wordsThen {keyword rest : List Char} {words : List (List Char)}
    (h : ∀ word ∈ keyword :: words, IsWord word) (starts : StartsInk rest) :
    afterKeyword? keyword (wordsThen (keyword :: words) rest) = some (wordsThen words rest) := by
  rw [afterKeyword?, nextWord?_wordsThen h starts]
  simp

theorem afterKeyword?_eq_none {keyword text : List Char}
    (h : ∀ rest, nextWord? text ≠ some (keyword, rest)) : afterKeyword? keyword text = none := by
  unfold afterKeyword?
  split
  · rename_i word rest first
    split
    · rename_i same
      exact absurd (same ▸ first) (h rest)
    · rfl
  · rfl

theorem exists_of_afterKeyword? {keyword text rest : List Char}
    (h : afterKeyword? keyword text = some rest) : nextWord? text = some (keyword, rest) := by
  unfold afterKeyword? at h
  split at h
  · rename_i word rest' first
    split at h
    · rename_i same
      rw [first, same, Option.some.inj h]
    · contradiction
  · contradiction

theorem words_of_nextWord? {text word rest : List Char} (h : nextWord? text = some (word, rest)) :
    words text = word :: words rest := by
  rw [words]
  split
  · rename_i none
    rw [h] at none
    contradiction
  · rename_i word' rest' some
    rw [h, Option.some.injEq, Prod.mk.injEq] at some
    rw [some.1, some.2]

theorem words_eq_nil {text : List Char} (h : nextWord? text = none) : words text = [] := by
  rw [words]
  split
  · rfl
  · rename_i some
    rw [h] at some
    contradiction

theorem words_wordsThen {words' : List (List Char)} {rest : List Char}
    (h : ∀ word ∈ words', IsWord word) (starts : StartsInk rest) :
    words (wordsThen words' rest) = words' ++ words rest := by
  induction words' with
  | nil => rfl
  | cons word words' ih =>
    rw [words_of_nextWord? (nextWord?_wordsThen h starts),
      ih fun other mem => h other (List.mem_cons_of_mem _ mem)]
    rfl

theorem mem_padded {c : Char} {text : List Char} (h : c ∈ padded text) : c = ' ' ∨ c ∈ text := by
  unfold padded at h
  split at h
  · contradiction
  · simpa using h

theorem mem_wordsThen {c : Char} {words : List (List Char)} {rest : List Char}
    (h : c ∈ wordsThen words rest) : c = ' ' ∨ (∃ word ∈ words, c ∈ word) ∨ c ∈ rest := by
  induction words with
  | nil => exact Or.inr (Or.inr h)
  | cons word words ih =>
    rcases List.mem_append.1 h with h | h
    · exact Or.inr (Or.inl ⟨word, List.mem_cons_self, h⟩)
    · rcases mem_padded h with h | h
      · exact Or.inl h
      · rcases ih h with h | ⟨other, mem, h⟩ | h
        · exact Or.inl h
        · exact Or.inr (Or.inl ⟨other, List.mem_cons_of_mem _ mem, h⟩)
        · exact Or.inr (Or.inr h)

theorem endsInk_append_padded {word rest : List Char} (h : EndsInk word) (ends : EndsInk rest) :
    EndsInk (word ++ padded rest) := by
  by_cases empty : rest = []
  · simpa [empty, padded_nil] using h
  · rw [padded_of_ne empty, ← List.singleton_append, ← List.append_assoc, endsInk_append empty]
    exact ends

theorem endsInk_wordsThen {words : List (List Char)} {rest : List Char}
    (h : ∀ word ∈ words, IsWord word) (ends : EndsInk rest) : EndsInk (wordsThen words rest) := by
  induction words with
  | nil => exact ends
  | cons word words ih =>
    exact endsInk_append_padded (h word List.mem_cons_self).endsInk
      (ih fun other mem => h other (List.mem_cons_of_mem _ mem))

theorem isTidy_wordsThen {words : List (List Char)} {rest : List Char}
    (h : ∀ word ∈ words, IsWord word) (tidy : IsTidy rest) : IsTidy (wordsThen words rest) where
  starts := startsInk_wordsThen h tidy.starts
  ends := endsInk_wordsThen h tidy.ends
  single mem := by
    rcases mem_wordsThen mem with blank | ⟨word, hword, mem⟩ | mem
    · exact absurd blank (by decide)
    · exact (h word hword).single mem
    · exact tidy.single mem

theorem join_ne_nil {separator part : List Char} {parts : List (List Char)} (h : part ≠ []) :
    join separator (part :: parts) ≠ [] := by
  cases parts with
  | nil => exact h
  | cons next parts => simp [join, h]

theorem spaced_cons {part : List Char} (h : part ≠ []) (parts : List (List Char)) :
    spaced (part :: parts) = part ++ padded (spaced parts) := by
  have kept : (!part.isEmpty) = true := by simp [h]
  unfold spaced
  rw [List.filter_cons, if_pos kept]
  cases e : parts.filter fun part => !part.isEmpty with
  | nil => simp [join, padded_nil]
  | cons next parts' =>
    have nonempty : next ≠ [] := by
      have mem : next ∈ parts.filter fun part => !part.isEmpty := e ▸ List.mem_cons_self
      simpa using (List.mem_filter.1 mem).2
    rw [padded_of_ne (join_ne_nil nonempty)]
    simp [join]

/-- Words, some of which may be missing, and a text. -/
theorem spaced_append (parts : List (List Char)) (rest : List Char) :
    spaced (parts ++ [rest]) = wordsThen (parts.filter fun part => !part.isEmpty) rest := by
  induction parts with
  | nil =>
    by_cases empty : rest = []
    · subst empty
      rfl
    · rw [List.nil_append, spaced_cons empty]
      simp [spaced, join, padded_nil, wordsThen]
  | cons part parts ih =>
    by_cases empty : part = []
    · subst empty
      exact ih
    · rw [List.cons_append, spaced_cons empty, ih, List.filter_cons, if_pos (by simp [empty]),
        wordsThen_cons]

theorem spaced_eq (parts : List (List Char)) :
    spaced parts = wordsThen (parts.filter fun part => !part.isEmpty) [] := by
  rw [← spaced_append]
  simp [spaced]

end SequenceDiagram.Text
