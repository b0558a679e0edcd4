import SequenceDiagram.Line.Alias
import SequenceDiagram.Proofs.Words

set_option autoImplicit false

namespace SequenceDiagram

open Text

namespace Alias

theorem isValid_iff {text : List Char} :
    isValid text = true ↔
      IsWord text ∧ (∀ c ∈ text.head?, c ∉ markers) ∧ ∀ c ∈ text, c ∉ reserved := by
  cases text with
  | nil =>
    constructor
    · intro h
      contradiction
    · rintro ⟨word, -⟩
      exact absurd rfl word.nonempty
  | cons first rest =>
    have blank : (first :: rest).any isBlank = true ↔ ¬IsWord (first :: rest) := by
      constructor
      · intro some word
        obtain ⟨c, mem, bad⟩ := List.any_eq_true.1 some
        rw [word.ink c mem] at bad
        contradiction
      · intro broken
        by_cases some : (first :: rest).any isBlank = true
        · exact some
        · have clean := List.any_eq_false.1 (Bool.not_eq_true _ ▸ some)
          exact absurd ⟨List.cons_ne_nil _ _, fun c mem => by simpa using clean c mem⟩ broken
    unfold isValid check
    simp only [List.head?_cons, Option.mem_def, Option.some.injEq, forall_eq']
    by_cases word : IsWord (first :: rest)
    · rw [if_neg (by rw [blank]; exact not_not_intro word)]
      by_cases marker : first ∈ markers
      · simp [marker]
      · rw [if_neg (by simpa using marker)]
        cases found : (first :: rest).find? reserved.contains with
        | none =>
          have clean := List.find?_eq_none.1 found
          simp only [true_iff]
          exact ⟨word, marker, fun c mem => by simpa using clean c mem⟩
        | some c =>
          have mem := List.mem_of_find?_eq_some found
          have bad := List.find?_some found
          simp only [Bool.false_eq_true, false_iff]
          rintro ⟨-, -, clean⟩
          exact clean c mem (by simpa using bad)
    · rw [if_pos (blank.2 word)]
      simp [word]

variable {text : List Char}

theorem isWord_of_isValid (h : isValid text = true) : IsWord text := (isValid_iff.1 h).1

theorem ne_of_mem (h : isValid text = true) {c d : Char} (mem : c ∈ text) (other : d ∈ reserved) :
    c ≠ d := by
  rintro rfl
  exact (isValid_iff.1 h).2.2 c mem other

theorem not_mem_of_isValid (h : isValid text = true) {d : Char} (other : d ∈ reserved) :
    d ∉ text :=
  fun mem => ne_of_mem h mem other rfl

theorem head?_ne (h : isValid text = true) {d : Char} (other : d ∈ markers ∨ d ∈ reserved) :
    text.head? ≠ some d := by
  intro head
  rcases other with marker | other
  · exact (isValid_iff.1 h).2.1 d head marker
  · exact not_mem_of_isValid h other (List.mem_of_head? head)

theorem read?_ofList {key : String} (h : isValid key.toList = true) :
    read? key.toList = some key := by
  rw [read?, if_pos h, String.ofList_toList]

theorem isValid_of_read? {key : String} (h : read? text = some key) :
    isValid key.toList = true ∧ key.toList = text := by
  unfold read? at h
  split at h
  · rename_i valid
    rw [← Option.some.inj h, String.toList_ofList]
    exact ⟨valid, rfl⟩
  · contradiction

theorem readOnly?_ofList {key : String} (h : isValid key.toList = true) :
    readOnly? key.toList = some key := by
  rw [readOnly?, nextWord?_word (isWord_of_isValid h)]
  exact read?_ofList h

theorem isValid_of_readOnly? {key : String} (h : readOnly? text = some key) :
    isValid key.toList = true := by
  unfold readOnly? at h
  split at h
  · exact (isValid_of_read? h).1
  · contradiction

end Alias

end SequenceDiagram
