import SequenceDiagram.Proofs.Ink

set_option autoImplicit false

namespace SequenceDiagram.Text

theorem cut?_append {separator : Char} {front : List Char} (h : separator ∉ front)
    (rest : List Char) : cut? separator (front ++ separator :: rest) = some (front, rest) := by
  induction front with
  | nil => simp [cut?]
  | cons c front ih =>
    obtain ⟨hc, hfront⟩ : separator ≠ c ∧ separator ∉ front := by simpa using h
    rw [List.cons_append, cut?, if_neg (Ne.symm hc), ih hfront]
    rfl

theorem cut?_eq_none_iff {separator : Char} {text : List Char} :
    cut? separator text = none ↔ separator ∉ text := by
  induction text with
  | nil => simp [cut?]
  | cons c text ih =>
    by_cases hc : c = separator
    · simp [cut?, hc]
    · simp [cut?, hc, Ne.symm hc, ih]

theorem eq_of_cut? {separator : Char} {text front rest : List Char}
    (h : cut? separator text = some (front, rest)) :
    text = front ++ separator :: rest ∧ separator ∉ front := by
  induction text generalizing front with
  | nil => contradiction
  | cons c text ih =>
    unfold cut? at h
    split at h
    · rename_i hc
      simp only [Option.some.injEq, Prod.mk.injEq] at h
      obtain ⟨rfl, rfl⟩ := h
      simp [hc]
    · rename_i hc
      obtain ⟨parts, found, same⟩ := Option.map_eq_some_iff.1 h
      simp only [Prod.mk.injEq] at same
      obtain ⟨rfl, rfl⟩ := same
      obtain ⟨rfl, fresh⟩ := ih found
      simp [Ne.symm hc, fresh]

theorem split_append {separator : Char} {part : List Char} (h : separator ∉ part)
    (rest : List Char) :
    split separator (part ++ separator :: rest) = part :: split separator rest := by
  induction part with
  | nil => simp [split]
  | cons c part ih =>
    obtain ⟨hc, hpart⟩ : separator ≠ c ∧ separator ∉ part := by simpa using h
    rw [List.cons_append, split, if_neg (Ne.symm hc), ih hpart]

theorem split_eq_self {separator : Char} {part : List Char} (h : separator ∉ part) :
    split separator part = [part] := by
  induction part with
  | nil => rfl
  | cons c part ih =>
    obtain ⟨hc, hpart⟩ : separator ≠ c ∧ separator ∉ part := by simpa using h
    rw [split, if_neg (Ne.symm hc), ih hpart]

theorem split_ne_nil (separator : Char) (text : List Char) : split separator text ≠ [] := by
  cases text with
  | nil => exact List.cons_ne_nil _ _
  | cons c text =>
    unfold split
    split
    · exact List.cons_ne_nil _ _
    · split <;> exact List.cons_ne_nil _ _

theorem split_join {separator : Char} {parts : List (List Char)} (some : parts ≠ [])
    (h : ∀ part ∈ parts, separator ∉ part) : split separator (join [separator] parts) = parts := by
  induction parts with
  | nil => exact absurd rfl some
  | cons part parts ih =>
    have first := h part List.mem_cons_self
    cases parts with
    | nil => exact split_eq_self first
    | cons other parts =>
      have rest := ih (List.cons_ne_nil _ _) fun part mem => h part (List.mem_cons_of_mem _ mem)
      rw [join, List.append_assoc, List.singleton_append, split_append first, rest]
      simp

theorem mem_join {separator : List Char} {parts : List (List Char)} {c : Char}
    (h : c ∈ join separator parts) : c ∈ separator ∨ ∃ part ∈ parts, c ∈ part := by
  induction parts with
  | nil => contradiction
  | cons part parts ih =>
    cases parts with
    | nil => exact Or.inr ⟨part, List.mem_cons_self, h⟩
    | cons other parts =>
      rw [join] at h
      · rcases List.mem_append.1 h with h | h
        · rcases List.mem_append.1 h with h | h
          · exact Or.inr ⟨part, List.mem_cons_self, h⟩
          · exact Or.inl h
        · rcases ih h with h | ⟨found, mem, h⟩
          · exact Or.inl h
          · exact Or.inr ⟨found, List.mem_cons_of_mem _ mem, h⟩
      · simp

end SequenceDiagram.Text
