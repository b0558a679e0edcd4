import SequenceDiagram.Text.Word

set_option autoImplicit false

namespace SequenceDiagram.Text

/-- What holds of every item of a list is decided by going through the list, also where the items
are characters and could be gone through one by one. -/
instance (priority := 2000) decidableForallMem {α : Type} (p : α → Prop) [DecidablePred p]
    (items : List α) : Decidable (∀ item ∈ items, p item) :=
  List.decidableBAll p items

instance (priority := 2000) decidableForallMemOption {α : Type} (p : α → Prop) [DecidablePred p]
    (item? : Option α) : Decidable (∀ item ∈ item?, p item) :=
  Option.decidableForallMem item?

def StartsInk (text : List Char) : Prop :=
  ∀ c ∈ text.head?, isBlank c = false

def EndsInk (text : List Char) : Prop :=
  ∀ c ∈ text.getLast?, isBlank c = false

structure IsTidy (line : List Char) : Prop where
  starts : StartsInk line
  ends : EndsInk line
  single : '\n' ∉ line

structure IsWord (word : List Char) : Prop where
  nonempty : word ≠ []
  ink : ∀ c ∈ word, isBlank c = false

theorem isBlank_space : isBlank ' ' = true := by decide

theorem ink_of_ascii {c : Char} (low : 0x20 < c.toNat) (high : c.toNat < 0x7F) :
    isBlank c = false := by
  simp only [isBlank, blank, CharClass.has, List.any_cons, List.any_nil, Bool.or_false,
    Bool.or_eq_false_iff, Bool.and_eq_false_iff, decide_eq_false_iff_not]
  omega

theorem ink_of_isAlphanum {c : Char} (h : c.isAlphanum = true) : isBlank c = false := by
  change (decide (65 ≤ c.val ∧ c.val ≤ 90) || (decide (97 ≤ c.val) && decide (c.val ≤ 122)) ||
    (decide (48 ≤ c.val) && decide (c.val ≤ 57))) = true at h
  simp only [Bool.or_eq_true, Bool.and_eq_true, decide_eq_true_eq, UInt32.le_iff_toNat_le] at h
  change ((65 ≤ c.toNat ∧ c.toNat ≤ 90) ∨ (97 ≤ c.toNat ∧ c.toNat ≤ 122)) ∨
    (48 ≤ c.toNat ∧ c.toNat ≤ 57) at h
  exact ink_of_ascii (by omega) (by omega)

theorem startsInk_nil : StartsInk [] := by simp [StartsInk]

theorem startsInk_cons {c : Char} {text : List Char} :
    StartsInk (c :: text) ↔ isBlank c = false := by simp [StartsInk]

theorem startsInk_append {a b : List Char} (h : a ≠ []) : StartsInk (a ++ b) ↔ StartsInk a := by
  cases a with
  | nil => contradiction
  | cons c a => simp [startsInk_cons]

theorem endsInk_nil : EndsInk [] := by simp [EndsInk]

theorem endsInk_append {a b : List Char} (h : b ≠ []) : EndsInk (a ++ b) ↔ EndsInk b := by
  simp [EndsInk, List.getLast?_append, List.getLast?_eq_some_getLast h]

theorem endsInk_iff_reverse {text : List Char} : EndsInk text ↔ StartsInk text.reverse := by
  simp [EndsInk, StartsInk]

theorem IsWord.startsInk {word : List Char} (h : IsWord word) : StartsInk word :=
  fun c hc => h.ink c (List.mem_of_mem_head? hc)

theorem IsWord.endsInk {word : List Char} (h : IsWord word) : EndsInk word :=
  fun c hc => h.ink c (List.mem_of_mem_getLast? hc)

theorem IsWord.single {word : List Char} (h : IsWord word) : '\n' ∉ word :=
  fun mem => absurd (h.ink _ mem) (by decide)

theorem IsWord.isTidy {word : List Char} (h : IsWord word) : IsTidy word :=
  ⟨h.startsInk, h.endsInk, h.single⟩

def IsKeyword (keyword : String) : Prop :=
  keyword.toList ≠ [] ∧ keyword.toList.all Char.isLower = true

instance (keyword : String) : Decidable (IsKeyword keyword) :=
  inferInstanceAs (Decidable (_ ∧ _))

theorem IsKeyword.isAlphanum {keyword : String} (h : IsKeyword keyword) {c : Char}
    (mem : c ∈ keyword.toList) : c.isAlphanum = true := by
  have lower := List.all_eq_true.1 h.2 c mem
  change (c.isUpper || c.isLower || c.isDigit) = true
  rw [lower, Bool.or_true, Bool.true_or]

theorem IsKeyword.isWord {keyword : String} (h : IsKeyword keyword) : IsWord keyword.toList where
  nonempty := h.1
  ink _ mem := ink_of_isAlphanum (h.isAlphanum mem)

/-- What is looked up by its keyword bears that keyword. -/
theorem keyword_of_find? {α : Type} {all : List α} {name : α → String} {keyword : String} {a : α}
    (h : (all.find? fun a => name a = keyword) = some a) : a ∈ all ∧ name a = keyword := by
  have found := List.find?_some h
  exact ⟨List.mem_of_find?_eq_some h, of_decide_eq_true found⟩

theorem trimStart_eq_self_of_startsInk {text : List Char} (h : StartsInk text) :
    trimStart text = text := by
  cases text with
  | nil => rfl
  | cons c text => exact trimStart_eq_self (startsInk_cons.1 h)

theorem startsInk_trimStart (text : List Char) : StartsInk (trimStart text) := by
  intro c hc
  have := List.head?_dropWhile_not isBlank text
  rw [trimStart] at hc
  rw [hc] at this
  simpa using this

theorem trimEnd_eq_reverse (text : List Char) : trimEnd text = (trimStart text.reverse).reverse :=
  rfl

theorem trimEnd_eq_self_of_endsInk {text : List Char} (h : EndsInk text) : trimEnd text = text := by
  rw [trimEnd_eq_reverse, trimStart_eq_self_of_startsInk (endsInk_iff_reverse.1 h),
    List.reverse_reverse]

theorem endsInk_trimEnd (text : List Char) : EndsInk (trimEnd text) := by
  rw [endsInk_iff_reverse, trimEnd_eq_reverse, List.reverse_reverse]
  exact startsInk_trimStart _

theorem trimStart_suffix (text : List Char) : trimStart text <:+ text :=
  List.dropWhile_suffix isBlank

theorem trimEnd_isStart (text : List Char) : trimEnd text <+: text := by
  have h := List.reverse_prefix.2 (trimStart_suffix text.reverse)
  rwa [List.reverse_reverse, ← trimEnd_eq_reverse] at h

theorem trim_subset (text : List Char) : trim text ⊆ text :=
  fun _ hc => (trimStart_suffix text).subset ((trimEnd_isStart (trimStart text)).subset hc)

theorem StartsInk.of_start {a b : List Char} (h : StartsInk b) (part : a <+: b) :
    StartsInk a := by
  obtain ⟨c, rfl⟩ := part
  cases a with
  | nil => exact startsInk_nil
  | cons d a => simpa [startsInk_cons] using h

theorem EndsInk.of_suffix {a b : List Char} (h : EndsInk b) (part : a <:+ b) : EndsInk a := by
  rw [endsInk_iff_reverse] at h ⊢
  exact h.of_start (List.reverse_prefix.2 part)

theorem trim_eq_self {text : List Char} (starts : StartsInk text) (ends : EndsInk text) :
    trim text = text := by
  rw [trim, trimStart_eq_self_of_startsInk starts, trimEnd_eq_self_of_endsInk ends]

theorem IsTidy.trim_eq {line : List Char} (h : IsTidy line) : trim line = line :=
  trim_eq_self h.starts h.ends

theorem isTidy_trim {text : List Char} (h : '\n' ∉ text) : IsTidy (trim text) where
  starts := (startsInk_trimStart text).of_start (trimEnd_isStart _)
  ends := endsInk_trimEnd _
  single mem := h (trim_subset text mem)

theorem trim_trim (text : List Char) : trim (trim text) = trim text :=
  trim_eq_self ((startsInk_trimStart text).of_start (trimEnd_isStart _)) (endsInk_trimEnd _)

theorem isTidy_nil : IsTidy [] := ⟨startsInk_nil, endsInk_nil, List.not_mem_nil⟩

theorem IsTidy.of_suffix {a b : List Char} (h : IsTidy b) (part : a <:+ b)
    (starts : StartsInk a) : IsTidy a :=
  ⟨starts, h.ends.of_suffix part, fun mem => h.single (part.subset mem)⟩

theorem single_of_mem_lines {line text : List Char} (h : line ∈ lines text) : '\n' ∉ line := by
  induction text generalizing line with
  | nil => contradiction
  | cons c text ih =>
    unfold lines at h
    split at h
    · rcases List.mem_cons.1 h with rfl | h
      · exact List.not_mem_nil
      · exact ih h
    · rename_i hc
      split at h
      · simp only [List.mem_singleton] at h
        subst h
        simpa using Ne.symm hc
      · rename_i first rest e
        rcases List.mem_cons.1 h with rfl | h
        · have hfirst := ih (e ▸ List.mem_cons_self : first ∈ lines text)
          simpa [hfirst] using Ne.symm hc
        · exact ih (e ▸ List.mem_cons_of_mem _ h)

theorem lines_append {line : List Char} (h : '\n' ∉ line) (rest : List Char) :
    lines (line ++ '\n' :: rest) = line :: lines rest := by
  induction line with
  | nil => simp [lines]
  | cons c line ih =>
    obtain ⟨hc, hline⟩ : '\n' ≠ c ∧ '\n' ∉ line := by simpa using h
    rw [List.cons_append, lines, if_neg (Ne.symm hc), ih hline]

/-- Reading the lines of a text gives back the lines that it was written from. -/
theorem lines_flatMap {written : List (List Char)} (h : ∀ line ∈ written, '\n' ∉ line) :
    lines (written.flatMap fun line => line ++ ['\n']) = written := by
  induction written with
  | nil => rfl
  | cons line written ih =>
    have later := ih fun other mem => h other (List.mem_cons_of_mem _ mem)
    rw [List.flatMap_cons, List.append_assoc, List.singleton_append,
      lines_append (h line List.mem_cons_self), later]

end SequenceDiagram.Text
