import SequenceDiagram.Text.Blank

set_option autoImplicit false

namespace SequenceDiagram.Text

def nextWord? (text : List Char) : Option (List Char × List Char) :=
  match trimStart text with
  | [] => none
  | rest@(_ :: _) =>
    some (rest.takeWhile (!isBlank ·), trimStart (rest.dropWhile (!isBlank ·)))

theorem length_lt_of_nextWord? {text word rest : List Char}
    (h : nextWord? text = some (word, rest)) : rest.length < text.length := by
  unfold nextWord? at h
  split at h
  · contradiction
  · rename_i c cs e
    cases h
    have hc : isBlank c = false := by
      have := List.head?_dropWhile_not isBlank text
      rw [show List.dropWhile isBlank text = c :: cs from e] at this
      simpa using this
    have trimmed := length_trimStart_le text
    have dropped := length_trimStart_le ((c :: cs).dropWhile (!isBlank ·))
    have short : (List.dropWhile (fun x => !isBlank x) cs).length ≤ cs.length :=
      (List.dropWhile_sublist _).length_le
    simp only [e, List.length_cons] at trimmed
    simp only [List.dropWhile_cons, hc, Bool.not_false, ite_true] at dropped ⊢
    omega

def words (text : List Char) : List (List Char) :=
  match _h : nextWord? text with
  | none => []
  | some (word, rest) => word :: words rest
termination_by text.length
decreasing_by exact length_lt_of_nextWord? _h

def afterKeyword? (keyword text : List Char) : Option (List Char) :=
  match nextWord? text with
  | some (word, rest) => if word = keyword then some rest else none
  | none => none

def after? : List Char → List Char → Option (List Char)
  | [], text => some text
  | _ :: _, [] => none
  | c :: start, d :: text => if c = d then after? start text else none

theorem after?_append (start text : List Char) : after? start (start ++ text) = some text := by
  induction start with
  | nil => rfl
  | cons c start ih => simp [after?, ih]

theorem eq_append_of_after? {start text rest : List Char} (h : after? start text = some rest) :
    text = start ++ rest := by
  fun_induction after? start text with
  | case1 => simp_all
  | case2 => contradiction
  | case3 start d text ih => simp [ih h]
  | case4 => contradiction

def cut? (separator : Char) : List Char → Option (List Char × List Char)
  | [] => none
  | c :: text =>
    if c = separator then some ([], text)
    else (cut? separator text).map fun parts => (c :: parts.1, parts.2)

/-- The parts of a text between separators: one more than there are separators. -/
def split (separator : Char) : List Char → List (List Char)
  | [] => [[]]
  | c :: text =>
    if c = separator then [] :: split separator text
    else match split separator text with
      | [] => [[c]]
      | part :: parts => (c :: part) :: parts

/-- The lines of a text. A final line feed ends the last line and starts none. -/
def lines : List Char → List (List Char)
  | [] => []
  | c :: text =>
    if c = '\n' then [] :: lines text
    else match lines text with
      | [] => [[c]]
      | line :: rest => (c :: line) :: rest

def contains (part : List Char) : List Char → Bool
  | [] => part.isEmpty
  | c :: text => part.isPrefixOf (c :: text) || contains part text

def join (separator : List Char) : List (List Char) → List Char
  | [] => []
  | [part] => part
  | part :: parts => part ++ separator ++ join separator parts

/-- The parts that are not empty, with one space between them. -/
def spaced (parts : List (List Char)) : List Char :=
  join [' '] (parts.filter fun part => !part.isEmpty)

end SequenceDiagram.Text
