set_option autoImplicit false

namespace SequenceDiagram

inductive Forest (ν μ : Type)
  | nil
  | tree (label : ν) (body next : Forest ν μ)
  | mark (label : μ) (next : Forest ν μ)
deriving DecidableEq, Repr

namespace Forest
variable {ν μ : Type}

def append : Forest ν μ → Forest ν μ → Forest ν μ
  | nil, row => row
  | tree label body next, row => tree label body (next.append row)
  | mark label next, row => mark label (next.append row)

/-- Every label, a tree before its body and the body before what is next. -/
def labels : Forest ν μ → List ν
  | nil => []
  | tree label body next => label :: (body.labels ++ next.labels)
  | mark _ next => next.labels

theorem append_nil (row : Forest ν μ) : row.append nil = row := by
  induction row with
  | nil => rfl
  | tree label body next _ ih => rw [append, ih]
  | mark label next ih => rw [append, ih]

theorem append_assoc (a b c : Forest ν μ) : (a.append b).append c = a.append (b.append c) := by
  induction a with
  | nil => rfl
  | tree label body next _ ih => rw [append, append, append, ih]
  | mark label next ih => rw [append, append, append, ih]

theorem labels_append (a b : Forest ν μ) : (a.append b).labels = a.labels ++ b.labels := by
  induction a with
  | nil => rfl
  | tree label body next _ ih => simp [append, labels, ih]
  | mark label next ih => simp [append, labels, ih]

end Forest

end SequenceDiagram
