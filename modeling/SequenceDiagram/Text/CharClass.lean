set_option autoImplicit false

namespace SequenceDiagram.Text

abbrev CharClass := List (Nat × Nat)

namespace CharClass

def has (ranges : CharClass) (c : Char) : Bool :=
  ranges.any fun range => range.1 ≤ c.toNat && c.toNat ≤ range.2

/-- No range is empty, and each begins after the end of the one before, the first at `floor` or
later. -/
def isAscendingFrom (floor : Nat) : CharClass → Bool
  | [] => true
  | (first, last) :: ranges =>
    floor ≤ first && first ≤ last && isAscendingFrom (last + 1) ranges

/-- Whatever comes before the first range is not in the class. -/
theorem has_eq_false_of_lt {ranges : CharClass} {floor : Nat} {c : Char}
    (ascending : ranges.isAscendingFrom floor = true) (h : c.toNat < floor) :
    ranges.has c = false := by
  induction ranges generalizing floor with
  | nil => rfl
  | cons range ranges ih =>
    simp only [isAscendingFrom, Bool.and_eq_true, decide_eq_true_eq] at ascending
    obtain ⟨⟨begins, nonempty⟩, later⟩ := ascending
    have rest := ih later (by omega)
    simp only [has, List.any_cons] at rest ⊢
    simp only [rest, Bool.or_false, Bool.and_eq_false_iff, decide_eq_false_iff_not]
    omega

end CharClass

end SequenceDiagram.Text
