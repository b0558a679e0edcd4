import SequenceDiagram.Proofs.Words
import SequenceDiagram.Text.Integer

set_option autoImplicit false

namespace SequenceDiagram.Text

theorem writeNat_ne_nil (n : Nat) : writeNat n ≠ [] := Nat.toDigits_ne_nil

theorem isDigit_of_mem_writeNat {n : Nat} {c : Char} (h : c ∈ writeNat n) : c.isDigit = true :=
  Nat.isDigit_of_mem_toDigits (by decide) (by decide) h

theorem ink_of_isDigit {c : Char} (h : c.isDigit = true) : isBlank c = false :=
  ink_of_isAlphanum (by simp [Char.isAlphanum, h])

theorem ne_of_isDigit {c d : Char} (h : c.isDigit = true) (other : d.isDigit = false) : c ≠ d := by
  rintro rfl
  rw [h] at other
  contradiction

theorem isWord_writeNat (n : Nat) : IsWord (writeNat n) where
  nonempty := writeNat_ne_nil n
  ink _ hc := ink_of_isDigit (isDigit_of_mem_writeNat hc)

theorem exists_writeNat (n : Nat) :
    ∃ d digits, writeNat n = d :: digits ∧ d ≠ '+' ∧ d ≠ '-' := by
  cases e : writeNat n with
  | nil => exact absurd e (writeNat_ne_nil n)
  | cons d digits =>
    have digit : d.isDigit = true := isDigit_of_mem_writeNat (e ▸ List.mem_cons_self)
    exact ⟨d, digits, rfl, ne_of_isDigit digit rfl, ne_of_isDigit digit rfl⟩

theorem isWord_writeUInt32 (n : UInt32) : IsWord (writeUInt32 n) := isWord_writeNat n.toNat

theorem readUInt32?_writeUInt32 (n : UInt32) : readUInt32? (writeUInt32 n) = some n := by
  obtain ⟨d, digits, e, plus, -⟩ := exists_writeNat n.toNat
  have back := readNat?_writeNat n.toNat
  have small : n.toNat < UInt32.size := n.toNat_lt_size
  unfold readUInt32? writeUInt32
  rw [e] at back ⊢
  split
  · rename_i same
    exact absurd (List.cons.inj same).1 plus
  · simp [back, small]

theorem writeInt32_ne_nil (n : Int32) : writeInt32 n ≠ [] := by
  unfold writeInt32
  split
  · exact writeNat_ne_nil _
  · exact List.cons_ne_nil _ _

theorem isWord_writeInt32 (n : Int32) : IsWord (writeInt32 n) := by
  refine ⟨writeInt32_ne_nil n, ?_⟩
  unfold writeInt32
  split
  · exact (isWord_writeNat _).ink
  · intro c hc
    rcases List.mem_cons.1 hc with rfl | hc
    · decide
    · exact (isWord_writeNat _).ink c hc

theorem readInt32?_writeInt32 (n : Int32) : readInt32? (writeInt32 n) = some n := by
  have lower : Int32.minValue.toInt ≤ n.toInt := Int32.minValue_le_toInt n
  have upper : n.toInt ≤ Int32.maxValue.toInt := Int32.toInt_le n
  have whole : Int32.ofInt n.toInt = n := Int32.ofInt_toInt n
  unfold writeInt32 readInt32?
  cases value : n.toInt with
  | ofNat m =>
    obtain ⟨d, digits, e, plus, minus⟩ := exists_writeNat m
    have back := readNat?_writeNat m
    rw [value] at lower upper whole
    rw [e] at back
    simp only [e]
    have signed : ((readNat? (d :: digits)).map fun n => (n : Int)) = some (Int.ofNat m) := by
      rw [back]
      rfl
    split
    · rename_i k read
      split at read
      · rename_i same
        exact absurd (List.cons.inj same).1 minus
      · rename_i same
        exact absurd (List.cons.inj same).1 plus
      · obtain rfl := Option.some.inj (read.symm.trans signed)
        rw [if_pos ⟨lower, upper⟩, whole]
    · rename_i read
      split at read
      · rename_i same
        exact absurd (List.cons.inj same).1 minus
      · rename_i same
        exact absurd (List.cons.inj same).1 plus
      · exact absurd (read.symm.trans signed) nofun
  | negSucc m =>
    have back := readNat?_writeNat (m + 1)
    rw [value] at lower upper whole
    have negated : (readNat? (writeNat (m + 1))).map (fun n => -(n : Int)) =
        some (Int.negSucc m) := by
      rw [back]
      rfl
    simp only [negated]
    rw [if_pos ⟨lower, upper⟩, whole]

end SequenceDiagram.Text
