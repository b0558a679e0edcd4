import Mathlib.Algebra.Order.Field.Power
import Mathlib.Algebra.Order.Field.Rat
import Mathlib.Tactic.FieldSimp
import Mathlib.Tactic.Linarith
import Mathlib.Tactic.Positivity
import SequenceDiagram.Number.Decimal

set_option autoImplicit false

namespace SequenceDiagram

namespace Magnitude

theorem significand_pos (m : Magnitude) : 0 < m.significand := by
  rcases m.normal with ⟨full, -⟩ | ⟨positive, -⟩
  · exact Nat.lt_of_lt_of_le (by decide) full
  · exact positive

theorem toRat_pos (m : Magnitude) : 0 < m.toRat := by
  have positive := m.significand_pos
  unfold toRat
  positivity

theorem zpow_eq_div (e : Int) :
    (2 : Rat) ^ e = ((2 ^ e.toNat : Nat) : Rat) / ((2 ^ (-e).toNat : Nat) : Rat) := by
  rcases Int.le_total 0 e with nonneg | nonpos
  · obtain ⟨n, rfl⟩ := Int.eq_ofNat_of_zero_le nonneg
    simp
  · obtain ⟨n, h⟩ := Int.eq_ofNat_of_zero_le (Int.neg_nonneg.2 nonpos)
    obtain rfl : e = -n := by omega
    simp

theorem shift_lt_iff {n d : Nat} (hd : 0 < d) (e : Int) :
    n <<< (-e).toNat < d <<< e.toNat ↔ (n : Rat) / d < 2 ^ e := by
  have positive : (0 : Rat) < d := by exact_mod_cast hd
  rw [zpow_eq_div, div_lt_div_iff₀ positive (by positivity), Nat.shiftLeft_eq, Nat.shiftLeft_eq,
    mul_comm ((2 ^ e.toNat : Nat) : Rat)]
  exact_mod_cast Iff.rfl

theorem shift_eq {n d significand : Nat} (hd : 0 < d) {e : Int}
    (h : (n : Rat) / d = significand * 2 ^ e) :
    n <<< (-e).toNat = significand * (d <<< e.toNat) := by
  have positive : (0 : Rat) < d := by exact_mod_cast hd
  rw [zpow_eq_div] at h
  have cleared : (n : Rat) * (2 ^ (-e).toNat : Nat) = significand * (d * (2 ^ e.toNat : Nat)) := by
    have other : ((2 ^ (-e).toNat : Nat) : Rat) ≠ 0 := by positivity
    field_simp at h
    linarith
  rw [Nat.shiftLeft_eq, Nat.shiftLeft_eq]
  exact_mod_cast cleared

theorem quotient_bounds {n d : Nat} (hn : 0 < n) (hd : 0 < d) :
    (2 : Rat) ^ ((n.log2 : Int) - d.log2 - 1) < n / d ∧
      (n : Rat) / d < 2 ^ ((n.log2 : Int) - d.log2 + 1) := by
  have positive : (0 : Rat) < d := by exact_mod_cast hd
  have lowN : ((2 : Rat) ^ (n.log2 : Int)) ≤ n := by
    rw [zpow_natCast]
    exact_mod_cast Nat.log2_self_le (Nat.ne_of_gt hn)
  have highN : (n : Rat) < 2 ^ ((n.log2 : Int) + 1) := by
    rw [show ((n.log2 : Int) + 1) = ((n.log2 + 1 : Nat) : Int) by simp, zpow_natCast]
    exact_mod_cast Nat.lt_log2_self
  have lowD : ((2 : Rat) ^ (d.log2 : Int)) ≤ d := by
    rw [zpow_natCast]
    exact_mod_cast Nat.log2_self_le (Nat.ne_of_gt hd)
  have highD : (d : Rat) < 2 ^ ((d.log2 : Int) + 1) := by
    rw [show ((d.log2 : Int) + 1) = ((d.log2 + 1 : Nat) : Int) by simp, zpow_natCast]
    exact_mod_cast Nat.lt_log2_self
  constructor
  · rw [lt_div_iff₀ positive]
    calc (2 : Rat) ^ ((n.log2 : Int) - d.log2 - 1) * d
        < 2 ^ ((n.log2 : Int) - d.log2 - 1) * 2 ^ ((d.log2 : Int) + 1) := by gcongr
      _ = 2 ^ (n.log2 : Int) := by
          rw [← zpow_add₀ (by norm_num)]
          congr 1
          omega
      _ ≤ n := lowN
  · rw [div_lt_iff₀ positive]
    calc (n : Rat) < 2 ^ ((n.log2 : Int) + 1) := highN
      _ = 2 ^ ((n.log2 : Int) - d.log2 + 1) * 2 ^ (d.log2 : Int) := by
          rw [← zpow_add₀ (by norm_num)]
          congr 1
          omega
      _ ≤ 2 ^ ((n.log2 : Int) - d.log2 + 1) * d := by gcongr

/-- At its full exponent a fraction has 53 binary digits before the point. -/
theorem fullExponent_bounds {n d : Nat} (hn : 0 < n) (hd : 0 < d) :
    (2 : Rat) ^ (fullExponent n d + 52) ≤ n / d ∧
      (n : Rat) / d < 2 ^ (fullExponent n d + 53) := by
  obtain ⟨low, high⟩ := quotient_bounds hn hd
  unfold fullExponent
  by_cases below : n <<< (-((n.log2 : Int) - d.log2)).toNat < d <<< ((n.log2 : Int) - d.log2).toNat
  · rw [if_pos below]
    refine ⟨?_, ?_⟩
    · rw [show (n.log2 : Int) - d.log2 - 53 + 52 = n.log2 - d.log2 - 1 by omega]
      exact le_of_lt low
    · rw [show (n.log2 : Int) - d.log2 - 53 + 53 = n.log2 - d.log2 by omega]
      exact (shift_lt_iff hd _).1 below
  · rw [if_neg below]
    refine ⟨?_, ?_⟩
    · rw [show (n.log2 : Int) - d.log2 - 52 + 52 = n.log2 - d.log2 by omega]
      exact not_lt.1 (mt (shift_lt_iff hd _).2 below)
    · rw [show (n.log2 : Int) - d.log2 - 52 + 53 = n.log2 - d.log2 + 1 by omega]
      exact high

theorem leadingBit_eq : (leadingBit : Rat) = 2 ^ (52 : Int) := by
  norm_num [leadingBit]

theorem exponent_eq (m : Magnitude) {n d : Nat} (hn : 0 < n) (hd : 0 < d)
    (h : (n : Rat) / d = m.toRat) : max (fullExponent n d) (-1074) = m.exponent := by
  obtain ⟨low, high⟩ := fullExponent_bounds hn hd
  rw [h, toRat] at low high
  have two : (1 : Rat) < 2 := by norm_num
  have upper : (m.significand : Rat) * 2 ^ m.exponent < 2 ^ (m.exponent + 53) := by
    have small : m.significand < 2 * leadingBit := by
      rcases m.normal with ⟨-, less, -⟩ | ⟨-, less, -⟩ <;> omega
    have cast : (m.significand : Rat) < 2 ^ (53 : Int) := by
      have bound : (m.significand : Rat) < 2 * leadingBit := by exact_mod_cast small
      rw [leadingBit_eq] at bound
      refine lt_of_lt_of_eq bound ?_
      norm_num
    rw [add_comm, zpow_add₀ (by norm_num)]
    gcongr
  have below := (zpow_lt_zpow_iff_right₀ two).1 (lt_of_le_of_lt low upper)
  rcases m.normal with ⟨full, -, least, -⟩ | ⟨positive, short, least⟩
  · have lower : (2 : Rat) ^ (m.exponent + 52) ≤ m.significand * 2 ^ m.exponent := by
      have cast : (2 : Rat) ^ (52 : Int) ≤ m.significand := by
        rw [← leadingBit_eq]
        exact_mod_cast full
      rw [add_comm, zpow_add₀ (by norm_num)]
      gcongr
    have above := (zpow_lt_zpow_iff_right₀ two).1 (lt_of_le_of_lt lower high)
    omega
  · have upper' : (m.significand : Rat) * 2 ^ m.exponent < 2 ^ (m.exponent + 52) := by
      have cast : (m.significand : Rat) < 2 ^ (52 : Int) := by
        rw [← leadingBit_eq]
        exact_mod_cast short
      rw [add_comm, zpow_add₀ (by norm_num)]
      gcongr
    have below' := (zpow_lt_zpow_iff_right₀ two).1 (lt_of_le_of_lt low upper')
    omega

theorem roundHalfEven_mul (significand : Nat) {d : Nat} (hd : 0 < d) :
    roundHalfEven (significand * d) d = significand := by
  simp [roundHalfEven, Nat.mul_div_cancel _ hd, Nat.ne_of_lt hd]

theorem ofFraction?_of_eq (m : Magnitude) {n d : Nat} (hn : 0 < n) (hd : 0 < d)
    (h : (n : Rat) / d = m.toRat) : ofFraction? n d = some m := by
  have exponent := exponent_eq m hn hd h
  have exact := shift_eq hd h
  have below : m.significand ≠ 2 * leadingBit := by
    rcases m.normal with ⟨-, less, -⟩ | ⟨-, less, -⟩ <;> omega
  have positive : 0 < d <<< m.exponent.toNat := by
    rw [Nat.shiftLeft_eq]
    positivity
  simp only [ofFraction?, exponent, exact, roundHalfEven_mul _ positive, below, if_false]
  rw [ofParts?, dif_pos m.normal]

/-- The value of a double rounds to that double. -/
theorem ofRat?_toRat (m : Magnitude) : ofRat? m.toRat = some m := by
  have positive : 0 < m.toRat.num := Rat.num_pos.2 m.toRat_pos
  rw [ofRat?, if_neg (by omega)]
  apply ofFraction?_of_eq m (by omega) m.toRat.den_pos
  have num : ((m.toRat.num.toNat : Nat) : Rat) = (m.toRat.num : Rat) := by
    have cast : ((m.toRat.num.toNat : Nat) : Int) = m.toRat.num := Int.toNat_of_nonneg (by omega)
    exact_mod_cast congrArg (fun k : Int => (k : Rat)) cast
  rw [num]
  exact Rat.num_div_den m.toRat

end Magnitude

end SequenceDiagram
