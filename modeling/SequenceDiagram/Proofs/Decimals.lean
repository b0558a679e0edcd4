import SequenceDiagram.Proofs.Cuts
import SequenceDiagram.Proofs.Magnitudes
import SequenceDiagram.Proofs.Numerals

set_option autoImplicit false

namespace SequenceDiagram

namespace Decimal

def order (d : Decimal) : Int :=
  (Nat.toDigits 10 d.digits).length + d.exponent

theorem order_bounds {d : Decimal} (h : d.digits ≠ 0) :
    (10 : Rat) ^ (d.order - 1) ≤ d.toRat ∧ d.toRat < 10 ^ d.order := by
  have positive : 0 < (Nat.toDigits 10 d.digits).length := Nat.length_toDigits_pos
  have upper := (Nat.length_toDigits_le_iff (b := 10) (n := d.digits) (by decide) positive).1
    (Nat.le_refl _)
  have lower : 10 ^ ((Nat.toDigits 10 d.digits).length - 1) ≤ d.digits := by
    rcases Nat.eq_zero_or_pos ((Nat.toDigits 10 d.digits).length - 1) with none | some
    · rw [none]
      exact Nat.one_le_iff_ne_zero.2 h
    · have fewer := (Nat.length_toDigits_le_iff (b := 10) (n := d.digits) (by decide) some).2
      omega
  constructor
  · rw [order, toRat, show ((Nat.toDigits 10 d.digits).length + d.exponent - 1 : Int) =
        ((Nat.toDigits 10 d.digits).length - 1 : Nat) + d.exponent by omega,
      zpow_add₀ (by norm_num), zpow_natCast]
    gcongr
    exact_mod_cast lower
  · rw [order, toRat, zpow_add₀ (by norm_num), zpow_natCast]
    gcongr
    exact_mod_cast upper

theorem order_congr {a b : Decimal} (ha : a.digits ≠ 0) (hb : b.digits ≠ 0)
    (h : a.toRat = b.toRat) : a.order = b.order := by
  have ten : (1 : Rat) < 10 := by norm_num
  obtain ⟨lowA, highA⟩ := order_bounds ha
  obtain ⟨lowB, highB⟩ := order_bounds hb
  rw [h] at lowA highA
  have above := (zpow_lt_zpow_iff_right₀ ten).1 (lt_of_le_of_lt lowA highB)
  have below := (zpow_lt_zpow_iff_right₀ ten).1 (lt_of_le_of_lt lowB highA)
  omega

theorem magnitude?_eq {d : Decimal} (h : d.digits ≠ 0) :
    d.magnitude? =
      if d.order < -324 ∨ 310 < d.order then none else Magnitude.ofRat? d.toRat := by
  rw [magnitude?, if_neg h]
  rfl

/-- Decimals of one value denote one double. -/
theorem magnitude?_congr {a b : Decimal} (ha : a.digits ≠ 0) (hb : b.digits ≠ 0)
    (h : a.toRat = b.toRat) : a.magnitude? = b.magnitude? := by
  rw [magnitude?_eq ha, magnitude?_eq hb, order_congr ha hb h, h]

theorem smallest_bound : (10 : Rat) ^ (-324 : Int) ≤ 2 ^ (-1074 : Int) := by
  have split : (2 : Rat) ^ 1074 ≤ 10 ^ 324 := by
    calc (2 : Rat) ^ 1074 = (2 ^ 179) ^ 6 := by rw [← pow_mul]
      _ ≤ (10 ^ 54) ^ 6 := by
          gcongr
          norm_num
      _ = 10 ^ 324 := by rw [← pow_mul]
  rw [zpow_neg, zpow_neg, zpow_ofNat, zpow_ofNat]
  gcongr

theorem greatest_bound : (2 : Rat) ^ (1024 : Int) ≤ 10 ^ (310 : Int) := by
  rw [zpow_ofNat, zpow_ofNat]
  calc (2 : Rat) ^ 1024 ≤ 2 ^ 1025 := by
        gcongr
        · norm_num
        · norm_num
    _ = (2 ^ 205) ^ 5 := by rw [← pow_mul]
    _ ≤ (10 ^ 62) ^ 5 := by
        gcongr
        norm_num
    _ = 10 ^ 310 := by rw [← pow_mul]

theorem magnitude_bounds (m : Magnitude) :
    (2 : Rat) ^ (-1074 : Int) ≤ m.toRat ∧ m.toRat < 2 ^ (1024 : Int) := by
  have two : (1 : Rat) ≤ 2 := by norm_num
  have least : -1074 ≤ m.exponent ∧ m.exponent ≤ 971 := by
    rcases m.normal with ⟨-, -, least, most⟩ | ⟨-, -, least⟩ <;> omega
  have small : m.significand < 2 * leadingBit := by
    rcases m.normal with ⟨-, less, -⟩ | ⟨-, less, -⟩ <;> omega
  unfold Magnitude.toRat
  constructor
  · calc (2 : Rat) ^ (-1074 : Int) = 1 * 2 ^ (-1074 : Int) := (one_mul _).symm
      _ ≤ m.significand * 2 ^ m.exponent := by
          gcongr
          · exact_mod_cast m.significand_pos
          · exact least.1
  · calc (m.significand : Rat) * 2 ^ m.exponent < 2 ^ (53 : Int) * 2 ^ m.exponent := by
          gcongr
          have bound : (m.significand : Rat) < 2 * leadingBit := by exact_mod_cast small
          rw [Magnitude.leadingBit_eq] at bound
          refine lt_of_lt_of_eq bound ?_
          norm_num
      _ ≤ 2 ^ (53 : Int) * 2 ^ (971 : Int) := by
          gcongr
          exact least.2
      _ = 2 ^ (1024 : Int) := by
          rw [← zpow_add₀ (by norm_num)]
          norm_num

theorem magnitude?_of_toRat {d : Decimal} {m : Magnitude} (h : d.toRat = m.toRat) :
    d.magnitude? = some m := by
  have ten : (1 : Rat) < 10 := by norm_num
  have nonzero : d.digits ≠ 0 := by
    intro none
    have positive := m.toRat_pos
    rw [← h, toRat, none] at positive
    simp at positive
  obtain ⟨low, high⟩ := order_bounds nonzero
  obtain ⟨least, most⟩ := magnitude_bounds m
  rw [h] at low high
  have above := (zpow_lt_zpow_iff_right₀ ten).1
    (lt_of_le_of_lt (smallest_bound.trans least) high)
  have below := (zpow_lt_zpow_iff_right₀ ten).1
    (lt_of_le_of_lt low (lt_of_lt_of_le most greatest_bound))
  rw [magnitude?_eq nonzero, if_neg (by omega), h, Magnitude.ofRat?_toRat]

theorem toRat_exact (m : Magnitude) : (exact m).toRat = m.toRat := by
  unfold exact
  by_cases nonneg : 0 ≤ m.exponent
  · obtain ⟨n, h⟩ := Int.eq_ofNat_of_zero_le nonneg
    rw [if_pos nonneg]
    simp [toRat, Magnitude.toRat, h, Nat.shiftLeft_eq]
  · obtain ⟨n, h⟩ := Int.eq_ofNat_of_zero_le (show 0 ≤ -m.exponent by omega)
    have exponent : m.exponent = -n := by omega
    rw [if_neg nonneg]
    have ten : (10 : Rat) ^ n = 5 ^ n * 2 ^ n := by
      rw [← mul_pow]
      norm_num
    simp only [toRat, Magnitude.toRat, exponent, neg_neg, Int.toNat_natCast, zpow_neg, zpow_natCast,
      Nat.cast_mul, Nat.pow_eq, Nat.cast_pow, Nat.cast_ofNat, ten]
    field_simp

theorem magnitude?_of_onGrid? {tie : TieRule} {m : Magnitude} {count : Nat} {d : Decimal}
    (h : onGrid? tie m count = some d) : d.magnitude? = some m := by
  unfold onGrid? at h
  simp only at h
  split at h
  · rename_i lower
    split at h
    · rename_i upper
      rw [← Option.some.inj h]
      exact upper.1
    · rw [← Option.some.inj h]
      exact lower
  · split at h
    · rename_i upper
      rw [← Option.some.inj h]
      exact upper
    · contradiction

theorem magnitude?_shortest (tie : TieRule) (m : Magnitude) :
    (shortest tie m).magnitude? = some m := by
  unfold shortest
  cases found : (List.range 17).findSome? fun i => onGrid? tie m (i + 1) with
  | none => exact magnitude?_of_toRat (toRat_exact m)
  | some d =>
    obtain ⟨i, -, grid⟩ := List.exists_of_findSome?_eq_some found
    exact magnitude?_of_onGrid? grid

theorem ofDigitChars_writeNat (n : Nat) : Nat.ofDigitChars 10 (Text.writeNat n) 0 = n :=
  Nat.ofDigitChars_toDigits (by decide) (by decide)

theorem readNat?_of_digits {text : List Char} (some : text ≠ [])
    (digits : ∀ c ∈ text, c.isDigit = true) :
    Text.readNat? text = .some (Nat.ofDigitChars 10 text 0) :=
  if_pos ⟨some, List.all_eq_true.2 digits⟩

theorem not_mem_of_digits {text : List Char} (digits : ∀ c ∈ text, c.isDigit = true) {c : Char}
    (other : c.isDigit = false) : c ∉ text :=
  fun mem => Text.ne_of_isDigit (digits c mem) other rfl

theorem digits_replicate {count : Nat} {c : Char} (h : c ∈ List.replicate count '0') :
    c.isDigit = true := by
  rw [List.eq_of_mem_replicate h]
  rfl

theorem read?_eq_readMantissa? {text : List Char} (chars : ∀ c ∈ text, c.isDigit = true ∨ c = '.') :
    read? text = readMantissa? text := by
  have plain : ∀ c ∈ text, (c ≠ 'e' && c ≠ 'E') = true := by
    intro c hc
    rcases chars c hc with digit | rfl
    · simp [Text.ne_of_isDigit digit (d := 'e') rfl, Text.ne_of_isDigit digit (d := 'E') rfl]
    · decide
  have taken : text.takeWhile (fun c => c ≠ 'e' && c ≠ 'E') = text := by
    simpa using @List.takeWhile_append_of_pos _ _ _ [] plain
  have left : text.dropWhile (fun c => c ≠ 'e' && c ≠ 'E') = [] := by
    simpa using @List.dropWhile_append_of_pos _ _ _ [] plain
  cases text with
  | nil => rfl
  | cons c rest =>
    have plus : c ≠ '+' := by
      rintro rfl
      rcases chars '+' List.mem_cons_self with digit | same <;> contradiction
    simp only [ne_eq, decide_not] at taken left
    unfold read?
    simp [taken, left, plus]

theorem readMantissa?_fraction {whole fraction : List Char} (some : whole ≠ [])
    (front : ∀ c ∈ whole, c.isDigit = true) (back : ∀ c ∈ fraction, c.isDigit = true) :
    readMantissa? (whole ++ '.' :: fraction) =
      .some ⟨Nat.ofDigitChars 10 (whole ++ fraction) 0, -(fraction.length : Int)⟩ := by
  have digits : ∀ c ∈ whole ++ fraction, c.isDigit = true := fun c hc =>
    (List.mem_append.1 hc).elim (front c) (back c)
  rw [readMantissa?, Text.cut?_append (not_mem_of_digits front rfl)]
  simp only
  rw [readNat?_of_digits (by simp [some]) digits]
  rfl

theorem readMantissa?_whole {text : List Char} (some : text ≠ [])
    (digits : ∀ c ∈ text, c.isDigit = true) :
    readMantissa? text = .some ⟨Nat.ofDigitChars 10 text 0, 0⟩ := by
  rw [readMantissa?, Text.cut?_eq_none_iff.2 (not_mem_of_digits digits rfl)]
  simp only
  rw [readNat?_of_digits some digits]
  rfl

theorem isDigit_or_of_mem_write {d : Decimal} {c : Char} (h : c ∈ d.write) :
    c.isDigit = true ∨ c = '.' := by
  obtain ⟨n, exponent⟩ := d
  have digit {c : Char} (h : c ∈ Text.writeNat n) : c.isDigit = true :=
    Text.isDigit_of_mem_writeNat h
  unfold write at h
  cases exponent with
  | ofNat zeros => exact Or.inl ((List.mem_append.1 h).elim digit digits_replicate)
  | negSucc places =>
    simp only at h
    split at h
    · rcases List.mem_append.1 h with h | h
      · exact Or.inl (digit (List.mem_of_mem_take h))
      · rcases List.mem_cons.1 h with h | h
        · exact Or.inr h
        · exact Or.inl (digit (List.mem_of_mem_drop h))
    · rcases List.mem_cons.1 h with rfl | h
      · exact Or.inl rfl
      · rcases List.mem_cons.1 h with h | h
        · exact Or.inr h
        · exact Or.inl ((List.mem_append.1 h).elim digits_replicate digit)

theorem exists_read?_write (d : Decimal) :
    ∃ d', read? d.write = some d' ∧ d'.toRat = d.toRat ∧ (d.digits ≠ 0 → d'.digits ≠ 0) := by
  obtain ⟨n, exponent⟩ := d
  have digit {c : Char} (h : c ∈ Text.writeNat n) : c.isDigit = true :=
    Text.isDigit_of_mem_writeNat h
  have some := Text.writeNat_ne_nil n
  rw [read?_eq_readMantissa? fun c => isDigit_or_of_mem_write]
  unfold write
  cases exponent with
  | ofNat zeros =>
    have digits : ∀ c ∈ Text.writeNat n ++ List.replicate zeros '0', c.isDigit = true :=
      fun c hc => (List.mem_append.1 hc).elim digit digits_replicate
    refine ⟨⟨10 ^ zeros * n, 0⟩, ?_, ?_, ?_⟩
    · simp only
      rw [readMantissa?_whole (by simp [some]) digits, Nat.ofDigitChars_append,
        Nat.ofDigitChars_replicate_zero, ofDigitChars_writeNat]
    · simp [toRat, mul_comm]
    · simp
  | negSucc places =>
    have length : ((Text.writeNat n).drop ((Text.writeNat n).length - (places + 1))).length =
        min (Text.writeNat n).length (places + 1) := by
      rw [List.length_drop]
      omega
    by_cases inside : places + 1 < (Text.writeNat n).length
    · have front : ∀ c ∈ (Text.writeNat n).take ((Text.writeNat n).length - (places + 1)),
          c.isDigit = true := fun c hc => digit (List.mem_of_mem_take hc)
      have back : ∀ c ∈ (Text.writeNat n).drop ((Text.writeNat n).length - (places + 1)),
          c.isDigit = true := fun c hc => digit (List.mem_of_mem_drop hc)
      have nonempty : (Text.writeNat n).take ((Text.writeNat n).length - (places + 1)) ≠ [] := by
        rw [← List.length_pos_iff, List.length_take]
        omega
      refine ⟨⟨n, Int.negSucc places⟩, ?_, rfl, id⟩
      simp only [inside, if_true]
      rw [readMantissa?_fraction nonempty front back, List.take_append_drop,
        ofDigitChars_writeNat, length, Nat.min_eq_right (by omega)]
      rfl
    · have back : ∀ c ∈ List.replicate (places + 1 - (Text.writeNat n).length) '0' ++
          Text.writeNat n, c.isDigit = true :=
        fun c hc => (List.mem_append.1 hc).elim digits_replicate digit
      have front : ∀ c ∈ ['0'], c.isDigit = true := by decide
      refine ⟨⟨n, Int.negSucc places⟩, ?_, rfl, id⟩
      simp only [inside, if_false]
      rw [← List.singleton_append, readMantissa?_fraction (by simp) front back,
        List.length_append, List.length_replicate, Nat.sub_add_cancel (by omega), ← List.append_assoc, Nat.ofDigitChars_append,
        Nat.ofDigitChars_append, Nat.ofDigitChars_replicate_zero]
      rw [show Nat.ofDigitChars 10 ['0'] 0 = 0 from rfl, Nat.mul_zero, ofDigitChars_writeNat]
      rfl

end Decimal

namespace Magnitude

theorem read?_write (m : Magnitude) : read? m.write = some m := by
  have shortest := Decimal.magnitude?_shortest .away m
  have nonzero : (Decimal.shortest .away m).digits ≠ 0 := by
    intro none
    rw [Decimal.magnitude?, if_pos none] at shortest
    contradiction
  obtain ⟨d, read, same, some⟩ := Decimal.exists_read?_write (Decimal.shortest .away m)
  rw [read?, write, read, Option.bind_some,
    Decimal.magnitude?_congr (some nonzero) nonzero same, shortest]

theorem write_ne_nil (m : Magnitude) : m.write ≠ [] := by
  intro none
  have read := read?_write m
  rw [none] at read
  contradiction

theorem isWord_write (m : Magnitude) : Text.IsWord m.write where
  nonempty := m.write_ne_nil
  ink c mem := by
    rcases Decimal.isDigit_or_of_mem_write mem with digit | rfl
    · exact Text.ink_of_isDigit digit
    · decide

end Magnitude

end SequenceDiagram
