import Mathlib.Algebra.Ring.Nat
import Abacus.Text.Blank
import Abacus.Text.Numeral

/-!
# Numerals and their significant digits

A numeral is refused for its length before its value is known, so something has to be said about
values and lengths: leading zeros add nothing, and the digit after them alone is worth a power of
ten. Twenty significant digits are therefore more than the greatest value, whichever they are, and
a numeral that fits passes the test on its length.
-/

namespace Abacus.Text

theorem decimalValue_eq_ofDigitChars (digits : List Char) :
    decimalValue digits = Nat.ofDigitChars 10 digits 0 :=
  Nat.ofDigitChars_eq_foldl.symm

theorem decimalValue_cons (c : Char) (digits : List Char) :
    decimalValue (c :: digits) = digitValue c * 10 ^ digits.length + decimalValue digits := by
  rw [decimalValue_eq_ofDigitChars, decimalValue_eq_ofDigitChars, Nat.ofDigitChars_cons,
    Nat.ofDigitChars_eq_ofDigitChars_zero, Nat.mul_zero, Nat.zero_add, Nat.mul_comm, digitValue]

theorem decimalValue_toDigits (n : Nat) : decimalValue (Nat.toDigits 10 n) = n := by
  rw [decimalValue_eq_ofDigitChars, Nat.ofDigitChars_ten_toDigits]

theorem decimalValue_dropWhile_zero (digits : List Char) :
    decimalValue (digits.dropWhile (· == '0')) = decimalValue digits := by
  induction digits with
  | nil => rfl
  | cons c digits ih =>
      rw [List.dropWhile_cons]
      split
      · next hc =>
          have hzero : digitValue c = 0 := by rw [eq_of_beq hc]; rfl
          rw [ih, decimalValue_cons, hzero, Nat.zero_mul, Nat.zero_add]
      · rfl

theorem digitValue_pos {c : Char} (hd : c.isDigit = true) (hc : c ≠ '0') : 0 < digitValue c := by
  have hlo := (toNat_of_isDigit hd).1
  have hne : c.toNat ≠ 48 := fun h => hc (Char.toNat_inj.1 h)
  have hzero : '0'.toNat = 48 := rfl
  rw [digitValue, hzero]
  omega

/-- Digits that do not begin with a zero are worth a power of ten. -/
theorem le_decimalValue {c : Char} (digits : List Char) (hd : c.isDigit = true) (hc : c ≠ '0') :
    10 ^ digits.length ≤ decimalValue (c :: digits) := by
  have hpos := digitValue_pos hd hc
  have hmul := Nat.mul_le_mul_right (10 ^ digits.length) hpos
  rw [decimalValue_cons]
  omega

theorem length_significant_le {digits : List Char} (hd : ∀ c ∈ digits, c.isDigit = true)
    (hfit : decimalValue digits < 2 ^ 63) :
    (digits.dropWhile (· == '0')).length ≤ maxSignificant := by
  rw [← decimalValue_dropWhile_zero] at hfit
  cases hdrop : digits.dropWhile (· == '0') with
  | nil => exact Nat.zero_le _
  | cons c rest =>
      have hmem : c ∈ digits :=
        (List.dropWhile_suffix (· == '0')).subset (by rw [hdrop]; simp)
      have hc : c ≠ '0' := by
        have h := List.head_dropWhile_not (p := (· == '0')) (l := digits) (by rw [hdrop]; simp)
        simpa [hdrop] using h
      have hle := le_decimalValue rest (hd c hmem) hc
      rw [hdrop] at hfit
      rw [List.length_cons, maxSignificant]
      -- A first digit with nineteen behind it is worth more than the greatest value.
      by_cases hlen : rest.length < 19
      · exact hlen
      · have hpow : 10 ^ 19 ≤ 10 ^ rest.length := Nat.pow_le_pow_right (by omega) (by omega)
        omega

theorem ofDigits_of_fits {digits : List Char} (hd : ∀ c ∈ digits, c.isDigit = true)
    (hlen : digits.length ≤ maxDigits) (hfit : decimalValue digits < 2 ^ 63) :
    Numeral.ofDigits digits = .value (decimalValue digits) := by
  have hsig := length_significant_le hd hfit
  have hfits : Fits (decimalValue digits) := by
    simp only [Fits, minValue, maxValue]
    omega
  rw [Numeral.ofDigits, if_neg (by omega), if_neg (by omega), if_pos hfits]

/-- A numeral that has been read is not too long, and its value fits. -/
theorem ofDigits_eq_value {digits : List Char} {n : Nat} (h : Numeral.ofDigits digits = .value n) :
    digits.length ≤ maxDigits ∧ n < 2 ^ 63 ∧ n = decimalValue digits := by
  unfold Numeral.ofDigits at h
  split at h
  · cases h
  · next hsig =>
      split at h
      · cases h
      · next hlen =>
          split at h
          · next hfit =>
              cases h
              simp only [Fits, minValue, maxValue] at hfit
              exact ⟨by omega, by omega, rfl⟩
          · cases h

theorem le_decimalValue_of_significant {digits : List Char}
    (hd : ∀ c ∈ digits, c.isDigit = true)
    (hsig : maxSignificant < (digits.dropWhile (· == '0')).length) :
    2 ^ 63 ≤ decimalValue digits := by
  by_contra hlt
  have hle := length_significant_le hd (Nat.lt_of_not_le hlt)
  omega

/-- The three things that digits can be read as, each with all that leads to it. -/
theorem ofDigits_cases {digits : List Char} (hd : ∀ c ∈ digits, c.isDigit = true) :
    (Numeral.ofDigits digits = .value (decimalValue digits) ∧
      decimalValue digits < 2 ^ 63 ∧ digits.length ≤ maxDigits) ∨
    (Numeral.ofDigits digits = .tooLarge ∧ 2 ^ 63 ≤ decimalValue digits ∧
      (maxSignificant < (digits.dropWhile (· == '0')).length ∨ digits.length ≤ maxDigits)) ∨
    (Numeral.ofDigits digits = .overlong digits.length ∧
      (digits.dropWhile (· == '0')).length ≤ maxSignificant ∧ maxDigits < digits.length) := by
  rw [Numeral.ofDigits]
  split
  · next hsig => exact .inr (.inl ⟨rfl, le_decimalValue_of_significant hd hsig, .inl hsig⟩)
  · next hsig =>
      split
      · next hlen => exact .inr (.inr ⟨rfl, Nat.le_of_not_lt hsig, hlen⟩)
      · next hlen =>
          have hfits : Fits (decimalValue digits) ↔ decimalValue digits < 2 ^ 63 := by
            simp only [Fits, minValue, maxValue]
            omega
          split
          · next hfit => exact .inl ⟨rfl, hfits.1 hfit, Nat.le_of_not_lt hlen⟩
          · next hfit =>
              exact .inr (.inl ⟨rfl, Nat.le_of_not_lt fun h => hfit (hfits.2 h),
                .inr (Nat.le_of_not_lt hlen)⟩)

theorem lt_length_of_overlong {digits : List Char} {n : Nat}
    (h : Numeral.ofDigits digits = .overlong n) : maxDigits < digits.length := by
  unfold Numeral.ofDigits at h
  split at h
  · cases h
  · split at h
    · next hlen => exact hlen
    · split at h <;> cases h

end Abacus.Text
