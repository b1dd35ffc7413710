import Abacus.Arithmetic

/-!
# Numerals

The value of a run of decimal digits, and the three things that reading one can come to. A numeral
with more significant digits than the greatest value has is too large, whatever its digits are.
Otherwise its value is worked out, but only up to a fixed number of digits, leading zeros included;
a longer run is refused outright.
-/

namespace Abacus.Text

/-- The value of a digit. -/
def digitValue (c : Char) : Nat := c.toNat - '0'.toNat

/-- The value of a run of digits, the most significant one first. -/
def decimalValue (digits : List Char) : Nat :=
  digits.foldl (fun n c => 10 * n + digitValue c) 0

/-- The digits of the greatest value. -/
def maxSignificant : Nat := 19

/-- The longest run of digits whose value is worked out. -/
def maxDigits : Nat := 4300

/-- What reading a run of digits comes to. -/
inductive Numeral where
  /-- The value of the numeral, which fits. -/
  | value (n : Nat)
  /-- The value does not fit. -/
  | tooLarge
  /-- There are too many digits to work out a value, most of them leading zeros. -/
  | overlong (digits : Nat)
deriving DecidableEq

/-- Reads a run of digits. -/
def Numeral.ofDigits (digits : List Char) : Numeral :=
  if (digits.dropWhile (· == '0')).length > maxSignificant then .tooLarge
  else if digits.length > maxDigits then .overlong digits.length
  else if Fits (decimalValue digits) then .value (decimalValue digits)
  else .tooLarge

/-- What is said of a numeral with too many digits. -/
def overlongMessage (digits : Nat) : String :=
  s!"Exceeds the limit ({maxDigits} digits) for integer string conversion: " ++
    s!"value has {digits} digits; use sys.set_int_max_str_digits() to increase the limit"

/-- A text that is a single digit from zero to nine; digits of other scripts do not count. -/
def isSingleDigit (text : String) : Bool :=
  match text.toList with
  | [c] => c.isDigit
  | _ => false

example : (toString maxValue).length = maxSignificant := by decide +kernel

end Abacus.Text
