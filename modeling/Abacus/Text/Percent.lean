import Abacus.Text.HexDigit

/-!
# Percent-encoding

In a text that is percent-encoded, a percent sign and two hexadecimal digits stand for a byte, and
every other character for the bytes of its own UTF-8 form. A byte can thus be written in several
ways; the bytes are what the text means.
-/

namespace Abacus.Text

/-- The bytes that a percent-encoded text stands for. A percent sign without two digits after it
stands for itself. -/
def percentDecode : List Char → List UInt8
  | [] => []
  | '%' :: high :: low :: rest =>
    if isHexDigit high && isHexDigit low then
      (16 * hexValue high + hexValue low).toUInt8 :: percentDecode rest
    else String.utf8EncodeChar '%' ++ percentDecode (high :: low :: rest)
  | c :: rest => String.utf8EncodeChar c ++ percentDecode rest

/-- A text without percent signs stands for its own bytes. -/
theorem percentDecode_eq_flatMap {text : List Char} (h : '%' ∉ text) :
    percentDecode text = text.flatMap String.utf8EncodeChar := by
  fun_induction percentDecode text with
  | case1 => rfl
  | case2 | case3 => simp at h
  | case4 c rest _ ih =>
    rw [List.flatMap_cons, ih fun hr => h (List.mem_cons_of_mem c hr)]

example : percentDecode ['b', '%', '2', '0', 'c'] = percentDecode ['b', ' ', 'c'] := by
  decide +kernel

example : percentDecode ['%', 'C', '3', '%', 'a', '9'] = percentDecode ['é'] := by decide +kernel

end Abacus.Text
