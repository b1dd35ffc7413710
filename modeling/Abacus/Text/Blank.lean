/-!
# White space

The characters that may stand between two tokens, and that make a line blank when it holds nothing
else. The class is the one of the Unicode standard: every character with the property
`White_Space`, and the four information separators, whose bidirectional class is a separator or
white space.
-/

namespace Abacus.Text

/-- White space separates tokens and is otherwise ignored. -/
def isBlank (c : Char) : Bool :=
  let n := c.toNat
  (0x09 ≤ n && n ≤ 0x0D) || (0x1C ≤ n && n ≤ 0x20) || n == 0x85 || n == 0xA0 || n == 0x1680 ||
    (0x2000 ≤ n && n ≤ 0x200A) || n == 0x2028 || n == 0x2029 || n == 0x202F || n == 0x205F ||
    n == 0x3000

/-- A line without anything but white space holds no expression and is passed over. -/
def isBlankLine (line : String) : Bool :=
  line.toList.all isBlank

theorem isBlank_of_isWhitespace {c : Char} (h : c.isWhitespace = true) : isBlank c = true := by
  simp only [Char.isWhitespace, Bool.or_eq_true, decide_eq_true_eq] at h
  rcases h with ((rfl | rfl) | rfl) | rfl <;> rfl

theorem toNat_of_isDigit {c : Char} (h : c.isDigit = true) : 48 ≤ c.toNat ∧ c.toNat ≤ 57 := by
  simp only [Char.isDigit, Bool.and_eq_true, decide_eq_true_eq] at h
  exact ⟨UInt32.le_iff_toNat_le.1 h.1, UInt32.le_iff_toNat_le.1 h.2⟩

theorem isBlank_eq_false_of_isDigit {c : Char} (h : c.isDigit = true) : isBlank c = false := by
  have hn := toNat_of_isDigit h
  simp only [isBlank, Bool.or_eq_false_iff, Bool.and_eq_false_iff, decide_eq_false_iff_not,
    beq_eq_false_iff_ne]
  omega

end Abacus.Text
