/-!
# UTF-16 units

An editor counts the columns of a line in units of UTF-16: one for a character of the basic plane
and two for a character beyond it.
-/

namespace Abacus.Text

/-- The number of units that a character takes. -/
def units16 (c : Char) : Nat :=
  if c.toNat < 0x10000 then 1 else 2

/-- The length of a text in units. -/
def length16 : List Char → Nat
  | [] => 0
  | c :: text => units16 c + length16 text

/-- The text before a column, where columns count characters from one. A column before the first
counts back from the end of the text: column zero stands before the last character. -/
def beforeColumn (text : List Char) (column : Int) : List Char :=
  if 1 ≤ column then text.take (column - 1).toNat
  else text.take (text.length - (1 - column).toNat)

/-- The units before a column that counts characters from one. -/
def utf16Column (text : String) (column : Int) : Nat :=
  length16 (beforeColumn text.toList column)

theorem length16_append (s t : List Char) : length16 (s ++ t) = length16 s + length16 t := by
  induction s with
  | nil => simp [length16]
  | cons c s ih => rw [List.cons_append, length16, length16, ih, Nat.add_assoc]

end Abacus.Text
