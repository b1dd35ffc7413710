import Abacus.Text.Printable

/-!
# Quoted text

How a message shows a piece of text that may hold anything. The text stands between two marks:
apostrophes, or double quotes when it holds an apostrophe and no double quote. Inside, the mark in
use and the backslash are escaped, and so is every character that is not printable: by name for the
tab and the two line breaks, by its number in hexadecimal otherwise.
-/

namespace Abacus.Text

/-- The mark around a text is the apostrophe, unless only the double quote is free of escapes. -/
def quoteMark (text : List Char) : Char :=
  if text.contains '\x27' && !text.contains '\x22' then '\x22' else '\x27'

/-- Exactly `width` hexadecimal digits, in lower case; more only if the number needs more. -/
def hexadecimal (width n : Nat) : List Char :=
  let digits := Nat.toDigits 16 n
  List.replicate (width - digits.length) '0' ++ digits

/-- A code point by its number, in the shortest of the three forms that can hold it. -/
def escapeCodePoint (n : Nat) : List Char :=
  if n < 0x100 then '\\' :: 'x' :: hexadecimal 2 n
  else if n < 0x10000 then '\\' :: 'u' :: hexadecimal 4 n
  else '\\' :: 'U' :: hexadecimal 8 n

/-- One character as it stands inside the marks. -/
def escape (mark c : Char) : List Char :=
  if c == mark || c == '\\' then ['\\', c]
  else if c == '\n' then ['\\', 'n']
  else if c == '\r' then ['\\', 'r']
  else if c == '\t' then ['\\', 't']
  else if isPrintable c then [c]
  else escapeCodePoint c.toNat

/-- The text between its marks. -/
def quoted (text : String) : String :=
  let mark := quoteMark text.toList
  String.ofList (mark :: text.toList.flatMap (escape mark) ++ [mark])

end Abacus.Text
