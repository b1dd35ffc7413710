import Abacus.Text.Numeral

/-!
# Reading a document piece by piece

A scanner takes some characters off the front of a text and comes to a result, or fails. A document
is either well-formed or not; no more is said about one that is not, except that an integer with
too many digits is a failure of its own.
-/

namespace Abacus.Toml

/-- Why a document has no meaning. -/
inductive Fault where
  | malformed
  /-- An integer with too many digits to be worked out. -/
  | overlong (digits : Nat)
deriving DecidableEq

/-- Takes characters off the front of a text. -/
abbrev Scan := StateT (List Char) (Except Fault)

namespace Scan

/-- The document is malformed here. -/
def fail {α : Type} : Scan α := throw .malformed

/-- The next character, left where it is. -/
def peek? : Scan (Option Char) := return (← get).head?

/-- Takes the characters at the front that satisfy `p`. -/
def takeWhile (p : Char → Bool) : Scan (List Char) := do
  let text ← get
  set (text.dropWhile p)
  return text.takeWhile p

/-- Skips the characters at the front that satisfy `p`. -/
def skipWhile (p : Char → Bool) : Scan Unit := do
  let _ ← takeWhile p

/-- Takes `word` if the text begins with it, and tells whether it did. -/
def skip? (word : List Char) : Scan Bool := do
  let text ← get
  if word.isPrefixOf text then
    set (text.drop word.length)
    return true
  else return false

/-- Takes `word`, with which the text must begin. -/
def expect (word : List Char) : Scan Unit := do
  unless ← skip? word do fail

/-- Takes exactly `n` characters, all of which must satisfy `p`. -/
def takeExactly (n : Nat) (p : Char → Bool) : Scan (List Char) := do
  let text ← get
  let taken := text.take n
  unless taken.length = n && taken.all p do fail
  set (text.drop n)
  return taken

end Scan

/-- Blanks within a line. -/
def isSpace (c : Char) : Bool := c == ' ' || c == '\t'

/-- Blanks and line feeds. -/
def isSpaceOrFeed (c : Char) : Bool := isSpace c || c == '\n'

/-- The control characters that stand nowhere on a line. -/
def isControl (c : Char) : Bool := (c.toNat < 0x20 && c != '\t') || c.toNat == 0x7F

/-- The characters of a key without quotes. -/
def isBareKey (c : Char) : Bool := c.isAlphanum || c == '-' || c == '_'

/-- Skips blanks within a line. -/
def skipSpaces : Scan Unit := Scan.skipWhile isSpace

/-- Skips a comment, if there is one: the rest of the line after a number sign. -/
def skipComment : Scan Unit := do
  if (← Scan.peek?) = some '#' then
    let comment ← Scan.takeWhile (· != '\n')
    if comment.any isControl then Scan.fail

/-- Skips blanks, line feeds and comments. Every round but the last skips a comment, so that there
are no more rounds than characters. -/
def skipLines : Scan Unit := do
  rounds ((← get).length + 1)
where
  rounds : Nat → Scan Unit
    | 0 => pure ()
    | n + 1 => do
      Scan.skipWhile isSpaceOrFeed
      if (← Scan.peek?) = some '#' then
        skipComment
        rounds n

end Abacus.Toml
