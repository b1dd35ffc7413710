import Abacus.Token.Cursor

/-!
# Listing the tokens of a text

All the tokens of a text at once, as a list or as a printed table with one token a line.
-/

namespace Abacus.Token

/-- The tokens of a text, the end of the text last; there is no list if any part of the text is not
a token. -/
def ofSource (source : String) (line : Int) : Except Failure (List Token) :=
  match (Cursor.ofSource source line).listing with
  | (tokens, none) => .ok tokens
  | (_, some e) => .error e

/-- The line of the table for one token: where it starts, its kind, and its value if it is an
integer. -/
def row (t : Token) : String :=
  let value := if t.kind = .integer then " " ++ t.numberText else ""
  s!"  {t.span.start.line}:{t.span.start.column} {t.kind.label}{value}\n"

/-- The table of the tokens of a text, down to the first failure. -/
def table (source : String) (line : Int) : String × Option Failure :=
  let (tokens, failure) := (Cursor.ofSource source line).listing
  (String.join (tokens.map row), failure)

end Abacus.Token
