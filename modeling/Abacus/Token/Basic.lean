import Abacus.Arithmetic
import Abacus.Position

/-!
# Tokens

The words of an expression: integers, the four operators, the two parentheses, and the end of the
input, which is a token too.
-/

namespace Abacus

/-- The kinds of tokens. -/
inductive Token.Kind where
  | integer
  | plus
  | minus
  | times
  | divide
  | leftParen
  | rightParen
  | endOfInput
deriving DecidableEq, Inhabited

namespace Token.Kind

/-- The kind of a token that is written as a single character. -/
def ofSymbol? : Char → Option Kind
  | '+' => some .plus
  | '-' => some .minus
  | '*' => some .times
  | '/' => some .divide
  | '(' => some .leftParen
  | ')' => some .rightParen
  | _ => none

/-- The character of a kind that has only one way to be written. -/
def symbol? : Kind → Option Char
  | .integer => none
  | .plus => some '+'
  | .minus => some '-'
  | .times => some '*'
  | .divide => some '/'
  | .leftParen => some '('
  | .rightParen => some ')'
  | .endOfInput => none

theorem symbol?_eq_some_iff {k : Kind} {c : Char} : k.symbol? = some c ↔ ofSymbol? c = some k := by
  constructor
  · intro h
    cases k <;> simp only [symbol?, reduceCtorEq, Option.some.injEq] at h <;> subst h <;> rfl
  · intro h
    unfold ofSymbol? at h
    split at h <;> simp only [reduceCtorEq, Option.some.injEq] at h <;> subst h <;> rfl

/-- What the kind is called where a message says what was expected. -/
def name : Kind → String
  | .integer => "integer"
  | .plus => "'+'"
  | .minus => "'-'"
  | .times => "'*'"
  | .divide => "'/'"
  | .leftParen => "'('"
  | .rightParen => "')'"
  | .endOfInput => "end of input"

/-- What the kind is called in a listing of tokens. -/
def label : Kind → String
  | .integer => "INTEGER"
  | .plus => "PLUS"
  | .minus => "MINUS"
  | .times => "MUL"
  | .divide => "DIV"
  | .leftParen => "LPAREN"
  | .rightParen => "RPAREN"
  | .endOfInput => "EOF"

/-- The operation of a kind that adds or subtracts. -/
def additive? : Kind → Option Operation
  | .plus => some .add
  | .minus => some .subtract
  | _ => none

/-- The operation of a kind that multiplies or divides. -/
def multiplicative? : Kind → Option Operation
  | .times => some .multiply
  | .divide => some .divide
  | _ => none

end Token.Kind

/-- A token: its kind, its value if it is an integer, and the text it was read from with the place
of that text. -/
structure Token where
  kind : Token.Kind
  value : Option Int
  raw : String
  span : Span
deriving DecidableEq, Inhabited

namespace Token

/-- The end of the input, found at `p`. -/
def endAt (p : Position) : Token :=
  ⟨.endOfInput, none, "", ⟨p, p⟩⟩

/-- The end of an input that is no text. -/
def endOfList : Token :=
  ⟨.endOfInput, none, "", .nowhere⟩

/-- Two tokens say the same if they agree in kind and value, wherever and however they were
written. -/
def SameAs (s t : Token) : Prop :=
  s.kind = t.kind ∧ s.value = t.value

instance (s t : Token) : Decidable (s.SameAs t) := inferInstanceAs (Decidable (_ ∧ _))

/-- The number that a token stands for; zero if it carries none. -/
def number (t : Token) : Int :=
  t.value.getD 0

/-- The digits of the number that a token carries. -/
def numberText (t : Token) : String :=
  match t.value with
  | some n => toString n
  | none => "None"

/-- What the token is called where a message says what was found. -/
def describe (t : Token) : String :=
  match t.kind with
  | .integer => s!"integer {t.numberText}"
  | .endOfInput => "end of input"
  | k => if t.raw.isEmpty then k.name else s!"'{t.raw}'"

end Token

end Abacus
