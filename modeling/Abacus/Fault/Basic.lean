import Abacus.Text.Quoted
import Abacus.Text.Numeral
import Abacus.Token.Basic

/-!
# Faults

Everything that can be wrong with a line of input, as a cause with the stretch of text that is to
blame. Faults of form (an unknown character, a token in the wrong place) are told apart from faults
of value (a well-formed expression that has none): only the latter are *evaluation* faults.

A run of digits that is too long to be worked out is no fault of the line in this sense: it is a
`Failure` that no reader of lines handles.
-/

namespace Abacus

/-- What the grammar would have accepted. -/
inductive Expectation where
  /-- The first token of an operand. -/
  | operand
  /-- A token of one kind. -/
  | token (kind : Token.Kind)
deriving DecidableEq

/-- The kinds of tokens that meet an expectation. -/
def Expectation.kinds : Expectation → List Token.Kind
  | .operand => [.integer, .leftParen]
  | .token k => [k]

/-- How a message names an expectation. -/
def Expectation.name : Expectation → String
  | .operand => "integer or '('"
  | .token k => k.name

/-- What is wrong. -/
inductive Cause where
  /-- A character (or, from other readers, a piece of text) that no token contains. -/
  | character (text : String)
  /-- A token that does not fit where it stands. -/
  | mismatch (expected : Expectation) (found : Token)
  /-- One parenthesis more than can be kept open at a time. -/
  | nesting (found : Token)
  /-- Another fault of form, in the words of the reader that found it. -/
  | form (message expected found : String)
  /-- The right operand of a division is zero. -/
  | zeroDivisor
  /-- A numeral whose value does not fit. -/
  | numeral (digits : String)
  /-- An operation whose exact result does not fit. -/
  | result (exact : Int)
  /-- Another fault of value, in the words of the reader that found it. -/
  | evaluation (message : String)
  /-- A fault of no particular sort. -/
  | general (message : String)
deriving DecidableEq

namespace Cause

/-- The heading under which a fault is reported. -/
def heading : Cause → String
  | .character _ => "invalid character"
  | .mismatch .. | .nesting _ | .form .. => "syntax error"
  | .zeroDivisor => "division by zero"
  | .numeral _ | .result _ => "integer overflow"
  | .evaluation _ => "evaluation error"
  | .general _ => "error"

/-- What follows the text of a value that does not fit. -/
def doesNotFit (value : String) : String :=
  s!"{value} does not fit in a signed 64-bit integer"

/-- What is wrong, in one line. -/
def message : Cause → String
  | .character text => s!"unexpected character {Text.quoted text}"
  | .mismatch expected found => s!"expected {expected.name}, found {found.describe}"
  | .nesting _ => "expression nested too deeply"
  | .form message _ _ => message
  | .zeroDivisor => "right operand of '/' is zero"
  | .numeral digits => doesNotFit digits
  | .result exact => doesNotFit (toString exact)
  | .evaluation message => message
  | .general message => message

/-- A fault of value: the text is well-formed, but stands for no integer that fits. -/
def isEvaluation : Cause → Bool
  | .zeroDivisor | .numeral _ | .result _ | .evaluation _ => true
  | .character _ | .mismatch .. | .nesting _ | .form .. | .general _ => false

end Cause

/-- A cause, the stretch of text to blame, and the text that it is a stretch of. -/
structure Fault where
  cause : Cause
  span : Span
  source : String
deriving DecidableEq

namespace Fault

/-- A character that no token contains, found at `p`. -/
def character (text : String) (p : Position) (source : String) : Fault :=
  ⟨.character text, ⟨p, p.succ⟩, source⟩

/-- The heading and the message, in one line. -/
def title (f : Fault) : String :=
  s!"{f.cause.heading}: {f.cause.message}"

end Fault

/-- Why no token, or no value, comes of a text. -/
inductive Failure where
  | fault (f : Fault)
  /-- A run of digits that is too long to be worked out. -/
  | overlong (digits : Nat)
deriving DecidableEq

end Abacus
