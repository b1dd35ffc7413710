import Abacus.Host
import Abacus.Token.Cursor

/-!
# Evaluating while reading

The grammar, loosest operators first, every operator associating to the left:

* expression: term, then any number of `+` or `-` with a term after it
* term: factor, then any number of `*` or `/` with a factor after it
* factor: an integer, or an expression in parentheses

The reader looks one token ahead, and each rule comes to the value of what it read. The state is
kept when a rule fails, so that reading can go on from there. Parentheses can be open only up to a
depth that is fixed by the host; the rule for an expression is built on the rule for what is inside
one more parenthesis, down to that depth, where it fails.
-/

namespace Abacus

/-- The reader's state: the token looked at, what comes after it, the end of the token consumed
last (the start of the first token if none was), and the number of items taken so far. -/
structure Reader where
  lookahead : Token
  stream : TokenStream
  previousEnd : Position
  taken : Nat

/-- A step of the reader. -/
abbrev Rule := EStateM Failure Reader

namespace Reader

export Host (maxDepth)

/-- A reader that looks at the first token of a stream. -/
def ofStream (s : TokenStream) : Except Failure Reader :=
  match s.next with
  | (.error e, _) => .error e
  | (.ok token, later) => .ok ⟨token, later, token.span.start, 1⟩

/-- A reader that looks at the first token of a text. -/
def ofSource (source : String) (line : Int) : Except Failure Reader :=
  ofStream (Cursor.ofSource source line).toStream

/-- Consumes the token looked at and looks at the next one. If that one is a failure, the reader
goes on looking at the token that it consumed. -/
def eat : Rule Token := fun r =>
  let consumed := { r with
    stream := r.stream.next.2
    previousEnd := r.lookahead.span.stop
    taken := r.taken + 1 }
  match r.stream.next.1 with
  | .error e => .error e consumed
  | .ok token => .ok r.lookahead { consumed with lookahead := token }

section

variable (source : String)

/-- Fails, with the token looked at to blame. -/
def blame {α : Type} (cause : Token → Cause) : Rule α := fun r =>
  .error (.fault ⟨cause r.lookahead, r.lookahead.span, source⟩) r

/-- Consumes a token of the given kind. -/
def expect (kind : Token.Kind) : Rule Token := do
  if (← get).lookahead.kind = kind then eat
  else blame source (.mismatch (.token kind))

/-- The value of an operation. The operands are the text consumed last: both of them from `start`
on, the right one from `rightStart` on. -/
def combine (start rightStart : Position) (op : Operation) (left right : Int) : Rule Int := fun r =>
  match op.apply left right with
  | .ok n => .ok n r
  | .error .zeroDivisor => .error (.fault ⟨.zeroDivisor, ⟨rightStart, r.previousEnd⟩, source⟩) r
  | .error (.tooLarge n) => .error (.fault ⟨.result n, ⟨start, r.previousEnd⟩, source⟩) r

/-- Reads operators with an operand after each, at most one for each item in `rounds`, and combines
them from the left with the value of what stands before them. -/
def chainTail (operation? : Token.Kind → Option Operation) (operand : Rule Int)
    (start : Position) : List Item → Int → Rule Int
  | [], left => pure left
  | _ :: rounds, left => do
    match operation? (← get).lookahead.kind with
    | none => pure left
    | some op =>
      let _ ← eat
      let rightStart := (← get).lookahead.span.start
      let right ← operand
      let value ← combine source start rightStart op left right
      chainTail operation? operand start rounds value

/-- Reads an operand, and all the operators with an operand after each that follow. Every round
consumes the token looked at, so that there are never more rounds than that token and the items
still to come. -/
def chain (operation? : Token.Kind → Option Operation) (operand : Rule Int) : Rule Int := do
  let start := (← get).lookahead.span.start
  let first ← operand
  let r ← get
  chainTail source operation? operand start (.ok r.lookahead :: r.stream.upcoming) first

/-- Reads an integer, or what `inner` reads, in parentheses. -/
def factorOf (inner : Rule Int) : Rule Int := do
  let token := (← get).lookahead
  match token.kind with
  | .integer =>
    let _ ← eat
    pure token.number
  | .leftParen =>
    let _ ← eat
    let value ← inner
    let _ ← expect source .rightParen
    pure value
  | _ => blame source (.mismatch .operand)

/-- Reads a chain of factors. -/
def termOf (inner : Rule Int) : Rule Int :=
  chain source Token.Kind.multiplicative? (factorOf source inner)

/-- Reads a chain of terms. -/
def expressionOf (inner : Rule Int) : Rule Int :=
  chain source Token.Kind.additive? (termOf source inner)

/-- Reads an expression in which less than `depth` parentheses are open at a time. -/
def expressionWithin : Nat → Rule Int
  | 0 => blame source .nesting
  | depth + 1 => expressionOf source (expressionWithin depth)

variable [Host]

/-- Reads an expression. -/
def expression : Rule Int :=
  expressionWithin source (maxDepth + 1)

/-- Reads a term. -/
def term : Rule Int :=
  termOf source (expressionWithin source maxDepth)

/-- Reads a factor. -/
def factor : Rule Int :=
  factorOf source (expressionWithin source maxDepth)

/-- Reads a complete expression. What follows it must be the end of the input, unless trailing
tokens are allowed. -/
def evaluate (allowTrailing : Bool) : Rule Int := do
  let value ← expression source
  if !allowTrailing && (← get).lookahead.kind ≠ .endOfInput then
    blame source (.mismatch (.token .endOfInput))
  else pure value

end

end Reader

variable [Host]

/-- The value of a text, read as the given line of a larger one. -/
def evaluate (source : String) (line : Int) (allowTrailing : Bool) : Except Failure Int :=
  match Reader.ofSource source line with
  | .error e => .error e
  | .ok r =>
    match Reader.evaluate source allowTrailing r with
    | .ok value _ => .ok value
    | .error e _ => .error e

/-- The value of a text on its own. -/
def calculate (source : String) (allowTrailing : Bool) : Except Failure Int :=
  evaluate source 1 allowTrailing

end Abacus
