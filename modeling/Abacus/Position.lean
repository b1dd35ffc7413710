/-!
# Places in a source text

Positions and spans, all counted in characters.
-/

namespace Abacus

/-- A place in a source text. Lines and columns count from one, offsets from zero. The number of
the line is the one that its reader gave it. -/
structure Position where
  line : Int
  column : Int
  offset : Nat
deriving DecidableEq, Inhabited

/-- The place before the character with the given offset, on a line that is a whole source text. -/
def Position.onLine (line : Int) (offset : Nat) : Position :=
  ⟨line, offset + 1, offset⟩

/-- The place one character further on the same line. -/
def Position.succ (p : Position) : Position :=
  ⟨p.line, p.column + 1, p.offset + 1⟩

/-- The stretch of text from `start` up to, but not including, `stop`. -/
structure Span where
  start : Position
  stop : Position
deriving DecidableEq, Inhabited

/-- The place of a token that was read from no text. -/
def Span.nowhere : Span :=
  ⟨⟨1, 1, 0⟩, ⟨1, 1, 0⟩⟩

end Abacus
