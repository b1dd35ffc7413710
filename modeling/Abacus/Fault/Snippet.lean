import Abacus.Fault.Basic
import Abacus.Text.Line

/-!
# Snippets

A fault is shown in five lines: its title, the place where it was found, and the line of the source
with carets under the part to blame, behind a gutter that holds the number of the line.
-/

namespace Abacus.Fault

/-- As many blanks as `n` says, none if it is negative. -/
def blanks (n : Int) : String :=
  String.ofList (List.replicate n.toNat ' ')

/-- The line that a fault points into. A source of one line is that line, whatever its number is;
a longer source counts from one, and a number it does not have stands for an empty line. -/
def sourceLine (f : Fault) : String :=
  match Text.lines f.source with
  | [] => ""
  | [line] => line
  | all => if 1 ≤ f.span.start.line then (all[(f.span.start.line - 1).toNat]?).getD "" else ""

/-- The number of carets, at least one. A span that goes on to another line is underlined to the
end of its first one. -/
def caretCount (f : Fault) : Nat :=
  let width : Int :=
    if f.span.stop.line = f.span.start.line then f.span.stop.column - f.span.start.column
    else f.sourceLine.length - f.span.start.column + 1
  max 1 width.toNat

/-- The five lines, without a line feed after the last one. -/
def snippet (f : Fault) (filename : String) : String :=
  let number := toString f.span.start.line
  let gutter := blanks (number.length + 1)
  let carets := String.ofList (List.replicate f.caretCount '^')
  f.title ++ "\n" ++
    gutter ++ s!"--> {filename}:{number}:{f.span.start.column}" ++ "\n" ++
    gutter ++ "|\n" ++
    number ++ " | " ++ f.sourceLine ++ "\n" ++
    gutter ++ "| " ++ blanks (f.span.start.column - 1) ++ carets

end Abacus.Fault
