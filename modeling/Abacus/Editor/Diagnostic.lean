import Abacus.Reader
import Abacus.Session.Report
import Abacus.Text.Blank
import Abacus.Text.Line
import Abacus.Text.Utf16

/-!
# Diagnostics of a document

A document holds one expression a line. Every line that is not blank is evaluated, and a line with a
fault gets one diagnostic. Lines count from zero here, and the places in a line are counted in
UTF-16 units.
-/

namespace Abacus.Editor

/-- How serious a diagnostic is. -/
inductive Severity where
  /-- The line is not well-formed. -/
  | error
  /-- The line is well-formed, but has no value. -/
  | warning
deriving DecidableEq

/-- The number of a severity in messages to an editor. -/
def Severity.code : Severity → Nat
  | .error => 1
  | .warning => 2

/-- A place in a document. -/
structure Place where
  line : Int
  character : Nat
deriving DecidableEq

/-- What an editor is told about a stretch of a document. -/
structure Diagnostic where
  start : Place
  stop : Place
  message : String
  severity : Severity
deriving DecidableEq

/-- The name under which all diagnostics are reported. -/
def sourceName : String := "intcalc"

/-- The place of a position in a line with the given text. -/
def Place.ofPosition (text : String) (p : Position) : Place :=
  ⟨p.line - 1, Text.utf16Column text p.column⟩

/-- The diagnostic for a fault in a line with the given text. -/
def Diagnostic.ofFault (text : String) (f : Fault) : Diagnostic where
  start := .ofPosition text f.span.start
  stop := .ofPosition text f.span.stop
  message := f.title
  severity := if f.cause.isEvaluation then .warning else .error

variable [Host]

/-- The diagnostic for one line, if there is something to be said of it. -/
def diagnoseLine (text : String) (number : Nat) : Except Accident (Option Diagnostic) :=
  if Text.isBlankLine text then .ok none
  else
    match evaluate text number false with
    | .ok _ => .ok none
    | .error (.fault f) => .ok (some (.ofFault text f))
    | .error (.overlong digits) => .error (.overlong digits)

/-- The diagnostics for lines that are numbered from `number` on. -/
def diagnoseLines (number : Nat) : List String → Except Accident (List Diagnostic)
  | [] => .ok []
  | text :: more => do
    let first ← diagnoseLine text number
    let others ← diagnoseLines (number + 1) more
    return first.toList ++ others

/-- The diagnostics for a whole document, in the order of its lines. -/
def diagnose (text : String) : Except Accident (List Diagnostic) :=
  diagnoseLines 1 (Text.lines text)

end Abacus.Editor
