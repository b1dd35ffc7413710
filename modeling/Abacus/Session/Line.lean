import Abacus.Reader
import Abacus.Fault.Snippet
import Abacus.Session.Report
import Abacus.Session.Settings
import Abacus.Token.Listing

/-!
# Answering one line

A line is answered with its value on the output stream, or with the snippet of its fault on the
error stream. The code of the answer tells which: 0 for a value, 1 for a fault of form, 2 for a
fault of value. If the tokens are to be listed, that is done first, and a fault met while listing is
the answer.
-/

namespace Abacus.Session

/-- The code for a line with a value. -/
def okCode : Nat := 0

/-- The code for a line with a fault of form. -/
def formCode : Nat := 1

/-- The code for a line with a fault of value. -/
def valueCode : Nat := 2

/-- The code for a line with a fault. -/
def faultCode (f : Fault) : Nat :=
  if f.cause.isEvaluation then valueCode else formCode

/-- Answers a line that could not be read or has no value. -/
def refuse (filename : String) : Failure → Report Nat
  | .fault f => .done (.ofErr (f.snippet filename ++ "\n")) (faultCode f)
  | .overlong digits => ⟨.empty, .error (.overlong digits)⟩

variable [Host]

/-- Evaluates a line and answers it. -/
def answer (settings : Settings) (source : String) (line : Int) (filename : String) : Report Nat :=
  match evaluate source line settings.allowTrailing with
  | .ok value => .done (.ofOut s!"{value}\n") okCode
  | .error e => refuse filename e

/-- Answers a line, after a listing of its tokens if that is asked for. -/
def processLine (settings : Settings) (source : String) (line : Int) (filename : String) :
    Report Nat :=
  if settings.debug then
    match Token.table source line with
    | (table, some e) => (refuse filename e).after (.ofErr table)
    | (table, none) => (answer settings source line filename).after (.ofErr table)
  else answer settings source line filename

end Abacus.Session
