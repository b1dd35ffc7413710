import Abacus.Options.Resolve
import Abacus.Session.Loop

/-!
# The command

A whole run of the program, as a function of the words of the command, the files, and the standard
input: what it writes, and the code that it ends with. Expressions in the command come before an
input file, and that before the standard input. Files and standard input are decoded leniently, so
that a byte that is no text becomes an invalid character of its line.
-/

namespace Abacus

open Files (Path System)
open Options (Argument Arguments Plan)

/-- The standard input: its lines as they come, and whether a user types them. -/
structure StandardInput where
  events : List Session.Event
  interactive : Bool
deriving DecidableEq

namespace Session

/-- The name of the standard input in messages. -/
def standardName : String := "<stdin>"

/-- The name of an expression of the command in messages. -/
def expressionName : String := "<expr>"

/-- The code for a command that cannot be carried out. -/
def commandCode : Nat := 2

/-- The lines of a file, or of a stream of bytes. Any line break ends a line. -/
def eventsOfBytes (bytes : List UInt8) : List Event :=
  events (String.ofList (Text.normalizeBreaks (Text.decodeLenient bytes).toList))

variable [Host]

/-- Answers an expression of a command. One that was left blank has no line to report on; only the
listing of its tokens, if asked for, comes before that shows. -/
def runExpression (settings : Settings) : Argument → Report Nat
  | .text source => processLine settings source 1 expressionName
  | .blank =>
    ⟨.ofErr (if settings.debug then (Token.table "" 1).1 else ""), .error .blankExpression⟩

/-- Answers the expressions of a command, each as the first line of a text of its own, and ends
with the worst code of them and `status`. -/
def runExpressions (settings : Settings) (status : Nat) : List Argument → Report Nat
  | [] => .done .empty status
  | expression :: more =>
    (runExpression settings expression).andThen fun code =>
      runExpressions settings (max status code) more

/-- Answers the lines of a file. -/
def runFile (files : System) (settings : Settings) (path : Path) : Report Nat :=
  match files path with
  | .ok bytes => (start settings false path.toString).runAll (eventsOfBytes bytes)
  | .error .nullInName => ⟨.empty, .error .nullInName⟩
  | .error e => .done (.ofErr s!"error: {e.message path}\n") commandCode

/-- Answers the lines of the standard input. Where there is a prompt to show, it must not be
blank. -/
def runInput (stdin : StandardInput) (plan : Plan) : Report Nat :=
  let session := start plan.settings stdin.interactive standardName
  if session.shows && plan.promptBlank then ⟨session.greeting, .error .blankPrompt⟩
  else session.runAll stdin.events

/-- Carries out a command that leaves nothing open. -/
def runPlan (files : System) (stdin : StandardInput) (plan : Plan) : Report Nat :=
  if plan.expressions.isEmpty then
    match plan.input with
    | some path => runFile files plan.settings path
    | none => runInput stdin plan
  else runExpressions plan.settings okCode plan.expressions

/-- What is said of a configuration that cannot be used. -/
def refuseConfig (reason : String) : Report Nat :=
  .done (.ofErr s!"error: invalid config: {reason}\n") commandCode

/-- Carries out a command whose words have been read. If the configuration is malformed, some reason
for that follows in the message. -/
def runArguments (files : System) (stdin : StandardInput) (a : Arguments) : Report Nat :=
  match Options.resolve files a (.ofString ".") with
  | .ok plan => runPlan files stdin plan
  | .error (.unreadable e path) => refuseConfig (e.message path)
  | .error .malformed => refuseConfig Host.malformedReason
  | .error .undecodable => ⟨.empty, .error .undecodable⟩
  | .error (.overlong digits) => ⟨.empty, .error (.overlong digits)⟩

/-- Runs the program on the words of a command, its own name not among them. -/
def runCommand (files : System) (stdin : StandardInput) (words : List String) : Report Nat :=
  match Arguments.ofWords words with
  | .ok a => runArguments files stdin a
  | .error stop => .done ⟨stop.out, stop.err⟩ stop.exitCode

end Session

end Abacus
