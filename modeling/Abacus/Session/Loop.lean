import Abacus.Session.Line
import Abacus.Text.Blank
import Abacus.Text.Line

/-!
# A session

A session answers lines one after the other until its input ends or the user interrupts it. A blank
line is counted and passed over. An interactive session greets the user with a banner, shows a
prompt before each line it reads, also before the end of the input, and always ends well; any other
session ends with the worst code of its lines.
-/

namespace Abacus

/-- What can come from the input of a session. -/
inductive Session.Event where
  /-- A line, with the line feed that ends it if there is one. -/
  | line (text : String)
  /-- The user breaks the session off. -/
  | interrupt
deriving DecidableEq

/-- A session between two lines: its settings, whether a user takes part, the name under which its
input is reported, the number of lines read so far, and the worst code so far. -/
structure Session where
  settings : Settings
  interactive : Bool
  filename : String
  lines : Nat
  status : Nat
deriving DecidableEq

namespace Session

/-- A session that has read nothing yet. -/
def start (settings : Settings) (interactive : Bool) (filename : String) : Session :=
  ⟨settings, interactive, filename, 0, okCode⟩

/-- Whether banner and prompts are shown. -/
def shows (s : Session) : Bool :=
  s.interactive && !s.settings.quiet

/-- What is shown before the first prompt. -/
def greeting (s : Session) : Transcript :=
  .ofOut (if s.shows && !s.settings.banner.isEmpty then s.settings.banner ++ "\n" else "")

/-- What is shown before a line is read. -/
def prompt (s : Session) : Transcript :=
  .ofOut (if s.shows then s.settings.prompt else "")

/-- What is shown at the end. -/
def farewell (s : Session) : Transcript :=
  .ofOut (if s.shows then "\n" else "")

/-- The code that the session ends with. -/
def exitCode (s : Session) : Nat :=
  if s.interactive then okCode else s.status

/-- The lines of a stream as they come from it. -/
def events (text : String) : List Event :=
  (Text.feedLines text).map .line

variable [Host]

/-- Takes a line in. -/
def feed (s : Session) (text : String) : Report Session :=
  let counted := { s with lines := s.lines + 1 }
  if Text.isBlankLine text then .done .empty counted
  else
    (processLine s.settings text counted.lines s.filename).andThen fun code =>
      .done .empty { counted with status := max s.status code }

/-- Runs the session on its input, up to the first interrupt or the end. -/
def run (s : Session) : List Event → Report Nat
  | [] => .done (s.prompt ++ s.farewell) s.exitCode
  | .interrupt :: _ => .done (s.prompt ++ s.farewell) s.exitCode
  | .line text :: more =>
    ((s.feed text).andThen fun next => next.run more).after s.prompt

/-- A whole session on the lines of a stream: each line ends at a line feed and nowhere else. -/
def runAll (s : Session) (events : List Event) : Report Nat :=
  (s.run events).after s.greeting

end Session

end Abacus
