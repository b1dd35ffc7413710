import Abacus.Editor.Server
import Abacus.Files.Tree
import Abacus.Session.Command

/-!
# The program

The outermost layer: it reads the files that a command names, and the standard input, hands them to
`Session.runCommand`, and writes what comes back. Only a session with a user goes line by line, for
its user waits for each answer.
-/

namespace Abacus.Program

open Files (Path OpenError System)
open Options (Argument Arguments Plan)

/-- The error that the system reports when a file cannot be read. Whatever has no name of its own
counts as forbidden. -/
def openError : IO.Error → OpenError
  | .noFileOrDirectory .. => .missing
  | .inappropriateType _ 21 _ => .isDirectory
  | .inappropriateType .. => .notDirectory
  | .invalidArgument _ 36 _ => .nameTooLong
  | _ => .forbidden

/-- What comes of reading a file. -/
def readFile (path : Path) : IO (Except OpenError (List UInt8)) := do
  try
    return .ok (← IO.FS.readBinFile path.toString).toList
  catch e => return .error (openError e)

/-- The files that a command can read. -/
def readFiles (a : Arguments) : IO System := do
  let config := Options.configPath (a.config.bind Argument.text?) (.ofString ".")
  let configured ← readFile config
  match Options.inputPath a.input with
  | none => return fun path => if path = config then configured else .error .missing
  | some input => do
    let given ← readFile input
    return fun path =>
      if path = config then configured else if path = input then given else .error .missing

/-- Writes to the two output streams. -/
def write (t : Transcript) : IO Unit := do
  IO.print t.out
  IO.eprint t.err
  (← IO.getStdout).flush

/-- Writes a report and comes to its exit code. An accident is reported too. -/
def finish (r : Report Nat) : IO UInt32 := do
  write r.written
  match r.ended with
  | .ok code => return code.toUInt32
  | .error e => do
    IO.eprintln s!"error: {e.message}"
    return 1

/-- The bytes up to the next line feed, or up to the end. -/
partial def readLine (input : IO.FS.Stream) (read : ByteArray) : IO ByteArray := do
  let next ← input.read 1
  if next.isEmpty then return read
  else if next.toList = [10] then return read ++ next
  else readLine input (read ++ next)

/-- All the bytes up to the end. -/
partial def readAll (input : IO.FS.Stream) (read : ByteArray) : IO ByteArray := do
  let next ← input.read 65536
  if next.isEmpty then return read else readAll input (read ++ next)

/-- Answers a user line by line. A line feed may end several lines, if the user typed carriage
returns before it. -/
partial def converse (input : IO.FS.Stream) (s : Session) (waiting : List Session.Event) :
    IO UInt32 := do
  match waiting with
  | .line text :: more => do
    let r := s.feed text
    match r.ended with
    | .ok next => do
      write r.written
      write next.prompt
      converse input next more
    | .error e => finish ⟨r.written, .error e⟩
  | .interrupt :: _ => finish (.done s.farewell s.exitCode)
  | [] => do
    let bytes ← readLine input .empty
    if bytes.isEmpty then finish (.done s.farewell s.exitCode)
    else converse input s (Session.eventsOfBytes bytes.toList)

/-- What a command asks for that reads the standard input. -/
def planForInput? (files : System) (a : Arguments) : Option Plan :=
  match Options.resolve files a (.ofString ".") with
  | .ok plan => if plan.expressions.isEmpty && plan.input.isNone then some plan else none
  | .error _ => none

/-- Answers a user, unless there is no prompt to show. -/
def serve (input : IO.FS.Stream) (plan : Plan) : IO UInt32 := do
  let s := Session.start plan.settings true Session.standardName
  if s.shows && plan.promptBlank then finish (Session.runInput ⟨[], true⟩ plan)
  else do
    write s.greeting
    write s.prompt
    converse input s []

/-- Carries out a command whose words have been read. -/
def run (a : Arguments) : IO UInt32 := do
  let files ← readFiles a
  let input ← IO.getStdin
  match planForInput? files a with
  | none => finish (Session.runArguments files ⟨[], false⟩ a)
  | some plan =>
    if ← input.isTty then serve input plan
    else
      let bytes ← readAll input .empty
      finish (Session.runInput ⟨Session.eventsOfBytes bytes.toList, false⟩ plan)

end Abacus.Program

/-- Runs the program on the words of a command. -/
def main (words : List String) : IO UInt32 :=
  match Abacus.Options.Arguments.ofWords words with
  | .ok a => Abacus.Program.run a
  | .error stop => Abacus.Program.finish (.done ⟨stop.out, stop.err⟩ stop.exitCode)
