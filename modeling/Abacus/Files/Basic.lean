import Abacus.Text.Quoted
import Abacus.Files.Path

/-!
# Opening files

All that the program needs to know of a file system: what comes of opening a file for reading.
-/

namespace Abacus.Files

/-- Why a file cannot be read. -/
inductive OpenError where
  | missing
  | forbidden
  | notDirectory
  | isDirectory
  | nameTooLong
  /-- The name holds a null character. -/
  | nullInName
deriving DecidableEq

namespace OpenError

/-- The number of the error; a name that no system takes has none. -/
def number? : OpenError → Option Nat
  | .missing => some 2
  | .forbidden => some 13
  | .notDirectory => some 20
  | .isDirectory => some 21
  | .nameTooLong => some 36
  | .nullInName => none

/-- The error in words. -/
def reason : OpenError → String
  | .missing => "No such file or directory"
  | .forbidden => "Permission denied"
  | .notDirectory => "Not a directory"
  | .isDirectory => "Is a directory"
  | .nameTooLong => "File name too long"
  | .nullInName => "embedded null byte"

/-- The error as it is reported for a file. -/
def message (e : OpenError) (path : Path) : String :=
  match e.number? with
  | some n => s!"[Errno {n}] {e.reason}: {Text.quoted path.toString}"
  | none => e.reason

end OpenError

/-- A file system at one moment: what opening each file gives, its bytes or an error. -/
abbrev System := Path → Except OpenError (List UInt8)

end Abacus.Files
