import Abacus.Files.Basic
import Abacus.Text.Utf8
import Abacus.Toml.Document

/-!
# The configuration file

A configuration is a TOML document. It is looked for under a given name, or else under a fixed name
in some directory. A file that does not exist configures nothing, and neither does a directory.
-/

namespace Abacus.Options

open Files (Path OpenError System)

/-- The name of a configuration that is not named by the user. -/
def configName : String := "intcalc.toml"

/-- Why a configuration cannot be used. -/
inductive ConfigFault where
  /-- Its file exists perhaps, but cannot be looked at. -/
  | unreadable (error : OpenError) (path : Path)
  /-- It is no UTF-8 text. -/
  | undecodable
  /-- It is no TOML document. -/
  | malformed
  /-- It holds an integer with too many digits to be worked out. -/
  | overlong (digits : Nat)
deriving DecidableEq

/-- Reads the bytes of a configuration. -/
def configOfBytes (bytes : List UInt8) : Except ConfigFault Toml.Table :=
  match Text.decodeStrict? bytes with
  | none => .error .undecodable
  | some text =>
    match Toml.parse text with
    | .ok table => .ok table
    | .error .malformed => .error .malformed
    | .error (.overlong digits) => .error (.overlong digits)

/-- Where the configuration is looked for. An empty name is no name. -/
def configPath (named : Option String) (directory : Path) : Path :=
  match named with
  | some name => if name.isEmpty then directory.child configName else .ofString name
  | none => directory.child configName

/-- The configuration in a file; an empty one if there is no such file. -/
def loadConfig (files : System) (path : Path) : Except ConfigFault Toml.Table :=
  match files path with
  | .ok bytes => configOfBytes bytes
  | .error .nameTooLong => .error (.unreadable .nameTooLong path)
  | .error .forbidden => .error (.unreadable .forbidden path)
  | .error .missing | .error .notDirectory | .error .isDirectory | .error .nullInName => .ok []

end Abacus.Options
