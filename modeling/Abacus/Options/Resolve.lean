import Abacus.Options.Arguments
import Abacus.Options.Config
import Abacus.Session.Settings

/-!
# What a command asks for

The words of a command and the configuration taken together. What the command says goes before what
the configuration says, and that before the defaults. A value of another type than expected counts
as missing from the configuration.
-/

namespace Abacus.Options

open Files (Path System)

/-- A command with everything that it left open filled in. -/
structure Plan where
  /-- The file to read; the standard input if missing. -/
  input : Option Path
  /-- Expressions given in the command itself. -/
  expressions : List Argument
  settings : Settings
  /-- The command leaves the prompt blank, so that there is none to show. -/
  promptBlank : Bool
deriving DecidableEq

/-- The file that a command names; a dash stands for the standard input, and so does nothing. -/
def inputPath (named : Option String) : Option Path :=
  match named with
  | none | some "" | some "-" => none
  | some name => some (.ofString name)

/-- The settings that a configuration gives a command. -/
def settingsFor (config : Toml.Table) (a : Arguments) : Settings :=
  let loop := (config.table? "repl").getD []
  let reading := (config.table? "parser").getD []
  let configured := (loop.text? "prompt").getD Settings.defaultPrompt
  { prompt := a.prompt.elim configured fun given => given.text?.getD ""
    banner := (loop.text? "banner").getD Settings.defaultBanner
    allowTrailing := (a.allowTrailing.or (reading.boolean? "allow_trailing")).getD false
    quiet := a.quiet
    debug := a.debug }

/-- Fills in what a command leaves open from the configuration that it names, or from the one in a
directory. -/
def resolve (files : System) (a : Arguments) (directory : Path) : Except ConfigFault Plan := do
  let config ← loadConfig files (configPath (a.config.bind Argument.text?) directory)
  return ⟨inputPath a.input, a.expressions, settingsFor config a, a.prompt = some .blank⟩

end Abacus.Options
