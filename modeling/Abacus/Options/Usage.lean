import Abacus.Text.Quoted
import Abacus.Options.Flag

/-!
# Usage

The texts that the command prints about its own use, and the faults of use that it reports.
-/

namespace Abacus.Options

/-- The lines that show how the command is used. -/
def usage : String :=
  "usage: intcalc [-h] [-e EXPR] [--config FILE] [--prompt TEXT]\n" ++
  "               [--allow-trailing | --no-allow-trailing] [-q] [--debug]\n" ++
  "               [input]\n"

/-- The text that is printed when help is asked for. -/
def help : String :=
  usage ++
  "\n" ++
  "Integer calculator for + - * / and parentheses\n" ++
  "\n" ++
  "positional arguments:\n" ++
  "  input                 File of expressions, one per line (default: read\n" ++
  "                        stdin)\n" ++
  "\n" ++
  "options:\n" ++
  "  -h, --help            show this help message and exit\n" ++
  "  -e EXPR, --expr EXPR  Evaluate EXPR and exit (repeatable)\n" ++
  "  --config FILE         Config file (default: auto-discover intcalc.toml)\n" ++
  "  --prompt TEXT         Interactive prompt\n" ++
  "  --allow-trailing, --no-allow-trailing\n" ++
  "                        Ignore tokens after a complete expression instead of\n" ++
  "                        reporting them\n" ++
  "  -q, --quiet           No banner or prompt\n" ++
  "  --debug               Dump tokens to stderr\n"

/-- What can be wrong with the words of a command. -/
inductive Misuse where
  /-- A shortened name that several options could have. -/
  | ambiguous (word : String) (candidates : List String)
  /-- An option at the end, or before something that is no argument. -/
  | missingArgument (flag : Flag)
  /-- An argument attached to an option that takes none. -/
  | ignoredArgument (flag : Flag) (argument : String)
  /-- Words that belong to nothing. -/
  | unrecognized (words : List String)
deriving DecidableEq

/-- What is wrong, in one line. -/
def Misuse.message : Misuse → String
  | .ambiguous word candidates =>
    s!"ambiguous option: {word} could match " ++ ", ".intercalate candidates
  | .missingArgument flag => s!"argument {flag.title}: expected one argument"
  | .ignoredArgument flag argument =>
    s!"argument {flag.title}: ignored explicit argument {Text.quoted argument}"
  | .unrecognized words => "unrecognized arguments: " ++ " ".intercalate words

/-- Why a command line is not carried out. -/
inductive Stop where
  /-- Help was asked for. -/
  | help
  | misuse (m : Misuse)
deriving DecidableEq

/-- What is printed on the output stream instead of carrying a command out. -/
def Stop.out : Stop → String
  | .help => Options.help
  | .misuse _ => ""

/-- What is printed on the error stream instead of carrying a command out. -/
def Stop.err : Stop → String
  | .help => ""
  | .misuse m => usage ++ s!"intcalc: error: {m.message}\n"

/-- The code that the command then ends with. -/
def Stop.exitCode : Stop → Nat
  | .help => 0
  | .misuse _ => 2

end Abacus.Options
