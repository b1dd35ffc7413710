/-!
# The options of the command

Each option has one or two names. A name with two dashes may be shortened as long as it stays
unique, and an option with one dash may have its argument, or further such options, attached.
-/

namespace Abacus.Options

/-- The options. -/
inductive Flag where
  | help
  | expression
  | config
  | prompt
  | trailing (allowed : Bool)
  | quiet
  | debug
deriving DecidableEq

namespace Flag

/-- All names, in the order in which a message lists them. -/
def names : List (String × Flag) :=
  [("-h", .help), ("--help", .help), ("-e", .expression), ("--expr", .expression),
    ("--config", .config), ("--prompt", .prompt), ("--allow-trailing", .trailing true),
    ("--no-allow-trailing", .trailing false), ("-q", .quiet), ("--quiet", .quiet),
    ("--debug", .debug)]

/-- The option with exactly this name. -/
def named? (name : String) : Option Flag :=
  names.lookup name

/-- Whether the option goes with an argument. -/
def takesArgument : Flag → Bool
  | .expression | .config | .prompt => true
  | .help | .trailing _ | .quiet | .debug => false

/-- What a message calls the option: all its names. -/
def title : Flag → String
  | .help => "-h/--help"
  | .expression => "-e/--expr"
  | .config => "--config"
  | .prompt => "--prompt"
  | .trailing _ => "--allow-trailing/--no-allow-trailing"
  | .quiet => "-q/--quiet"
  | .debug => "--debug"

end Flag

end Abacus.Options
