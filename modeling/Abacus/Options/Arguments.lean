import Abacus.Text.DecimalDigit
import Abacus.Options.Usage

/-!
# Reading the words of a command

Every word is first told apart on its own: an option, perhaps with an argument attached, a word of
its own, or the separator `--`, after which every word is one of its own. A word that begins with a
dash is one of its own if it is a negative number, or if it holds a space and no option begins like
it. Then the words are read from left to right. The first word of its own is the input; what is
left over is reported at the end, all at once.
-/

namespace Abacus.Options

/-- What goes with an option. -/
inductive Argument where
  | text (s : String)
  /-- Nothing at all. -/
  | blank
deriving DecidableEq

namespace Argument

/-- An argument that is attached to its option. The separator is no argument there either; it leaves
the option blank. -/
def attached (text : String) : Argument :=
  if text = "--" then .blank else .text text

/-- The text of an argument. -/
def text? : Argument → Option String
  | .text s => some s
  | .blank => none

end Argument

/-- What a command says. Options that it does not mention are missing. -/
structure Arguments where
  input : Option String
  expressions : List Argument
  config : Option Argument
  prompt : Option Argument
  allowTrailing : Option Bool
  quiet : Bool
  debug : Bool
deriving DecidableEq

/-- A command that says nothing. -/
def Arguments.none : Arguments :=
  ⟨.none, [], .none, .none, .none, false, false⟩

/-- What a word of a command is. -/
inductive Word where
  /-- A word that is no option. -/
  | plain (text : String)
  /-- The word `--`. -/
  | separator
  /-- An option, under one of its full names, with the argument attached to it. -/
  | option (flag : Flag) (name : String) (attached : Option String)
  /-- A word that looks like an option but is none. -/
  | unknown (text : String)
deriving DecidableEq

namespace Word

/-- The word as it was written, for a word that is left over. -/
def leftOver : Word → String
  | .plain text => text
  | .separator => "--"
  | .option _ name _ => name
  | .unknown text => text

end Word

/-- The text before the first `=` and the text after it. -/
def splitAtEquals (word : List Char) : List Char × Option (List Char) :=
  match word.dropWhile (· != '=') with
  | [] => (word, none)
  | _ :: value => (word.takeWhile (· != '='), some value)

/-- A dash and decimal digits, perhaps with a point before the last of them. A line feed at the end
does not count. -/
def isNegativeNumber : List Char → Bool
  | '-' :: rest =>
    let digits := if rest.getLast? = some '\n' then rest.dropLast else rest
    match digits.dropWhile Text.isDecimalDigit with
    | [] => !digits.isEmpty
    | '.' :: fraction => !fraction.isEmpty && fraction.all Text.isDecimalDigit
    | _ => false
  | _ => false

/-- The options that a word with two dashes can be short for. -/
def longCandidates (word : List Char) : List Word :=
  let (start, value) := splitAtEquals word
  Flag.names.filterMap fun (name, flag) =>
    if start.isPrefixOf name.toList then some (.option flag name (value.map String.ofList))
    else none

/-- The options that a word with one dash can begin with or be short for. -/
def shortCandidates (word : List Char) : List Word :=
  Flag.names.filterMap fun (name, flag) =>
    if name.toList = word.take 2 then some (.option flag name (some (String.ofList (word.drop 2))))
    else if word.isPrefixOf name.toList then some (.option flag name none)
    else none

/-- What a word is that begins with a dash and is not exactly the name of an option, and that has
`candidates` to be short for. -/
def Word.ofCandidates (text : String) (candidates : List Word) : Except Misuse Word :=
  match candidates with
  | [word] => .ok word
  | [] =>
    if isNegativeNumber text.toList || text.toList.contains ' ' then .ok (.plain text)
    else .ok (.unknown text)
  | several => .error (.ambiguous text (several.map Word.leftOver))

/-- What a word is on its own. -/
def Word.ofString (text : String) : Except Misuse Word :=
  match text.toList with
  | [] | ['-'] => .ok (.plain text)
  | '-' :: second :: rest =>
    match Flag.named? text with
    | some flag => .ok (.option flag text none)
    | none =>
      let (start, value) := splitAtEquals text.toList
      match value, Flag.named? (String.ofList start) with
      | some v, some flag => .ok (.option flag (String.ofList start) (some (String.ofList v)))
      | _, _ =>
        Word.ofCandidates text <|
          if second = '-' then longCandidates text.toList
          else shortCandidates ('-' :: second :: rest)
  | _ => .ok (.plain text)

/-- What the words of a command are. -/
def Word.ofStrings : List String → Except Misuse (List Word)
  | [] => .ok []
  | text :: more =>
    if text = "--" then .ok (.separator :: more.map .plain)
    else do
      let word ← Word.ofString text
      let rest ← Word.ofStrings more
      return word :: rest

/-- An option, ready to be carried out, with its argument. One that takes none is blank. -/
structure Setting where
  flag : Flag
  argument : Argument
deriving DecidableEq

/-- What an option does. -/
def Arguments.set (a : Arguments) (s : Setting) : Except Stop Arguments :=
  match s.flag with
  | .help => .error .help
  | .expression => .ok { a with expressions := a.expressions ++ [s.argument] }
  | .config => .ok { a with config := some s.argument }
  | .prompt => .ok { a with prompt := some s.argument }
  | .trailing allowed => .ok { a with allowTrailing := some allowed }
  | .quiet => .ok { a with quiet := true }
  | .debug => .ok { a with debug := true }

/-- The settings in a word that is the option `flag` with `attached` at its end. An option with one
dash that takes no argument can be followed by others in the same word. The last of them may still
lack its argument. -/
def cluster (flag : Flag) (attached : List Char) : Except Misuse (List Setting × Option Flag) :=
  if flag.takesArgument then .ok ([⟨flag, .attached (String.ofList attached)⟩], none)
  else
    match attached with
    | [] => .error (.ignoredArgument flag "")
    | c :: more =>
      match Flag.named? (String.ofList ['-', c]) with
      | none => .error (.ignoredArgument flag (String.ofList attached))
      | some next =>
        if more.isEmpty then
          if next.takesArgument then .ok ([⟨flag, .blank⟩], some next)
          else .ok ([⟨flag, .blank⟩, ⟨next, .blank⟩], none)
        else do
          let (settings, open?) ← cluster next more
          return (⟨flag, .blank⟩ :: settings, open?)

/-- The settings in a word that is an option, and the option in it that still lacks its argument. -/
def settingsOf (flag : Flag) (name : String) :
    Option String → Except Misuse (List Setting × Option Flag)
  | none => if flag.takesArgument then .ok ([], some flag) else .ok ([⟨flag, .blank⟩], none)
  | some attached =>
    if flag.takesArgument then .ok ([⟨flag, .attached attached⟩], none)
    else if name.toList.length = 2 then cluster flag attached.toList
    else .error (.ignoredArgument flag attached)

/-- What has been read of a command: what it says so far, whether the input has been given or given
up, and the words left over. -/
structure Progress where
  arguments : Arguments
  inputTaken : Bool
  leftOver : List String
deriving DecidableEq

namespace Progress

/-- Nothing read so far. -/
def start : Progress := ⟨.none, false, []⟩

/-- Puts a word with those left over. -/
def leave (p : Progress) (words : List Word) : Progress :=
  { p with leftOver := p.leftOver ++ words.map Word.leftOver }

/-- Takes a word as the input. -/
def takeInput (p : Progress) (text : String) : Progress :=
  { p with arguments := { p.arguments with input := some text }, inputTaken := true }

/-- Carries settings out. -/
def set (p : Progress) (settings : List Setting) : Except Stop Progress :=
  settings.foldlM (fun p s => return { p with arguments := ← p.arguments.set s }) p

/-- Reads the words of a command. The input goes together with a separator right before or right
after it; any other separator is left over. -/
def read (p : Progress) : List Word → Except Stop Progress
  | [] => .ok p
  | .unknown text :: more => (p.leave [.unknown text]).read more
  | .plain text :: more =>
    if p.inputTaken then (p.leave [.plain text]).read more
    else
      match more with
      | .separator :: rest => .ok ((p.takeInput text).leave rest)
      | _ => (p.takeInput text).read more
  | .separator :: more =>
    if p.inputTaken then .ok (p.leave (.separator :: more))
    else
      match more with
      | .plain text :: rest => .ok ((p.takeInput text).leave rest)
      | _ => .ok (p.leave more)
  | .option flag name attached :: more =>
    match settingsOf flag name attached with
    | .error m => .error (.misuse m)
    | .ok (settings, none) => do (← p.set settings).read more
    | .ok (settings, some last) =>
      match more with
      | .plain text :: rest => do (← p.set (settings ++ [⟨last, .text text⟩])).read rest
      | _ => .error (.misuse (.missingArgument last))

end Progress

/-- Reads the words of a command, its own name not among them. -/
def Arguments.ofWords (words : List String) : Except Stop Arguments :=
  match Word.ofStrings words with
  | .error m => .error (.misuse m)
  | .ok words => do
    let p ← Progress.start.read words
    if p.leftOver.isEmpty then return p.arguments
    else .error (.misuse (.unrecognized p.leftOver))

end Abacus.Options
