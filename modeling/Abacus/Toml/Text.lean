import Abacus.Text.HexDigit
import Abacus.Toml.Scan

/-!
# Texts and keys

A text stands between double quotes, with escapes, or between apostrophes, without; three quotes on
either side make it one that may go on over several lines. A key is a sequence of parts with dots
between them, each part bare or in single quotes of either kind.
-/

namespace Abacus.Toml

/-- A character given by the hexadecimal digits of its number. -/
def hexCharacter (digits : Nat) : Scan Char := do
  let found ← Scan.takeExactly digits Text.isHexDigit
  let number := found.foldl (fun n c => 16 * n + Text.hexValue c) 0
  if number.isValidChar then return Char.ofNat number else Scan.fail

/-- What follows a backslash at the end of a line: nothing up to the next visible character. -/
def lineEnding : Scan (List Char) := do
  skipSpaces
  match ← Scan.peek? with
  | none => return []
  | some '\n' => do Scan.skipWhile isSpaceOrFeed; return []
  | some _ => Scan.fail

/-- What follows a backslash. -/
def escaped (multiline : Bool) : Scan (List Char) := do
  match ← get with
  | [] => Scan.fail
  | c :: rest =>
    if multiline && isSpaceOrFeed c then lineEnding
    else
      set rest
      match c with
      | 'b' => return ['\x08']
      | 't' => return ['\t']
      | 'n' => return ['\n']
      | 'f' => return ['\x0c']
      | 'r' => return ['\r']
      | '\x22' => return ['\x22']
      | '\\' => return ['\\']
      | 'u' => return [← hexCharacter 4]
      | 'U' => return [← hexCharacter 8]
      | _ => Scan.fail

/-- The three quotes around a text of several lines. -/
def tripled (quote : Char) : List Char := [quote, quote, quote]

/-- The control characters that do not stand in a text. -/
def isForbidden (multiline : Bool) (c : Char) : Bool :=
  isControl c && !(multiline && c == '\n')

/-- The rest of a text with escapes, after the opening quotes, with its closing quotes. Each round
takes a character at least. -/
def basicBody (multiline : Bool) : Scan (List Char) := do
  rounds ((← get).length + 1) []
where
  rounds : Nat → List Char → Scan (List Char)
    | 0, _ => Scan.fail
    | n + 1, read => do
      match ← get with
      | [] => Scan.fail
      | c :: rest =>
        if c = '\x22' then
          if !multiline then do set rest; return read.reverse
          else if ← Scan.skip? (tripled '\x22') then return read.reverse
          else do set rest; rounds n (c :: read)
        else if c = '\\' then
          set rest
          let piece ← escaped multiline
          rounds n (piece.reverse ++ read)
        else if isForbidden multiline c then Scan.fail
        else do set rest; rounds n (c :: read)

/-- The text before the first occurrence of `mark`, and the text after it. -/
def splitAtMark (mark : List Char) : List Char → Option (List Char × List Char)
  | [] => if mark.isEmpty then some ([], []) else none
  | c :: rest =>
    if mark.isPrefixOf (c :: rest) then some ([], (c :: rest).drop mark.length)
    else (splitAtMark mark rest).map fun (before, after) => (c :: before, after)

/-- The rest of a text without escapes, after the opening quotes, with its closing quotes. -/
def literalBody (multiline : Bool) : Scan (List Char) := do
  let mark := if multiline then tripled '\x27' else ['\x27']
  match splitAtMark mark (← get) with
  | none => Scan.fail
  | some (body, rest) =>
    if body.any (isForbidden multiline) then Scan.fail
    set rest
    return body

/-- One or two more quotes right after the closing quotes of several lines belong to the text. -/
def extraQuotes (quote : Char) : Scan (List Char) := do
  if ← Scan.skip? [quote] then
    if ← Scan.skip? [quote] then return [quote, quote] else return [quote]
  else return []

/-- A text on one line, from its opening quote. -/
def singleLine (quote : Char) : Scan String := do
  Scan.expect [quote]
  return String.ofList (← if quote = '\x22' then basicBody false else literalBody false)

/-- A text of several lines, from its opening quotes. A line feed right after them does not count.
-/
def severalLines (quote : Char) : Scan String := do
  Scan.expect (tripled quote)
  let _ ← Scan.skip? ['\n']
  let body ← if quote = '\x22' then basicBody true else literalBody true
  return String.ofList (body ++ (← extraQuotes quote))

/-- A text, from its opening quote. -/
def quotedText (quote : Char) : Scan String := do
  if (tripled quote).isPrefixOf (← get) then severalLines quote else singleLine quote

/-- One part of a key. -/
def keyPart : Scan String := do
  match ← Scan.peek? with
  | some '\x22' => singleLine '\x22'
  | some '\x27' => singleLine '\x27'
  | _ => do
    let bare ← Scan.takeWhile isBareKey
    if bare.isEmpty then Scan.fail else return String.ofList bare

/-- A key, with the blanks after it. -/
def key : Scan (List String) := do
  let first ← keyPart
  skipSpaces
  rounds ((← get).length + 1) [first]
where
  rounds : Nat → List String → Scan (List String)
    | 0, parts => return parts.reverse
    | n + 1, parts => do
      if ← Scan.skip? ['.'] then
        skipSpaces
        let part ← keyPart
        skipSpaces
        rounds n (part :: parts)
      else return parts.reverse

end Abacus.Toml
