import Abacus.Text.HexDigit
import Abacus.Toml.Scan
import Abacus.Toml.Value

/-!
# Numbers

An integer is written in decimal, with an optional sign and without leading zeros, or after `0x`,
`0o` or `0b` in another base. A decimal number with a fraction or an exponent is no integer. A
single underscore may stand between two digits.

Each reader in this module takes the longest number at the front of a text and hands back the rest,
or nothing if there is none.
-/

namespace Abacus.Toml

/-- Digits, and single underscores with a digit after each. -/
def moreDigits (p : Char → Bool) : List Char → List Char × List Char
  | '_' :: c :: rest =>
    if p c then
      let (digits, after) := moreDigits p rest
      (c :: digits, after)
    else ([], '_' :: c :: rest)
  | c :: rest =>
    if p c then
      let (digits, after) := moreDigits p rest
      (c :: digits, after)
    else ([], c :: rest)
  | [] => ([], [])

/-- A run of digits that begins with one; its underscores are left out. -/
def digitRun? (p : Char → Bool) : List Char → Option (List Char × List Char)
  | [] => none
  | c :: rest =>
    if p c then
      let (digits, after) := moreDigits p rest
      some (c :: digits, after)
    else none

/-- The value of the digits of a number in some base. -/
def valueIn (base : Nat) (digits : List Char) : Nat :=
  digits.foldl (fun n c =>
    base * n + (if c.isDigit then c.toNat - '0'.toNat else c.toLower.toNat - 'a'.toNat + 10)) 0

/-- An integer in another base than ten. -/
def based? : List Char → Option (Int × List Char)
  | '0' :: mark :: rest =>
    let read (base : Nat) (p : Char → Bool) : Option (Int × List Char) :=
      (digitRun? p rest).map fun (digits, after) => (valueIn base digits, after)
    match mark with
    | 'x' => read 16 Text.isHexDigit
    | 'o' => read 8 fun c => '0' ≤ c && c ≤ '7'
    | 'b' => read 2 fun c => c == '0' || c == '1'
    | _ => none
  | _ => none

/-- A sign, if there is one. -/
def sign : List Char → List Char × List Char
  | '+' :: rest => (['+'], rest)
  | '-' :: rest => (['-'], rest)
  | rest => ([], rest)

/-- The digits before a point: a single zero, or a run that begins with another digit. -/
def wholePart? : List Char → Option (List Char × List Char)
  | '0' :: rest => some (['0'], rest)
  | rest => digitRun? Char.isDigit rest

/-- A point with digits after it. -/
def fraction : List Char → List Char × List Char
  | '.' :: rest =>
    match digitRun? Char.isDigit rest with
    | some (digits, after) => ('.' :: digits, after)
    | none => ([], '.' :: rest)
  | rest => ([], rest)

/-- An exponent: the letter, an optional sign, and digits. -/
def exponent : List Char → List Char × List Char
  | [] => ([], [])
  | e :: rest =>
    if e == 'e' || e == 'E' then
      let (s, unsigned) := sign rest
      match digitRun? Char.isDigit unsigned with
      | some (digits, after) => (e :: s ++ digits, after)
      | none => ([], e :: rest)
    else ([], e :: rest)

/-- The value of the digits of an integer with its sign. -/
def signedValue (s digits : List Char) : Int :=
  if s = ['-'] then -(Text.decimalValue digits : Int) else Text.decimalValue digits

/-- A decimal number. -/
def decimal? (text : List Char) : Except Fault (Option (Value × List Char)) :=
  let (s, unsigned) := sign text
  match wholePart? unsigned with
  | none => .ok none
  | some (whole, rest) =>
    let (point, rest) := fraction rest
    let (power, rest) := exponent rest
    if !point.isEmpty || !power.isEmpty then
      .ok (some (.float (String.ofList (s ++ whole ++ point ++ power)), rest))
    else if whole.length > Text.maxDigits then .error (.overlong whole.length)
    else .ok (some (.integer (signedValue s whole), rest))

/-- Infinity or the value that is no number, with an optional sign. -/
def special? (text : List Char) : Option (Value × List Char) :=
  let (s, unsigned) := sign text
  let word := unsigned.take 3
  if word = ['i', 'n', 'f'] || word = ['n', 'a', 'n'] then
    some (.float (String.ofList (s ++ word)), unsigned.drop 3)
  else none

end Abacus.Toml
