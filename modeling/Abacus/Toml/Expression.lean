import Abacus.Toml.Moment
import Abacus.Toml.Number
import Abacus.Toml.Table
import Abacus.Toml.Text

/-!
# Written values

A value as it stands after the equals sign: a text, a truth value, an array, a table on one line, a
date or time, or a number. What follows a value is for the reader of the statement to judge.

Arrays and tables hold values. The readers count down from a number that allows for two steps a
character; as each value and each comma takes a character, the text always runs out first.
-/

namespace Abacus.Toml

/-- A value made of a single word. -/
def scalar : Scan Value := do
  let text ← get
  match dateTime? text with
  | some (valid, value, rest) =>
    if valid then do set rest; return value else Scan.fail
  | none =>
    match time? text with
    | some (value, rest) => do set rest; return value
    | none =>
      match based? text with
      | some (n, rest) => do set rest; return .integer n
      | none =>
        match ← decimal? text with
        | some (value, rest) => do set rest; return value
        | none =>
          match special? text with
          | some (value, rest) => do set rest; return value
          | none => Scan.fail

/-- Whether a key leads into something that is closed. -/
def leadsInto (closed : List Key) (key : Key) : Bool :=
  closed.any fun c => c.isPrefixOf key

mutual

/-- A value. -/
def value : Nat → Scan Value
  | 0 => Scan.fail
  | n + 1 => do
    match ← Scan.peek? with
    | some '\x22' => return .text (← quotedText '\x22')
    | some '\x27' => return .text (← quotedText '\x27')
    | some '[' => do
      Scan.expect ['[']
      arrayRest n []
    | some '\x7b' => do
      Scan.expect ['\x7b']
      skipSpaces
      if ← Scan.skip? ['\x7d'] then return .table [] else tableRest n [] []
    | _ => do
      if ← Scan.skip? ['t', 'r', 'u', 'e'] then return .boolean true
      else if ← Scan.skip? ['f', 'a', 'l', 's', 'e'] then return .boolean false
      else scalar

/-- The rest of an array before one of its items, with the items before it in reverse. A comma may
stand after the last item. -/
def arrayRest : Nat → List Value → Scan Value
  | 0, _ => Scan.fail
  | n + 1, items => do
    skipLines
    if ← Scan.skip? [']'] then return .array items.reverse
    else do
      let item ← value n
      skipLines
      if ← Scan.skip? [']'] then return .array (item :: items).reverse
      else do
        Scan.expect [',']
        arrayRest n (item :: items)

/-- The rest of a table on one line before one of its keys, with the entries before it and the keys
among them that are closed. -/
def tableRest : Nat → Table → List Key → Scan Value
  | 0, _, _ => Scan.fail
  | n + 1, entries, closed => do
    let key ← key
    Scan.expect ['=']
    skipSpaces
    let value ← value n
    if leadsInto closed key then Scan.fail
    match entries.modifyAt false (Table.insertNew (key.getLastD "") value) key.dropLast with
    | none => Scan.fail
    | some entries => do
      skipSpaces
      if ← Scan.skip? ['\x7d'] then return .table entries
      else do
        Scan.expect [',']
        skipSpaces
        tableRest n entries (if value.isCompound then key :: closed else closed)

end

/-- A key with its value. -/
def keyValue : Scan (Key × Value) := do
  let key ← key
  Scan.expect ['=']
  skipSpaces
  let value ← value (2 * (← get).length + 1)
  return (key, value)

end Abacus.Toml
