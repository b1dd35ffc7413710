import Abacus.Toml.Value

/-!
# Dates and times

A date, a time of day, or both, the latter perhaps with an offset from universal time. A date must
be one of the Gregorian calendar, from the year one on.
-/

namespace Abacus.Toml

/-- Reads exactly `n` digits. -/
def fixedDigits? : Nat → Nat → List Char → Option (Nat × List Char)
  | 0, read, rest => some (read, rest)
  | _ + 1, _, [] => none
  | n + 1, read, c :: rest =>
    if c.isDigit then fixedDigits? n (10 * read + (c.toNat - '0'.toNat)) rest else none

/-- Reads a number of `n` digits that lies between two bounds. -/
def field? (n low high : Nat) (text : List Char) : Option (Nat × List Char) :=
  match fixedDigits? n 0 text with
  | some (value, rest) => if low ≤ value && value ≤ high then some (value, rest) else none
  | none => none

/-- Reads one character, which must be `c`. -/
def single? (c : Char) : List Char → Option (List Char)
  | [] => none
  | d :: rest => if c = d then some rest else none

/-- A calendar date. -/
structure Date where
  year : Nat
  month : Nat
  day : Nat
deriving DecidableEq

namespace Date

/-- A year of 366 days. -/
def isLeap (year : Nat) : Bool :=
  year % 4 == 0 && (year % 100 != 0 || year % 400 == 0)

/-- The number of days in a month. -/
def daysIn (year month : Nat) : Nat :=
  if month = 2 then if isLeap year then 29 else 28
  else if month = 4 || month = 6 || month = 9 || month = 11 then 30
  else 31

/-- A date that the calendar has. -/
def isValid (d : Date) : Bool :=
  1 ≤ d.year && 1 ≤ d.month && d.month ≤ 12 && 1 ≤ d.day && d.day ≤ daysIn d.year d.month

end Date

/-- A date, in numbers that can be such; whether the calendar has it is another matter. -/
def date? (text : List Char) : Option (Date × List Char) := do
  let (year, rest) ← field? 4 0 9999 text
  let rest ← single? '-' rest
  let (month, rest) ← field? 2 1 12 rest
  let rest ← single? '-' rest
  let (day, rest) ← field? 2 1 31 rest
  return (⟨year, month, day⟩, rest)

/-- The text after a time of day, with seconds and perhaps a fraction of them. -/
def afterTime? (text : List Char) : Option (List Char) := do
  let (_, rest) ← field? 2 0 23 text
  let rest ← single? ':' rest
  let (_, rest) ← field? 2 0 59 rest
  let rest ← single? ':' rest
  let (_, rest) ← field? 2 0 59 rest
  match rest with
  | '.' :: c :: more => return if c.isDigit then more.dropWhile Char.isDigit else rest
  | _ => return rest

/-- The text after an offset from universal time; without one, the whole text. -/
def afterOffset (text : List Char) : List Char :=
  match text with
  | c :: rest =>
    if c == 'Z' || c == 'z' then rest
    else if c == '+' || c == '-' then
      let offset := do
        let (_, rest) ← field? 2 0 23 rest
        let rest ← single? ':' rest
        let (_, rest) ← field? 2 0 59 rest
        return rest
      offset.getD text
    else text
  | [] => []

/-- The text after the time of day that follows a date; without one, the whole text. -/
def afterDayTime (text : List Char) : List Char :=
  match text with
  | c :: rest =>
    if c == 'T' || c == 't' || c == ' ' then
      match afterTime? rest with
      | some rest => afterOffset rest
      | none => text
    else text
  | [] => []

/-- The part of a text that was read, as a value. -/
def momentBefore (text rest : List Char) : Value × List Char :=
  (.moment (String.ofList (text.take (text.length - rest.length))), rest)

/-- A date with or without a time, and whether the calendar has the date. -/
def dateTime? (text : List Char) : Option (Bool × Value × List Char) :=
  (date? text).map fun (date, rest) => (date.isValid, momentBefore text (afterDayTime rest))

/-- A time of day. -/
def time? (text : List Char) : Option (Value × List Char) :=
  (afterTime? text).map (momentBefore text)

end Abacus.Toml
