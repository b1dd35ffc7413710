import Abacus.Toml.Value

/-!
# Tables within tables

Changing the table that a key of several parts leads to. Tables that are missing on the way come
about; a part that has another value than a table leads nowhere.
-/

namespace Abacus.Toml

/-- A key of several parts. -/
abbrev Key := List String

namespace Table

/-- Changes the table that `key` leads to. If `intoArrays` is set, an array stands for its last
item. -/
def modifyAt (intoArrays : Bool) (change : Table → Option Table) : Key → Table → Option Table
  | [], t => change t
  | part :: key, t =>
    match t.lookup part with
    | none => (modifyAt intoArrays change key []).map fun u => t.put part (.table u)
    | some (.table u) => (modifyAt intoArrays change key u).map fun u => t.put part (.table u)
    | some (.array items) =>
      match intoArrays, items.getLast? with
      | true, some (.table u) =>
        (modifyAt intoArrays change key u).map fun u =>
          t.put part (.array (items.dropLast ++ [.table u]))
      | _, _ => none
    | some _ => none

/-- Gives a new key a value. -/
def insertNew (part : String) (value : Value) (t : Table) : Option Table :=
  match t.lookup part with
  | none => some (t.put part value)
  | some _ => none

/-- Adds an empty table at the end of the array that belongs to a key. -/
def appendTable (part : String) (t : Table) : Option Table :=
  match t.lookup part with
  | none => some (t.put part (.array [.table []]))
  | some (.array items) => some (t.put part (.array (items ++ [.table []])))
  | some _ => none

end Table

end Abacus.Toml
