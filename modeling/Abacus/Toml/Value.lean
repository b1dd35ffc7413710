/-!
# Values of a configuration

The values that a TOML document can hold. Numbers with a point and times are kept as they are
written, for nothing is done with them.
-/

namespace Abacus.Toml

/-- A value. A table keeps its keys in the order in which they came about. -/
inductive Value where
  | text (s : String)
  | boolean (b : Bool)
  | integer (n : Int)
  | float (written : String)
  | moment (written : String)
  | array (items : List Value)
  | table (entries : List (String × Value))

/-- The entries of a table. -/
abbrev Table := List (String × Value)

namespace Table

/-- Gives a key a value, in its old place if the table has the key already. -/
def put (key : String) (value : Value) : Table → Table
  | [] => [(key, value)]
  | (k, v) :: more => if k = key then (k, value) :: more else (k, v) :: put key value more

/-- The keys of a table. -/
def keys (t : Table) : List String := t.map (·.1)

/-- The table that belongs to a key. -/
def table? (t : Table) (key : String) : Option Table :=
  match t.lookup key with
  | some (.table u) => some u
  | _ => none

/-- The text that belongs to a key. -/
def text? (t : Table) (key : String) : Option String :=
  match t.lookup key with
  | some (.text s) => some s
  | _ => none

/-- The truth value that belongs to a key. -/
def boolean? (t : Table) (key : String) : Option Bool :=
  match t.lookup key with
  | some (.boolean b) => some b
  | _ => none

end Table

namespace Value

/-- Whether a value is closed when it has been written: its parts stand together in one place, and
nothing can be added later. -/
def isCompound : Value → Bool
  | .array _ | .table _ => true
  | .text _ | .boolean _ | .integer _ | .float _ | .moment _ => false

end Value

end Abacus.Toml
