import Abacus.Text.Utf8
import Abacus.Toml.Expression

/-!
# Documents

A document is a sequence of statements, one a line at most: a key with its value, the header of a
table, or the header of the next table of an array. Keys belong to the table of the header before
them. No statement may change what another has settled:

* a value is given once;
* what is inside an array or a table on one line is closed for good;
* a table is opened by a header at most once, and a table that came about by a key of several parts
  is opened by no header, and by no such key below a later header.
-/

namespace Abacus.Toml

/-- What the statements so far have settled: the values, the keys that no header may open, those
that become such at the next header, and those that are closed with everything in them. -/
structure Document where
  root : Table
  opened : List Key
  opening : List Key
  closed : List Key

namespace Document

/-- A document without statements. -/
def empty : Document := ⟨[], [], [], []⟩

/-- Whether a key leads into something closed. -/
def isClosed (d : Document) (key : Key) : Bool :=
  leadsInto d.closed key

/-- Comes to a header: what the keys before it opened stays as it is. -/
def settle (d : Document) : Document :=
  { d with opened := d.opening ++ d.opened, opening := [] }

/-- The keys of the tables that `key` leads through, below a header. -/
def onTheWay (header key : Key) : List Key :=
  (List.range (key.length - 1)).map fun i => header ++ key.take (i + 1)

/-- Gives a key below a header a value. -/
def define (d : Document) (header key : Key) (value : Value) : Option Document :=
  let parents := header ++ key.dropLast
  if (onTheWay header key).any d.opened.contains || d.isClosed parents then none
  else
    (d.root.modifyAt true (Table.insertNew (key.getLastD "") value) parents).map fun root =>
      { d with
        root
        opening := onTheWay header key ++ d.opening
        closed := if value.isCompound then (header ++ key) :: d.closed else d.closed }

/-- Opens the table of a header. -/
def openTable (d : Document) (key : Key) : Option Document :=
  if d.opened.contains key || d.isClosed key then none
  else (d.root.modifyAt true some key).map fun root => { d with root, opened := key :: d.opened }

/-- Opens the next table of an array. It has nothing in common with those before it, so that what
they settled below this key no longer counts. -/
def openItem (d : Document) (key : Key) : Option Document :=
  if d.isClosed key then none
  else
    (d.root.modifyAt true (Table.appendTable (key.getLastD "")) key.dropLast).map fun root =>
      { d with
        root
        opened := key :: d.opened.filter (fun k => !key.isPrefixOf k)
        closed := d.closed.filter (fun k => !key.isPrefixOf k) }

end Document

/-- Goes on with what a statement made of the document, if it may stand there. -/
def accepted {α : Type} : Option α → Scan α
  | some a => return a
  | none => Scan.fail

/-- The header of a table or of the next table of an array, and the document after it. -/
def header (d : Document) : Scan (Document × Key) := do
  if ← Scan.skip? ['[', '['] then
    skipSpaces
    let key ← key
    let d ← accepted (d.settle.openItem key)
    Scan.expect [']', ']']
    return (d, key)
  else
    Scan.expect ['[']
    skipSpaces
    let key ← key
    let d ← accepted (d.settle.openTable key)
    Scan.expect [']']
    return (d, key)

/-- A line, up to its line feed, below a header: the document and the header after it. -/
def statement (d : Document) (under : Key) : Scan (Document × Key) := do
  skipSpaces
  let after ← match ← Scan.peek? with
    | none | some '\n' | some '#' => pure (d, under)
    | some '[' => header d
    | some _ => do
      let (key, value) ← keyValue
      pure (← accepted (d.define under key value), under)
  skipSpaces
  skipComment
  return after

/-- The lines of a document, each but the last with its line feed. -/
def statements : Nat → Document → Key → Scan Document
  | 0, d, _ => return d
  | n + 1, d, under => do
    let (d, under) ← statement d under
    match ← get with
    | [] => return d
    | '\n' :: rest => do
      set rest
      statements n d under
    | _ => Scan.fail

/-- Each carriage return right before a line feed is dropped. -/
def dropReturns : List Char → List Char
  | [] => []
  | '\r' :: '\n' :: rest => '\n' :: dropReturns rest
  | c :: rest => c :: dropReturns rest

/-- The table that a document stands for. -/
def parse (text : String) : Except Fault Table :=
  let text := dropReturns text.toList
  match (statements (text.length + 1) .empty []).run text with
  | .ok (d, _) => .ok d.root
  | .error e => .error e

end Abacus.Toml
