import Abacus.Files.Basic

/-!
# A directory tree in memory

A file system that holds nothing but the files and directories of one tree, seen from the top of
the tree. Nothing is known of what lies outside it except that there are directories there.
-/

namespace Abacus.Files

/-- An entry of a tree: its name from the top, and its bytes if it is a file. -/
structure Entry where
  parts : List String
  content : Option (List UInt8)
deriving DecidableEq

/-- The entries of a tree, the latest first: of several with one name, the latest stands. A
directory that holds something need not be an entry itself. -/
abbrev Tree := List Entry

/-- What stands at a place in a tree. -/
inductive Node where
  | file (content : List UInt8)
  | directory
deriving DecidableEq

/-- A place on the way along a path: in the tree, with the innermost directory first, or
outside. -/
inductive Place where
  | inside (reversed : List String)
  | outside
deriving DecidableEq

/-- What an entry stands for. -/
def Entry.node (e : Entry) : Node :=
  match e.content with
  | some content => .file content
  | none => .directory

namespace Tree

/-- The tree after an entry is written. -/
def put (t : Tree) (e : Entry) : Tree := e :: t

/-- The tree after entries are written one after the other. -/
def ofEntries (entries : List Entry) : Tree := entries.foldl put []

/-- The longest name of a single file, in bytes. -/
def maxPart : Nat := 255

/-- The longest name with all its directories, in bytes. -/
def maxPath : Nat := 4095

/-- What stands at a place in the tree. -/
def nodeAt? (t : Tree) (parts : List String) : Option Node :=
  match List.find? (fun e => e.parts = parts) t with
  | some e => some e.node
  | none =>
    if parts.isEmpty || t.any (fun e => parts.isPrefixOf e.parts) then some .directory else none

/-- What was written last stands. -/
theorem nodeAt?_put_self (t : Tree) (e : Entry) : (t.put e).nodeAt? e.parts = some e.node := by
  simp [nodeAt?, put]

/-- Goes one part further from a directory. -/
def step (t : Tree) (place : Place) (part : String) : Except OpenError (Place × Node) :=
  if part = ".." then
    match place with
    | .inside (_ :: up) => .ok (.inside up, .directory)
    | _ => .ok (.outside, .directory)
  else if maxPart < part.utf8ByteSize then .error .nameTooLong
  else
    match place with
    | .outside => .error .missing
    | .inside reversed =>
      match t.nodeAt? (part :: reversed).reverse with
      | some node => .ok (.inside (part :: reversed), node)
      | none => .error .missing

/-- Goes along the parts of a path. -/
def walk (t : Tree) (place : Place) (node : Node) : List String → Except OpenError Node
  | [] => .ok node
  | part :: more =>
    match node with
    | .file _ => .error .notDirectory
    | .directory => do
      let (place, node) ← t.step place part
      t.walk place node more

/-- The file system that holds the tree. -/
def system (t : Tree) : System := fun path =>
  if path.toString.toList.contains '\x00' then .error .nullInName
  else if maxPath < path.toString.utf8ByteSize then .error .nameTooLong
  else
    let top : Place := if path.root.isEmpty then .inside [] else .outside
    match t.walk top .directory path.parts with
    | .error e => .error e
    | .ok .directory => .error .isDirectory
    | .ok (.file content) => .ok content

end Tree

end Abacus.Files
