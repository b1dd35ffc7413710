/-!
# File names

A file name is a root and a sequence of parts. Empty parts and parts that are a single dot say
nothing and are dropped; two dots are kept, for they may lead anywhere. A name that begins with
exactly two slashes has a root of its own.
-/

namespace Abacus.Files

/-- A file name. -/
structure Path where
  root : String
  parts : List String
deriving DecidableEq, Inhabited

/-- A text cut at its slashes. -/
def splitAtSlashes : List Char → List (List Char)
  | [] => [[]]
  | c :: rest =>
    if c = '/' then [] :: splitAtSlashes rest
    else
      match splitAtSlashes rest with
      | [] => [[c]]
      | part :: more => (c :: part) :: more

namespace Path

/-- The root of a file name: its slashes at the start. -/
def rootOf (text : List Char) : String :=
  match (text.takeWhile (· == '/')).length with
  | 0 => ""
  | 2 => "//"
  | _ => "/"

/-- Reads a file name. -/
def ofString (text : String) : Path :=
  let parts := (splitAtSlashes text.toList).filter fun part => part ≠ [] && part ≠ ['.']
  ⟨rootOf text.toList, parts.map String.ofList⟩

/-- A file name written out; the name of the current directory is a dot. -/
def toString (p : Path) : String :=
  if p.root.isEmpty && p.parts.isEmpty then "." else p.root ++ "/".intercalate p.parts

instance : ToString Path := ⟨toString⟩

/-- The name of a file in a directory. -/
def child (p : Path) (name : String) : Path :=
  { p with parts := p.parts ++ [name] }

example : toString (ofString "a//b/./c/") = "a/b/c" := by decide +kernel

example : toString (ofString "./") = "." := by decide +kernel

end Path

end Abacus.Files
