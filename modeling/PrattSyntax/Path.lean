import PrattSyntax.Text.Line

/-!
# Paths

A path is a run of names, with slashes in front if it does not begin at the
working directory. Empty names and single dots say nothing and are left out; a
double dot is kept, because what it means depends on the files.
-/

namespace PrattSyntax

/-- A path: the slashes in front of it and its names. -/
structure Path where
  root : String
  names : List String
deriving DecidableEq, Repr

namespace Path

/-- The slashes in front of a path: none, one, or two if there are exactly two. -/
def rootOf (chars : List Char) : String :=
  match (chars.takeWhile (· = '/')).length with
  | 0 => ""
  | 2 => "//"
  | _ => "/"

/-- The path that a text names. -/
def ofString (text : String) : Path :=
  ⟨rootOf text.toList,
    ((Text.splitAt '/' text.toList).map String.ofList).filter fun name =>
      name ≠ "" ∧ name ≠ "."⟩

/-- The text of a path. A path without names is a dot or its slashes. -/
def toText (path : Path) : String :=
  if path.names = [] ∧ path.root = "" then "."
  else path.root ++ "/".intercalate path.names

/-- Whether the system takes a path: a NUL would end it early. -/
def isAccepted (path : Path) : Bool :=
  path.names.all fun name => '\x00' ∉ name.toList

/-- A name inside a path. -/
def child (path : Path) (name : String) : Path := { path with names := path.names ++ [name] }

end Path

end PrattSyntax
