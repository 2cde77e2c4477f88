import PrattSyntax.Path
import PrattSyntax.Text.Quoted

/-!
# File trees

The files and directories below a working directory, and what the system answers
when a path is read there. A path is walked name by name, and every name but the
last must lead to a directory. Names and paths are bounded in bytes: a path that
is too long is not walked at all, and a name that is too long stops the walk at
the directory where it is looked up.
-/

namespace PrattSyntax

/-- Why a file cannot be read: the number and the wording of the system. -/
structure ReadFault where
  code : Nat
  wording : String
deriving DecidableEq, Repr

namespace ReadFault

/-- There is nothing at the path. -/
def notFound : ReadFault := ⟨2, "No such file or directory"⟩

/-- The path goes through a file. -/
def notDirectory : ReadFault := ⟨20, "Not a directory"⟩

/-- There is a directory at the path. -/
def isDirectory : ReadFault := ⟨21, "Is a directory"⟩

/-- A name on the path or the path itself is too long. -/
def nameTooLong : ReadFault := ⟨36, "File name too long"⟩

/-- Whether a fault says that there is no file at the path, so that a file which
may be missing counts as missing. -/
def meansNoFile (fault : ReadFault) : Bool :=
  fault ∈ [notFound, notDirectory, isDirectory]

/-- The message about a path. -/
def message (fault : ReadFault) (path : Path) : String :=
  "[Errno " ++ toString fault.code ++ "] " ++ fault.wording ++ ": " ++ Text.quote path.toText

end ReadFault

/-- What reading each path gives. -/
abbrev Files := Path → Except ReadFault (List UInt8)

/-- Files and directories by the names that lead to them. The directories on the
way to an entry are there as well. -/
structure FileTree where
  files : List (List String × List UInt8)
  directories : List (List String)
deriving DecidableEq, Repr

namespace FileTree

/-- What stands at a place. -/
inductive Entry where
  | file (bytes : List UInt8)
  | directory
deriving DecidableEq, Repr

/-- A place: names below the working directory, or somewhere above it. -/
abbrev Place := Option (List String)

/-- What stands at a place. Above the working directory there are directories. -/
def entry? (tree : FileTree) : Place → Option Entry
  | none => some .directory
  | some names =>
      match tree.files.lookup names with
      | some bytes => some (.file bytes)
      | none =>
          if names = [] ∨ (tree.files.map Prod.fst ++ tree.directories).any names.isPrefixOf then
            some .directory
          else none

/-- The place that a name leads to; nothing below what lies above is known. -/
def step : Place → String → Option Place
  | some names, ".." => if names = [] then some none else some (some names.dropLast)
  | some names, name => some (some (names ++ [name]))
  | none, ".." => some none
  | none, _ => none

/-- The longest name in a directory, in bytes. -/
def maxNameBytes : Nat := 255

/-- The longest path, in bytes. -/
def maxPathBytes : Nat := 4095

/-- What reading a run of names from a place gives. -/
def readFrom (tree : FileTree) (place : Place) : List String → Except ReadFault (List UInt8)
  | [] =>
      match tree.entry? place with
      | none => .error .notFound
      | some .directory => .error .isDirectory
      | some (.file bytes) => .ok bytes
  | name :: rest =>
      match tree.entry? place with
      | none => .error .notFound
      | some (.file _) => .error .notDirectory
      | some .directory =>
          if maxNameBytes < name.utf8ByteSize then .error .nameTooLong
          else
            match step place name with
            | none => .error .notFound
            | some next => tree.readFrom next rest

/-- What reading a path gives. There is nothing at a path that the system does not
take. -/
def read (tree : FileTree) : Files := fun path =>
  if !path.isAccepted then .error .notFound
  else if maxPathBytes < path.toText.utf8ByteSize then .error .nameTooLong
  else tree.readFrom (if path.root = "" then some [] else none) path.names

end FileTree

end PrattSyntax
