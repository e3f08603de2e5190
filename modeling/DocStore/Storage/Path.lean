import DocStore.Fault

/-!
# Names on a disk

A directory on a disk is one directory of a file system, so a name is a path in it. The parts of a
path lie between slashes. Parts that are empty or dots lead nowhere, any other part names an entry,
and all parts before the last have to be directories. Below this directory there are only files, so
only a path with one such part leads to a file.

`locate?` follows a path without asking what it is followed for; `Place` is where it leads.
-/

namespace DocStore.Storage

/-- Where a path leads. -/
inductive Place where
  /-- The entry with a name. A slash after the name asks that the entry be a directory. -/
  | entry (name : String) (slash : Bool)
  /-- The directory itself, without any part of the path or by dots. -/
  | here (dots : Bool)
  deriving DecidableEq, Repr

namespace Path

/-- The longest name of an entry, in bytes. -/
def maxPartLength : Nat := 255

/-- The longest path, in bytes. -/
def maxLength : Nat := 4095

/-- Does the part lead to where it starts? -/
def isDots (part : String) : Bool :=
  part == "." || part == ".."

/-- The place at the end of some parts, if `isFile` says which entries there are. -/
def follow (isFile : String → Bool) (dots : Bool) : List String → Except Fault Place
  | [] => .ok (.here dots)
  | "" :: parts => follow isFile dots parts
  | part :: parts =>
    if isDots part then follow isFile true parts
    else if maxPartLength < part.utf8ByteSize then .error (.system .nameTooLong)
    else if parts.all (· == "") then .ok (.entry part !parts.isEmpty)
    else if isFile part then .error (.system .notADirectory)
    else .error (.system .notFound)

/-- The place that a path leads to, if `isFile` says which entries there are. -/
def locate (isFile : String → Bool) (path : String) : Except Fault Place :=
  if path.contains '\x00' then .error .nulInName
  else if maxLength < path.utf8ByteSize then .error (.system .nameTooLong)
  else follow isFile false (path.splitOn "/")

end Path

end DocStore.Storage
