import Arcade.Command.Path
import Arcade.Source

/-! Files in memory, read by path as files of a system are. -/

namespace Arcade.Command

/-- Files by the names that lead to them from the root. A directory exists if it holds a file, or
if the current directory is in it. -/
structure FileTree where
  files : List (List String × List UInt8)
  /-- The directory in which relative paths start. -/
  current : List String

namespace FileTree

def isDirectory (tree : FileTree) (place : List String) : Bool :=
  place.isPrefixOf tree.current
    || tree.files.any fun (path, _) => place.isPrefixOf path && place != path

def file? (tree : FileTree) (place : List String) : Option (List UInt8) := tree.files.lookup place

/-- The longest name of a file and the longest path, in bytes. -/
def nameLimit : Nat := 255
def pathLimit : Nat := 4096

/-- The place that is reached by following parts from a directory. Nothing is above the root. -/
def follow (tree : FileTree) (place : List String) : List String → Except ReadFailure (List String)
  | [] => .ok place
  | part :: rest =>
    if !tree.isDirectory place then
      .error (if (tree.file? place).isSome then .notDirectory else .notFound)
    else if part = "" || part = "." then tree.follow place rest
    else if part = ".." then tree.follow place.dropLast rest
    else if nameLimit < part.utf8ByteSize then .error .nameTooLong
    else tree.follow (place ++ [part]) rest

/-- The bytes of the file at a path. -/
def read (tree : FileTree) (path : String) : Except ReadFailure (List UInt8) := do
  if path.toList.contains '\x00' then .error .nulInName
  else if path.isEmpty then .error .notFound
  else if pathLimit ≤ path.utf8ByteSize then .error .nameTooLong
  else
    let start := if Path.isAbsolute path then [] else tree.current
    let place ← tree.follow start ((Path.parts path.toList).map String.ofList)
    match tree.file? place with
    | some bytes => .ok bytes
    | none => .error (if tree.isDirectory place then .isDirectory else .notFound)

/-- The tree of files with the given relative paths, and of the devices that stand for nothing and
for the standard input. -/
def ofFiles (files : List (String × List UInt8)) (standardInput : List UInt8) : FileTree where
  current := ["tmp", "work"]
  files :=
    [(["dev", "null"], []), (["dev", "stdin"], standardInput)] ++ files.map fun (path, bytes) =>
      (["tmp", "work"] ++ (Path.parts path.toList).map String.ofList, bytes)

end FileTree
end Arcade.Command
