import Arcade.Text.Parts

/-! File paths as text. -/

namespace Arcade.Command.Path

/-- The parts of a path between slashes, empty ones among them. -/
def parts (path : List Char) : List (List Char) := Text.split '/' path

def isAbsolute (path : String) : Bool := path.toList.head? = some '/'

/-- A name in a directory. An absolute name stands for itself. -/
def join (directory name : String) : String :=
  if isAbsolute name then name
  else if directory.isEmpty || directory.toList.getLast? = some '/' then directory ++ name
  else directory ++ "/" ++ name

/-- Whether a part stands for nothing at the end of a path that goes before it. -/
def isVoid (part : List Char) : Bool := part.isEmpty || part = ['.']

/-- Drops parts at the end that stand for nothing. The first part of a relative path counts
also if it is a dot. -/
def trimEnd (first : List (List Char)) (rest : List (List Char)) : List (List Char) :=
  first ++ (rest.reverse.dropWhile isVoid).reverse

def joinParts (parts : List (List Char)) : String :=
  String.ofList (List.intercalate ['/'] parts)

/-- The directory of a path, empty for a single name. The root and the empty path have none. -/
def parent? (path : String) : Option String :=
  if isAbsolute path then
    let rest := trimEnd [] (parts (path.toList.dropWhile (· == '/')))
    if rest.isEmpty then none else some ("/" ++ joinParts (trimEnd [] rest.dropLast))
  else match parts path.toList with
    | [] => none
    | first :: rest =>
      match trimEnd [first] rest with
      | [[]] => none
      | [_] => some ""
      | kept => some (joinParts (trimEnd [first] (kept.drop 1).dropLast))

end Arcade.Command.Path
