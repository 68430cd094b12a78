/-! Patterns as they are written: what stands where, before the modes that are set in the pattern
give it a meaning. -/

namespace Arcade.Pattern

/-- A part of a written pattern, by its first character and the one behind its last. -/
structure Extent where
  start : Nat
  stop : Nat
deriving DecidableEq

structure Literal where
  extent : Extent
  value : Char
  /-- It is given as a byte, by two hexadecimal digits. -/
  asByte : Bool := false

/-- The classes with a letter for a name; the capital letter is for all other characters. -/
inductive ShortClass where
  | digit | blank | word
deriving DecidableEq

/-- The classes that are named within brackets. They hold only ASCII characters. -/
inductive NamedClass where
  | alnum | alpha | ascii | blank | cntrl | digit | graph | lower | print | punct | space | upper
  | word | xdigit
deriving DecidableEq

/-- A property of characters, with a value if it is not one that characters just have. -/
structure Property where
  name : List Char
  value : Option (List Char) := none

inductive SetOperation where
  | intersection | difference | symmetricDifference
deriving DecidableEq

inductive Assertion where
  | lineStart | lineEnd | textStart | textEnd
  | boundary | noBoundary | wordStart | wordEnd | noWordBefore | noWordAfter
deriving DecidableEq

inductive Mode where
  | anyCase
  /-- Lines within the text start and end, too. -/
  | manyLines
  /-- The dot is also for line ends. -/
  | dotEnds
  /-- Repetitions are as short as they can be, which decides only how far a match reaches. -/
  | short
  /-- Characters beyond ASCII count as letters, digits and blanks. -/
  | unicode
  /-- Carriage returns end lines, too. -/
  | returns
  /-- Blanks and comments in the pattern are skipped. -/
  | spaced
deriving DecidableEq

/-- Modes that are set or unset. -/
abbrev ModeChange := List (Mode × Bool)

def ModeChange.get? (change : ModeChange) (mode : Mode) : Option Bool := change.lookup mode

/-- What stands in brackets. -/
inductive ClassTree where
  | char (literal : Literal)
  | range (extent : Extent) (first last : Literal)
  | named (extent : Extent) (cls : NamedClass) (negated : Bool)
  | short (extent : Extent) (cls : ShortClass) (negated : Bool)
  | property (extent : Extent) (property : Property) (negated : Bool)
  | bracketed (extent : Extent) (negated : Bool) (inner : ClassTree)
  | union (extent : Extent) (members : List ClassTree)
  | operation (extent : Extent) (operation : SetOperation) (left right : ClassTree)

inductive Tree where
  | char (literal : Literal)
  | dot (extent : Extent)
  | assertion (extent : Extent) (assertion : Assertion)
  | short (extent : Extent) (cls : ShortClass) (negated : Bool)
  | property (extent : Extent) (property : Property) (negated : Bool)
  | bracketed (extent : Extent) (negated : Bool) (inner : ClassTree)
  /-- A change of modes up to the end of the group that it stands in. -/
  | modes (extent : Extent) (change : ModeChange)
  | repeated (extent : Extent) (inner : Tree) (least : Nat) (most : Option Nat)
  /-- A group, and the modes within it. -/
  | group (extent : Extent) (change : ModeChange) (inner : Tree)
  | sequence (extent : Extent) (parts : List Tree)
  | choice (extent : Extent) (branches : List Tree)

def ClassTree.extent : ClassTree → Extent
  | char literal => literal.extent
  | range extent .. | named extent .. | short extent .. | property extent .. | bracketed extent ..
  | union extent .. | operation extent .. => extent

def Tree.extent : Tree → Extent
  | char literal => literal.extent
  | dot extent | assertion extent .. | short extent .. | property extent .. | bracketed extent ..
  | modes extent .. | repeated extent .. | group extent .. | sequence extent ..
  | choice extent .. => extent

/-- One part stands for itself. -/
def Tree.ofParts (extent : Extent) : List Tree → Tree
  | [part] => part
  | parts => .sequence extent parts

def Tree.ofBranches (extent : Extent) : List Tree → Tree
  | [branch] => branch
  | branches => .choice extent branches

def ClassTree.ofMembers (extent : Extent) : List ClassTree → ClassTree
  | [member] => member
  | members => .union extent members

/-- How deep groups, repetitions and brackets may be nested. -/
def maxDepth : Nat := 250

mutual

/-- The first part that is deeper than the given number of levels. -/
def ClassTree.tooDeep? (levels : Nat) : ClassTree → Option Extent
  | .bracketed extent _ inner =>
    match levels with
    | 0 => some extent
    | levels + 1 => inner.tooDeep? levels
  | .union extent members =>
    match levels with
    | 0 => if members.isEmpty then none else some extent
    | levels + 1 => ClassTree.anyTooDeep? levels members
  | .operation extent _ left right =>
    match levels with
    | 0 => some extent
    | levels + 1 => left.tooDeep? levels <|> right.tooDeep? levels
  | _ => none

def ClassTree.anyTooDeep? (levels : Nat) : List ClassTree → Option Extent
  | [] => none
  | member :: rest => member.tooDeep? levels <|> ClassTree.anyTooDeep? levels rest

end

mutual

/-- The first part that is deeper than the given number of levels. -/
def Tree.tooDeep? (levels : Nat) : Tree → Option Extent
  | .bracketed extent _ inner =>
    match levels with
    | 0 => some extent
    | levels + 1 => inner.tooDeep? levels
  | .repeated extent inner _ _ | .group extent _ inner =>
    match levels with
    | 0 => some extent
    | levels + 1 => inner.tooDeep? levels
  | .sequence extent parts =>
    match levels with
    | 0 => if parts.isEmpty then none else some extent
    | levels + 1 => Tree.anyTooDeep? levels parts
  | .choice extent branches =>
    match levels with
    | 0 => some extent
    | levels + 1 => Tree.anyTooDeep? levels branches
  | _ => none

def Tree.anyTooDeep? (levels : Nat) : List Tree → Option Extent
  | [] => none
  | tree :: rest => tree.tooDeep? levels <|> Tree.anyTooDeep? levels rest

end

end Arcade.Pattern
