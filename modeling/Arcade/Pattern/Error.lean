import Arcade.Pattern.Tree
import Arcade.Text.Parts

/-! Why a text is no pattern. The message repeats the pattern and marks the place under it. -/

namespace Arcade.Pattern

/-- What is wrong with a part of a pattern. -/
inductive Problem where
  | notInClass | rangeOrder | rangeBound | openClass
  | numberTooLarge | countOrder | noCount | openCount | nothingToRepeat
  | noHexDigits | noScalar | notHexDigit
  | openEscape | unknownEscape | backreference
  | openBoundary | unknownBoundary | endInBoundary
  | danglingNegation | repeatedNegation | repeatedFlag | unknownFlag | endInFlags
  | repeatedName | noName | notInName | openName
  | openGroup | unopenedGroup | lookAround | tooDeep
  | notAProperty | unknownProperty | unknownValue
  | onlyUnicode
  /-- A part would match bytes that are no text. -/
  | notText
deriving DecidableEq

def Problem.message : Problem → String
  | notInClass => "invalid escape sequence found in character class"
  | rangeOrder => "invalid character class range, the start must be <= the end"
  | rangeBound => "invalid range boundary, must be a literal"
  | openClass => "unclosed character class"
  | numberTooLarge => "decimal literal invalid"
  | countOrder => "invalid repetition count range, the start must be <= the end"
  | noCount => "repetition quantifier expects a valid decimal"
  | openCount => "unclosed counted repetition"
  | nothingToRepeat => "repetition operator missing expression"
  | noHexDigits => "hexadecimal literal empty"
  | noScalar => "hexadecimal literal is not a Unicode scalar value"
  | notHexDigit => "invalid hexadecimal digit"
  | openEscape => "incomplete escape sequence, reached end of pattern prematurely"
  | unknownEscape => "unrecognized escape sequence"
  | backreference => "backreferences are not supported"
  | openBoundary =>
    "special word boundary assertion is either unclosed or contains an invalid character"
  | unknownBoundary =>
    "unrecognized special word boundary assertion, valid choices are: start, end, start-half "
      ++ "or end-half"
  | endInBoundary =>
    "found either the beginning of a special word boundary or a bounded repetition on a \\b with "
      ++ "an opening brace, but no closing brace"
  | danglingNegation => "dangling flag negation operator"
  | repeatedNegation => "flag negation operator repeated"
  | repeatedFlag => "duplicate flag"
  | unknownFlag => "unrecognized flag"
  | endInFlags => "expected flag but got end of regex"
  | repeatedName => "duplicate capture group name"
  | noName => "empty capture group name"
  | notInName => "invalid capture group character"
  | openName => "unclosed capture group name"
  | openGroup => "unclosed group"
  | unopenedGroup => "unopened group"
  | lookAround => "look-around, including look-ahead and look-behind, is not supported"
  | tooDeep => "exceed the maximum number of nested parentheses/brackets (" ++ toString maxDepth
      ++ ")"
  | notAProperty => "invalid Unicode character class"
  | unknownProperty => "Unicode property not found"
  | unknownValue => "Unicode property value not found"
  | onlyUnicode => "Unicode not allowed here"
  | notText => "pattern can match invalid UTF-8"

/-- A problem and where it is. Something that must not be repeated has stood `earlier`. -/
structure Error where
  problem : Problem
  extent : Extent
  earlier : Option Extent := none
deriving DecidableEq

/-- The line of a character position and its column, both from 1. -/
def lineAndColumn (pattern : List Char) (position : Nat) : Nat × Nat :=
  let before := pattern.take position
  (before.count '\n' + 1, (before.reverse.takeWhile (· != '\n')).length + 1)

/-- Drops a carriage return at the end. -/
def withoutReturn (line : List Char) : List Char :=
  if line.getLast? = some '\r' then line.dropLast else line

/-- The lines of a text. A line feed at the end starts no further line. -/
def linesOf (text : List Char) : List (List Char) :=
  let parts := Text.split '\n' text
  let last := parts.getLast?.getD []
  parts.dropLast.map withoutReturn ++ (if last.isEmpty then [] else [last])

/-- Marks under the columns from one up to another, at least one mark each. `column` counts what is
already written of the line. -/
def marks (column : Nat) : List (Nat × Nat) → List Char
  | [] => []
  | (first, stop) :: rest =>
    let width := max 1 (stop - first)
    List.replicate (first - 1 - column) ' ' ++ List.replicate width '^'
      ++ marks (max column (first - 1) + width) rest

/-- The lines of the pattern, each with the marks that belong under it. A number stands before each
line if there is more than one. -/
def annotated (pattern : List Char) (extents : List Extent) : String :=
  let lines := linesOf pattern
  let count := lines.length + (if pattern.getLast? = some '\n' then 1 else 0)
  let width := (toString count).length
  let numbered (index : Nat) : String :=
    if count ≤ 1 then "    "
    else
      let number := toString (index + 1)
      String.ofList (List.replicate (width - number.length) ' ') ++ number ++ ": "
  let margin := if count ≤ 1 then 4 else width + 2
  let marked (index : Nat) : List (Nat × Nat) := extents.filterMap fun extent =>
    let (firstLine, first) := lineAndColumn pattern extent.start
    let (lastLine, last) := lineAndColumn pattern extent.stop
    if firstLine = index + 1 && lastLine = index + 1 then some (first, last) else none
  String.join (lines.mapIdx fun index line =>
    let under := marked index
    numbered index ++ String.ofList line ++ "\n"
      ++ (if under.isEmpty then ""
        else String.ofList (List.replicate margin ' ' ++ marks 0 under) ++ "\n"))

/-- Says where the parts are that span several lines. -/
def acrossLines (pattern : List Char) (extents : List Extent) : List String :=
  extents.filterMap fun extent =>
    let (firstLine, first) := lineAndColumn pattern extent.start
    let (lastLine, last) := lineAndColumn pattern extent.stop
    if firstLine = lastLine then none
    else some ("on line " ++ toString firstLine ++ " (column " ++ toString first
      ++ ") through line " ++ toString lastLine ++ " (column " ++ toString (last - 1) ++ ")")

namespace Error

/-- The parts to mark, in order. -/
def extents (error : Error) : List Extent :=
  match error.earlier with
  | none => [error.extent]
  | some earlier =>
    if earlier.start ≤ error.extent.start then [earlier, error.extent]
    else [error.extent, earlier]

def message (error : Error) (pattern : List Char) : String :=
  let shown := annotated pattern error.extents
  let problem := "error: " ++ error.problem.message
  if pattern.contains '\n' then
    let divider := String.ofList (List.replicate 79 '~') ++ "\n"
    let across := acrossLines pattern error.extents
    "regex parse error:\n" ++ divider ++ shown ++ divider
      ++ (if across.isEmpty then "" else Text.joined "\n" across ++ "\n") ++ problem
  else "regex parse error:\n" ++ shown ++ problem

end Error
end Arcade.Pattern
