import Arcade.Pattern.Basic
import Arcade.Pattern.Reader

/-! What a written pattern means. The modes that hold where a part stands decide which characters
it is for. -/

namespace Arcade.Pattern

/-- The modes that make a difference to the meaning. -/
structure Modes where
  anyCase : Bool := false
  manyLines : Bool := false
  dotEnds : Bool := false
  returns : Bool := false
  unicode : Bool := true

def Modes.change (modes : Modes) (change : ModeChange) : Modes where
  anyCase := (change.get? .anyCase).getD modes.anyCase
  manyLines := (change.get? .manyLines).getD modes.manyLines
  dotEnds := (change.get? .dotEnds).getD modes.dotEnds
  returns := (change.get? .returns).getD modes.returns
  unicode := (change.get? .unicode).getD modes.unicode

/-- Carries the modes from a part to the next one in the same group. -/
abbrev Interpreting (α : Type) := StateT Modes (Except Error) α

namespace Interpreting

def fail {α : Type} (problem : Problem) (extent : Extent) : Interpreting α :=
  throw ⟨problem, extent, none⟩

/-- The modes at the current part. -/
def current : Interpreting Modes := get

end Interpreting

open Interpreting

namespace CharClasses

def ofRanges (ranges : List (Char × Char)) : CharClass :=
  .unionAll (ranges.map fun (first, last) => .range first last)

def ofChars (chars : List Char) : CharClass := .unionAll (chars.map .single)

def asciiWord : CharClass := ofRanges [('a', 'z'), ('A', 'Z'), ('0', '9'), ('_', '_')]

def asciiBlank : CharClass := ofChars [' ', '\t', '\n', '\x0b', '\x0c', '\r']

end CharClasses

open CharClasses

def NamedClass.meaning : NamedClass → CharClass
  | alnum => ofRanges [('0', '9'), ('A', 'Z'), ('a', 'z')]
  | alpha => ofRanges [('A', 'Z'), ('a', 'z')]
  | ascii => .range '\x00' '\x7f'
  | blank => ofChars ['\t', ' ']
  | cntrl => ofRanges [('\x00', '\x1f'), ('\x7f', '\x7f')]
  | digit => .range '0' '9'
  | graph => .range '!' '~'
  | lower => .range 'a' 'z'
  | print => .range ' ' '~'
  | punct => ofRanges [('!', '/'), (':', '@'), ('[', '\x60'), ('\x7b', '~')]
  | space => asciiBlank
  | upper => .range 'A' 'Z'
  | word => asciiWord
  | xdigit => ofRanges [('0', '9'), ('A', 'F'), ('a', 'f')]

def ShortClass.meaning (unicode : Bool) : ShortClass → CharClass
  | digit => if unicode then .listed .digit else .range '0' '9'
  | blank => if unicode then .listed .blank else asciiBlank
  | word => if unicode then .listed .word else asciiWord

/-- The name of a property or of its value without case, blanks, dashes and underscores, and
without `is` before it. -/
def plainName (name : List Char) : String :=
  let lower := name.map Char.toLower
  let isMarked := lower.take 2 = ['i', 's']
  let kept := (if isMarked then lower.drop 2 else lower).filter fun c =>
    c.toNat < 0x80 && c != ' ' && c != '_' && c != '-'
  if isMarked && kept = ['c'] then "isc" else String.ofList kept

/-- The general categories, by their short and their long names. -/
def categories : List String :=
  ["c", "other", "cc", "control", "cntrl", "cf", "format", "cn", "unassigned", "co", "privateuse",
    "cs", "surrogate", "l", "letter", "lc", "casedletter", "ll", "lowercaseletter", "lm",
    "modifierletter", "lo", "otherletter", "lt", "titlecaseletter", "lu", "uppercaseletter", "m",
    "mark", "combiningmark", "mc", "spacingmark", "me", "enclosingmark", "mn", "nonspacingmark",
    "n", "number", "nd", "decimalnumber", "digit", "nl", "letternumber", "no", "othernumber", "p",
    "punctuation", "punct", "pc", "connectorpunctuation", "pd", "dashpunctuation", "pe",
    "closepunctuation", "pf", "finalpunctuation", "pi", "initialpunctuation", "po",
    "otherpunctuation", "ps", "openpunctuation", "s", "symbol", "sc", "currencysymbol", "sk",
    "modifiersymbol", "sm", "mathsymbol", "so", "othersymbol", "z", "separator", "zl",
    "lineseparator", "zp", "paragraphseparator", "zs", "spaceseparator", "any", "assigned",
    "ascii"]

/-- The names of the digits among the general categories. -/
def digitNames : List String := ["nd", "decimalnumber", "digit"]

/-- Properties that characters have or have not. -/
def plainProperties : List String :=
  ["alpha", "alphabetic", "lower", "lowercase", "upper", "uppercase", "space", "wspace",
    "whitespace", "cased", "ci", "caseignorable", "dash", "dia", "diacritic", "emoji", "ext",
    "extender", "hex", "hexdigit", "ahex", "asciihexdigit", "ideo", "ideographic", "ids",
    "idstart", "idc", "idcontinue", "xids", "xidstart", "xidc", "xidcontinue", "math", "term",
    "terminalpunctuation", "graphemebase", "graphemeextend", "joincontrol", "qmark",
    "quotationmark", "di", "defaultignorablecodepoint"]

/-- Only digits and white space are known by their properties. -/
def Property.meaning? (property : Property) : Except Problem CharSet :=
  let name := plainName property.name
  match property.value.map plainName with
  | none =>
    if digitNames.contains name then .ok .digit
    else if ["space", "wspace", "whitespace"].contains name then .ok .blank
    else .error .unknownProperty
  | some value =>
    if name = "gc" || name = "generalcategory" then
      if digitNames.contains value then .ok .digit
      else .error (if categories.contains value then .unknownProperty else .unknownValue)
    else .error (if plainProperties.contains name then .unknownValue else .unknownProperty)

/-- A class in its modes, or all other characters. Without Unicode these would be bytes. -/
def inModes (extent : Extent) (cls : CharClass) (negated : Bool) : Interpreting CharClass := do
  let modes ← current
  if modes.unicode then
    let cls := if modes.anyCase then .anyCase cls else cls
    return if negated then .complement cls else cls
  if negated then fail .notText extent
  return if modes.anyCase then .anyAsciiCase cls else cls

def shortMeaning (extent : Extent) (cls : ShortClass) (negated : Bool) :
    Interpreting CharClass := do
  let modes ← current
  let meant := cls.meaning modes.unicode
  if negated && !modes.unicode then fail .notText extent
  return if negated then .complement meant else meant

def propertyMeaning (extent : Extent) (property : Property) (negated : Bool) :
    Interpreting CharClass := do
  if !(← current).unicode then fail .onlyUnicode extent
  match property.meaning? with
  | .ok set => inModes extent (.listed set) negated
  | .error problem => fail problem extent

/-- Checks that a character can stand where it does. -/
def checkLiteral (literal : Literal) : Interpreting Unit := do
  if !(← current).unicode && literal.asByte && 0x7f < literal.value.toNat then
    fail .notText literal.extent

/-- A character within brackets. Without Unicode, it must be an ASCII character. -/
def memberChar (literal : Literal) : Interpreting Char := do
  checkLiteral literal
  if !(← current).unicode && 0x7f < literal.value.toNat then fail .onlyUnicode literal.extent
  return literal.value

def SetOperation.meaning (operation : SetOperation) (left right : CharClass) : CharClass :=
  match operation with
  | intersection => .intersection left right
  | difference => .difference left right
  | symmetricDifference => .union (.difference left right) (.difference right left)

mutual

def ClassTree.meaning : ClassTree → Interpreting CharClass
  | .char literal => return .single (← memberChar literal)
  | .range _ first last => return .range (← memberChar first) (← memberChar last)
  | .named extent cls negated => inModes extent cls.meaning negated
  | .short extent cls negated => shortMeaning extent cls negated
  | .property extent which negated => propertyMeaning extent which negated
  | .bracketed extent negated inner => do inModes extent (← inner.meaning) negated
  | .union _ members => ClassTree.unionMeaning members
  | .operation extent which left right => do
    let left ← inModes extent (← left.meaning) false
    let right ← inModes extent (← right.meaning) false
    return which.meaning left right

def ClassTree.unionMeaning : List ClassTree → Interpreting CharClass
  | [] => return .none
  | member :: rest => return .union (← member.meaning) (← ClassTree.unionMeaning rest)

end

def literalMeaning (literal : Literal) : Interpreting Pattern := do
  checkLiteral literal
  let modes ← current
  let cls := CharClass.single literal.value
  if !modes.anyCase then return .char cls
  return .char (if modes.unicode then .anyCase cls else .anyAsciiCase cls)

def dotMeaning (extent : Extent) : Interpreting Pattern := do
  let modes ← current
  if !modes.unicode then fail .notText extent
  let ends := if modes.dotEnds then [] else if modes.returns then ['\r', '\n'] else ['\n']
  return .char (.complement (ofChars ends))

def Assertion.meaning (modes : Modes) (assertion : Assertion) : Anchor :=
  let word := ShortClass.word.meaning modes.unicode
  match assertion with
  | textStart => .textStart
  | textEnd => .textEnd
  | lineStart =>
    if !modes.manyLines then .textStart else if modes.returns then .returnStart else .lineStart
  | lineEnd => if !modes.manyLines then .textEnd else if modes.returns then .returnEnd else .lineEnd
  | boundary => .boundary word
  | noBoundary => .noBoundary word
  | wordStart => .wordStart word
  | wordEnd => .wordEnd word
  | noWordBefore => .noWordBefore word
  | noWordAfter => .noWordAfter word

mutual

def Tree.meaning : Tree → Interpreting Pattern
  | .char literal => literalMeaning literal
  | .dot extent => dotMeaning extent
  | .assertion _ which => return .anchor (which.meaning (← current))
  | .short extent cls negated => return .char (← shortMeaning extent cls negated)
  | .property extent which negated => return .char (← propertyMeaning extent which negated)
  | .bracketed extent negated inner => do
    return .char (← inModes extent (← inner.meaning) negated)
  | .modes _ change => do
    modify (·.change change)
    return .empty
  | .repeated _ inner least most => return .repeated (← inner.meaning) least most
  | .group _ change inner => do
    let outer ← current
    set (outer.change change)
    let pattern ← inner.meaning
    set outer
    return pattern
  | .sequence _ parts => return appendAll (← Tree.allMeanings parts)
  | .choice _ branches => return eitherOf (← Tree.allMeanings branches)

def Tree.allMeanings : List Tree → Interpreting (List Pattern)
  | [] => return []
  | tree :: rest => return (← tree.meaning) :: (← Tree.allMeanings rest)

end

/-- About how many states a class takes in a machine that reads bytes. An ASCII character takes
one of them. -/
def classWeight : CharClass → Nat
  | .none => 0
  | .range first last => if last.toNat < 0x80 then 1 else if first = last then first.utf8Size else 4
  | .listed set => set.bounds.length
  | .union left right | .intersection left right => classWeight left + classWeight right
  | .complement inner => classWeight inner + 8
  | .anyCase inner | .anyAsciiCase inner => classWeight inner * 2

/-- About how many states a pattern takes with its repetitions written out. -/
def weight : Pattern → Nat
  | empty | anchor _ => 1
  | char cls => max 1 (classWeight cls)
  | append first second => weight first + weight second
  | either left right => weight left + weight right + 1
  | repeated inner least most =>
    weight inner * least + (weight inner + 1) * (most.map (· - least)).getD 1

/-- The room for the states, which take 32 bytes each. -/
def sizeLimit : Nat := 10485760

/-- Why a text is refused as a pattern. -/
inductive Refusal where
  | error (reason : Error)
  | tooLarge
deriving DecidableEq

def Refusal.message (refusal : Refusal) (text : String) : String :=
  match refusal with
  | .error reason => reason.message text.toList
  | .tooLarge => "Compiled regex exceeds size limit of " ++ toString sizeLimit ++ " bytes."

/-- The pattern that a text describes. -/
def ofText (text : String) : Except Refusal Pattern := do
  let tree ← (Tree.ofText text.toList).mapError .error
  let (pattern, _) ← (tree.meaning.run {}).mapError .error
  if sizeLimit < weight pattern * 32 then throw .tooLarge
  return pattern

end Arcade.Pattern
