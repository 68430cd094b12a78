import Arcade.Pattern.Error
import Arcade.Text.Blank
import Arcade.Text.Digit
import Arcade.Text.Word

/-! Reads patterns from their written form. Reading stops at the first error. -/

namespace Arcade.Pattern

/-- What is not read yet. -/
structure Reader where
  position : Nat := 0
  rest : List Char
  /-- Blanks and comments are skipped. -/
  spaced : Bool := false
  /-- The names of groups and where they are given. -/
  names : List (List Char × Extent) := []

namespace Reader

/-- How much of the text is blanks, and comments up to the ends of their lines. -/
def blankLength (inComment : Bool) : List Char → Nat
  | [] => 0
  | c :: rest =>
    if inComment then blankLength (c != '\n') rest + 1
    else if CharSet.blank.contains c then blankLength false rest + 1
    else if c = '#' then blankLength true rest + 1
    else 0

def skip (reader : Reader) (count : Nat) : Reader :=
  { reader with
    position := reader.position + min count reader.rest.length
    rest := reader.rest.drop count }

def skipBlanks (reader : Reader) : Reader :=
  if reader.spaced then reader.skip (blankLength false reader.rest) else reader

/-- Moves past a character and the blanks after it. -/
def next (reader : Reader) : Reader := (reader.skip 1).skipBlanks

/-- Takes characters of a kind, with blanks between them, at most the given number. -/
def takeSpaced (holds : Char → Bool) : Nat → Reader → List Char × Reader
  | 0, reader => ([], reader)
  | count + 1, reader =>
    match reader.rest with
    | [] => ([], reader)
    | c :: _ =>
      if holds c then
        let (taken, reader) := takeSpaced holds count reader.next
        (c :: taken, reader)
      else ([], reader)

end Reader

abbrev Reading (α : Type) := StateT Reader (Except Error) α

namespace Reading

variable {α : Type}

def fail (problem : Problem) (extent : Extent) : Reading α := throw ⟨problem, extent, none⟩

def failAgain (problem : Problem) (extent earlier : Extent) : Reading α :=
  throw ⟨problem, extent, some earlier⟩

def position : Reading Nat := return (← get).position

/-- The extent from a position to the current one. -/
def since (start : Nat) : Reading Extent := return ⟨start, ← position⟩

/-- The extent of nothing at the current position. -/
def here : Reading Extent := do since (← position)

/-- The extent of the current character. -/
def hereChar : Reading Extent := do
  let start ← position
  return ⟨start, start + 1⟩

def rest : Reading (List Char) := return (← get).rest

def peek : Reading (Option Char) := return (← rest).head?

def atEnd : Reading Bool := return (← rest).isEmpty

/-- Moves past the current character. -/
def step : Reading Unit := modify (·.skip 1)

/-- Moves past the current character and the blanks after it. -/
def next : Reading Unit := modify Reader.next

/-- Moves past a text if it comes next. -/
def stepIf (text : String) : Reading Bool := do
  if text.toList.isPrefixOf (← rest) then
    modify (·.skip text.length)
    return true
  return false

def takeSpaced (holds : Char → Bool) : Reading (List Char) := fun reader =>
  .ok (reader.takeSpaced holds reader.rest.length)

end Reading

open Reading

def isDecimalDigit (c : Char) : Bool := '0' ≤ c && c ≤ '9'

def hexDigit? (c : Char) : Option Nat :=
  if isDecimalDigit c then some (c.toNat - '0'.toNat)
  else if 'a' ≤ c && c ≤ 'f' then some (c.toNat - 'a'.toNat + 10)
  else if 'A' ≤ c && c ≤ 'F' then some (c.toNat - 'A'.toNat + 10)
  else none

def hexValue (digits : List Char) : Nat :=
  digits.foldl (fun value c => value * 16 + (hexDigit? c).getD 0) 0

def decimalValue (digits : List Char) : Nat :=
  digits.foldl (fun value c => value * 10 + (c.toNat - '0'.toNat)) 0

/-- Counts are less than this. -/
def countLimit : Nat := 4294967296

/-- Characters with a meaning of their own, which a backslash takes from them. -/
def isMeta (c : Char) : Bool := "\\.+*?()|[]\x7b\x7d^$#&-~".toList.contains c

/-- Whether a backslash may stand before a character that it gives no meaning to. -/
def isEscapable (c : Char) : Bool :=
  isMeta c || (c.toNat < 0x80 && !c.isAlphanum && c != '<' && c != '>')

/-! Numbers and characters. -/

/-- The character of a code point. -/
def scalar (code : Nat) (extent : Extent) : Reading Char :=
  if code.isValidChar then return Char.ofNat code else fail .noScalar extent

/-- Reads a decimal number with blanks around it. What is wrong with it is an error only where the
number is used. -/
def readNumber : Reading (Except Error Nat) := do
  let skipAll : Reading Unit := modify fun reader =>
    reader.skip (reader.rest.takeWhile CharSet.blank.contains).length
  skipAll
  let start ← position
  let digits ← takeSpaced isDecimalDigit
  let extent ← since start
  skipAll
  if digits.isEmpty then return .error ⟨.noCount, extent, none⟩
  if countLimit ≤ decimalValue digits then return .error ⟨.numberTooLarge, extent, none⟩
  return .ok (decimalValue digits)

/-- Reads a number of hexadecimal digits. -/
def readHexDigits : Nat → Reading (List Char)
  | 0 => return []
  | count + 1 => do
    match ← peek with
    | none => fail .openEscape (← here)
    | some c =>
      if (hexDigit? c).isNone then fail .notHexDigit (← hereChar)
      next
      return c :: (← readHexDigits count)

/-- Reads hexadecimal digits up to a closing brace, from the opening brace on. -/
def readHexBraces : Reading (Nat × Extent) := do
  let brace ← position
  next
  let digits ← takeSpaced fun c => (hexDigit? c).isSome
  match ← peek with
  | none => fail .openEscape (← since brace)
  | some c => if c != '\x7d' then fail .notHexDigit (← hereChar)
  let stop ← position
  next
  if digits.isEmpty then fail .noHexDigits (← since brace)
  return (hexValue digits, ⟨brace + 1, stop⟩)

/-- Reads a character given by its code, from the letter that says how it is given. -/
def readHex (start : Nat) (letter : Char) : Reading Literal := do
  next
  match ← peek with
  | none => fail .openEscape (← here)
  | some '\x7b' =>
    let (code, extent) ← readHexBraces
    let value ← scalar code extent
    return ⟨← since start, value, false⟩
  | some _ =>
    let first ← position
    let digits ← readHexDigits (if letter = 'x' then 2 else if letter = 'u' then 4 else 8)
    let value ← scalar (hexValue digits) (← since first)
    return ⟨← since start, value, letter = 'x'⟩

/-! Escapes. -/

/-- Splits a property into its name and the value that is compared with it. -/
def Property.ofText (text : List Char) : Property :=
  let cut (size index : Nat) : Property :=
    ⟨text.take index, some (text.drop (index + size))⟩
  let unequal := (List.range text.length).find? fun index =>
    ['!', '='].isPrefixOf (text.drop index)
  match unequal, text.idxOf? ':', text.idxOf? '=' with
  | some index, _, _ => cut 2 index
  | none, some index, _ => cut 1 index
  | none, none, some index => cut 1 index
  | none, none, none => ⟨text, none⟩

/-- Reads a property, from the letter that announces it. -/
def readProperty : Reading Property := do
  next
  match ← peek with
  | none => fail .openEscape (← here)
  | some '\x7b' =>
    next
    let name ← takeSpaced (· != '\x7d')
    if ← atEnd then fail .openEscape (← here)
    step
    return Property.ofText name
  | some '\\' => fail .notAProperty (← hereChar)
  | some c =>
    next
    return ⟨[c], none⟩

def isBoundaryChar (c : Char) : Bool := c.isAlpha || c == '-'

/-- Reads the kind of a word boundary in braces. Something else in braces is left for a count. -/
def readBoundary? (start : Nat) : Reading (Option Assertion) := do
  if (← peek) != some '\x7b' then return none
  let before ← get
  next
  let first ← position
  match ← peek with
  | none => fail .endInBoundary (← since start)
  | some c =>
    if !isBoundaryChar c then
      set before
      return none
    let name ← takeSpaced isBoundaryChar
    if (← peek) != some '\x7d' then fail .openBoundary (← since before.position)
    let extent ← since first
    step
    if name = "start".toList then return some .wordStart
    if name = "end".toList then return some .wordEnd
    if name = "start-half".toList then return some .noWordBefore
    if name = "end-half".toList then return some .noWordAfter
    fail .unknownBoundary extent

def shortClass? (letter : Char) : Option (ShortClass × Bool) :=
  match letter with
  | 'd' => some (.digit, false)
  | 's' => some (.blank, false)
  | 'w' => some (.word, false)
  | 'D' => some (.digit, true)
  | 'S' => some (.blank, true)
  | 'W' => some (.word, true)
  | _ => none

/-- The control characters that letters stand for. -/
def controlChar? (letter : Char) : Option Char :=
  match letter with
  | 'a' => some '\x07'
  | 'f' => some '\x0c'
  | 't' => some '\t'
  | 'n' => some '\n'
  | 'r' => some '\r'
  | 'v' => some '\x0b'
  | _ => none

def assertion? (letter : Char) : Option Assertion :=
  match letter with
  | 'A' => some .textStart
  | 'z' => some .textEnd
  | 'b' => some .boundary
  | 'B' => some .noBoundary
  | '<' => some .wordStart
  | '>' => some .wordEnd
  | _ => none

/-- Reads what a backslash and the characters after it stand for. -/
def readEscape : Reading Tree := do
  let start ← position
  step
  match ← peek with
  | none => fail .openEscape (← since start)
  | some c =>
    if isDecimalDigit c then fail .backreference ⟨start, (← position) + 1⟩
    if c = 'x' || c = 'u' || c = 'U' then return .char (← readHex start c)
    if c = 'p' || c = 'P' then
      let property ← readProperty
      return .property (← since start) property (c = 'P')
    step
    let extent ← since start
    if let some (cls, negated) := shortClass? c then return .short extent cls negated
    if isEscapable c then return .char ⟨extent, c, false⟩
    if let some control := controlChar? c then return .char ⟨extent, control, false⟩
    match assertion? c with
    | none => fail .unknownEscape extent
    | some .boundary =>
      let special ← readBoundary? start
      return .assertion (← since start) (special.getD .boundary)
    | some assertion => return .assertion extent assertion

/-! Classes in brackets. -/

/-- The members of a class so far, and where they are. -/
structure Members where
  extent : Extent
  trees : List ClassTree := []

def Members.push (members : Members) (tree : ClassTree) : Members :=
  let start := if members.trees.isEmpty then tree.extent.start else members.extent.start
  ⟨⟨start, tree.extent.stop⟩, members.trees ++ [tree]⟩

def Members.toTree (members : Members) : ClassTree := .ofMembers members.extent members.trees

/-- The class of what stands before an operation and behind it. -/
def joinOperation (left : Option (SetOperation × ClassTree)) (members : Members) : ClassTree :=
  let right := members.toTree
  match left with
  | none => right
  | some (operation, left) => .operation ⟨left.extent.start, right.extent.stop⟩ operation left right

def NamedClass.ofName? (name : String) : Option NamedClass :=
  List.lookup name
    [("alnum", .alnum), ("alpha", .alpha), ("ascii", .ascii), ("blank", .blank),
      ("cntrl", .cntrl), ("digit", .digit), ("graph", .graph), ("lower", .lower),
      ("print", .print), ("punct", .punct), ("space", .space), ("upper", .upper),
      ("word", .word), ("xdigit", .xdigit)]

/-- A named class at the start of a text, and how long it is. -/
def namedClass? (text : List Char) : Option (NamedClass × Bool × Nat) := do
  let '[' :: ':' :: text := text | none
  let negated := text.head? = some '^'
  let text := if negated then text.drop 1 else text
  let name := text.takeWhile (· != ':')
  let cls ← NamedClass.ofName? (String.ofList name)
  guard ((text.drop name.length).take 2 = [':', ']'])
  return (cls, negated, name.length + (if negated then 5 else 4))

/-- The character behind the current one and the blanks after that. A comment counts as what it
begins with. -/
def Reader.peekBehind (reader : Reader) : Option Char :=
  let text := reader.rest.drop 1
  if !reader.spaced then text.head?
  else
    let isBlank := CharSet.blank.contains
    let shown := match text.dropWhile isBlank with
      | '#' :: comment => comment.dropWhile isBlank
      | shown => shown
    if shown.isEmpty then text.head? else shown.head?

/-- Reads a character or an escape within brackets. -/
def readMember : Reading Tree := do
  match ← peek with
  | some '\\' => readEscape
  | c =>
    let extent ← hereChar
    step
    return .char ⟨extent, c.getD '\x00', false⟩

/-- The part as a member of a class. -/
def Tree.asMember : Tree → Reading ClassTree
  | .char literal => return .char literal
  | .short extent cls negated => return .short extent cls negated
  | .property extent which negated => return .property extent which negated
  | tree => fail .notInClass tree.extent

/-- The part as a bound of a range. -/
def Tree.asBound : Tree → Reading Literal
  | .char literal => return literal
  | tree => fail .rangeBound tree.extent

/-- Reads a member of a class, or two with a dash between them. -/
def readRange (opening : Extent) : Reading ClassTree := do
  let first ← readMember
  modify Reader.skipBlanks
  if ← atEnd then fail .openClass opening
  let behind := (← get).peekBehind
  if (← peek) != some '-' || behind = some ']' || behind = some '-' then
    first.asMember
  else
    next
    if ← atEnd then fail .openClass opening
    let last ← readMember
    let extent : Extent := ⟨first.extent.start, last.extent.stop⟩
    let first ← first.asBound
    let last ← last.asBound
    if last.value < first.value then fail .rangeOrder extent
    return .range extent first last

/-- Reads the dashes that a class may start with. -/
def readDashes (start : Nat) : (count : Nat) → Members → Reading Members
  | 0, members => return members
  | count + 1, members => do
    if (← peek) != some '-' then return members
    let members := members.push (.char ⟨← hereChar, '-', false⟩)
    next
    if ← atEnd then fail .openClass ⟨start, start⟩
    readDashes start count members

/-- Reads the opening of a class: whether it is negated, and the characters that are members only
at the start. -/
def readOpening : Reading (Extent × Bool × Members) := do
  let start ← position
  next
  if ← atEnd then fail .openClass (← since start)
  let negated := (← peek) = some '^'
  if negated then
    next
    if ← atEnd then fail .openClass (← since start)
  let members ← readDashes start (← rest).length ⟨← here, []⟩
  if members.trees.isEmpty && (← peek) = some ']' then
    let members := members.push (.char ⟨← hereChar, ']', false⟩)
    next
    if ← atEnd then fail .openClass (← since start)
    return (← since start, negated, members)
  return (← since start, negated, members)

def operationSign? (text : List Char) : Option SetOperation :=
  match text with
  | '&' :: '&' :: _ => some .intersection
  | '-' :: '-' :: _ => some .difference
  | '~' :: '~' :: _ => some .symmetricDifference
  | _ => none

mutual

/-- Reads a class from its opening bracket on. -/
def readClass : (depth : Nat) → Reading (Extent × Bool × ClassTree)
  | 0 => do fail .openClass (← here)
  | depth + 1 => do
    let (opening, negated, members) ← readOpening
    let inner ← readMembers depth opening none members
    step
    return (← since opening.start, negated, inner)

/-- Reads the members of a class up to its closing bracket. -/
def readMembers : (depth : Nat) → (opening : Extent) → Option (SetOperation × ClassTree) →
    Members → Reading ClassTree
  | 0, opening, _, _ => fail .openClass opening
  | depth + 1, opening, left, members => do
    modify Reader.skipBlanks
    let text ← rest
    if text.isEmpty then fail .openClass opening
    if text.head? = some ']' then return joinOperation left members
    if text.head? = some '[' then
      let start ← position
      match namedClass? text with
      | some (cls, negated, size) =>
        modify (·.skip size)
        let extent ← since start
        readMembers depth opening left (members.push (.named extent cls negated))
      | none =>
        let (extent, negated, inner) ← readClass depth
        readMembers depth opening left (members.push (.bracketed extent negated inner))
    else
      match operationSign? text with
      | some operation =>
        modify (·.skip 2)
        let joined := joinOperation left members
        readMembers depth opening (some (operation, joined)) ⟨← here, []⟩
      | none =>
        let member ← readRange opening
        readMembers depth opening left (members.push member)

end

/-! Repetitions. -/

/-- Reads a count in braces, from the opening brace on. -/
def readCount : Reading (Nat × Option Nat) := do
  let start ← position
  let orFail (number : Except Error Nat) : Reading Nat := liftM number
  next
  if ← atEnd then fail .openCount (← since start)
  let number ← readNumber
  if ← atEnd then fail .openCount (← since start)
  let counts ← do
    if (← peek) = some ',' then
      next
      if ← atEnd then fail .openCount (← since start)
      if (← peek) = some '\x7d' then pure (← orFail number, none)
      else
        let least ← orFail number
        let most ← orFail (← readNumber)
        pure (least, some most)
    else
      let count ← orFail number
      pure (count, some count)
  if (← peek) != some '\x7d' then fail .openCount (← since start)
  next
  return counts

/-- The last part before a repetition, which must be one that can be repeated, and the parts
before that. The parts are in reverse order. -/
def lastPart (parts : List Tree) : Reading (Tree × List Tree) := do
  match parts with
  | [] | .modes .. :: _ => fail .nothingToRepeat (← here)
  | part :: parts => return (part, parts)

/-- Reads a repetition and the mark that makes it short. -/
def readRepetition (part : Tree) : Reading Tree := do
  let start ← position
  let sign ← peek
  let (least, most) ← match sign with
    | some '?' => do step; pure (0, some 1)
    | some '*' => do step; pure (0, none)
    | some '+' => do step; pure (1, none)
    | _ => readCount
  if (← peek) = some '?' then step
  if most.any (· < least) then fail .countOrder (← since start)
  return .repeated (← since part.extent.start) part least most

/-! Groups. -/

def mode? (letter : Char) : Option Mode :=
  match letter with
  | 'i' => some .anyCase
  | 'm' => some .manyLines
  | 's' => some .dotEnds
  | 'U' => some .short
  | 'u' => some .unicode
  | 'R' => some .returns
  | 'x' => some .spaced
  | _ => none

/-- Reads modes up to a colon or a closing parenthesis. After a dash they are unset. `earlier` are
those read before, and where; the dash is the one without a mode. -/
def readModes : (count : Nat) → (earlier : List (Option Mode × Extent)) → Reading ModeChange
  | 0, _ => do fail .endInFlags (← here)
  | count + 1, earlier => do
    let extent ← hereChar
    let sign := (← peek).getD ':'
    if sign = ':' || sign = ')' then
      match earlier.getLast? with
      | some (none, extent) => fail .danglingNegation extent
      | _ => return []
    let mode := mode? sign
    if sign != '-' && mode.isNone then fail .unknownFlag extent
    if let some first := earlier.lookup mode then
      failAgain (if mode.isNone then .repeatedNegation else .repeatedFlag) extent first
    step
    if ← atEnd then fail .endInFlags (← here)
    let change ← readModes count (earlier ++ [(mode, extent)])
    let on := (earlier.lookup none).isNone
    return (mode.map fun mode => (mode, on)).toList ++ change

def isNameChar (c : Char) : Bool :=
  CharSet.word.contains c || c == '.' || c == '[' || c == ']'

def isNameStart (c : Char) : Bool := CharSet.word.contains c && !CharSet.digit.contains c

/-- Reads the name of a group and the sign that closes it. -/
def readName : Reading Unit := do
  if ← atEnd then fail .openName (← here)
  let start ← position
  let text ← rest
  let first := text.takeWhile (· != '>')
  let name := if text.head?.any isNameStart then first.takeWhile isNameChar else []
  modify (·.skip name.length)
  let extent ← since start
  if ← atEnd then fail .openName (← here)
  if name.length < first.length then fail .notInName (← hereChar)
  step
  if name.isEmpty then fail .noName ⟨start, start⟩
  if let some earlier := (← get).names.lookup name then failAgain .repeatedName extent earlier
  modify fun reader => { reader with names := reader.names ++ [(name, extent)] }

/-- How a parenthesis opens: a group with modes of its own, or modes for what comes after. -/
inductive Opening where
  | group (change : ModeChange)
  | modes (change : ModeChange)

def isLookAround (text : List Char) : Option Nat :=
  ["?=", "?!", "?<=", "?<!"].findSome? fun sign =>
    if sign.toList.isPrefixOf text then some sign.length else none

/-- Reads the opening of a group, from the parenthesis on. -/
def readParenthesis : Reading Opening := do
  let opening ← hereChar
  step
  modify Reader.skipBlanks
  if let some size := isLookAround (← rest) then
    modify (·.skip size)
    fail .lookAround (← since opening.start)
  let inner ← here
  if (← stepIf "?P<") || (← stepIf "?<") then
    readName
    return .group []
  if !(← stepIf "?") then return .group []
  if ← atEnd then fail .openGroup opening
  let change ← readModes (← rest).length []
  let closed := (← peek) = some ')'
  step
  if !closed then return .group change
  if change.isEmpty then fail .nothingToRepeat inner
  return .modes change

/-! Patterns. -/

/-- The parts and the branches read so far, each in reverse order, and where they start. -/
structure Body where
  start : Nat
  branchStart : Nat
  branches : List Tree := []
  parts : List Tree := []

namespace Body

def push (body : Body) (part : Tree) : Body := { body with parts := part :: body.parts }

/-- The current branch, which ends at a position. -/
def branch (body : Body) (stop : Nat) : Tree :=
  .ofParts ⟨body.branchStart, stop⟩ body.parts.reverse

/-- All that was read, up to a position. -/
def close (body : Body) (stop : Nat) : Tree :=
  .ofBranches ⟨body.start, stop⟩ (body.branch stop :: body.branches).reverse

end Body

/-- Reads a part that is no group, class or repetition. -/
def readPart : Reading Tree := do
  match ← peek with
  | some '\\' => readEscape
  | c =>
    let extent ← hereChar
    step
    match c with
    | some '.' => return .dot extent
    | some '^' => return .assertion extent .lineStart
    | some '$' => return .assertion extent .lineEnd
    | c => return .char ⟨extent, c.getD '\x00', false⟩

def setSpaced (spaced : Bool) : Reading Unit := modify ({ · with spaced })

/-- Reads up to the end of the group or of the pattern. -/
def readBody : (depth : Nat) → Body → Reading Tree
  | 0, body => return body.close (← position)
  | depth + 1, body => do
    modify Reader.skipBlanks
    let start ← position
    match ← peek with
    | none | some ')' => return body.close start
    | some '(' =>
      let spaced := (← get).spaced
      match ← readParenthesis with
      | .modes change =>
        setSpaced ((change.get? .spaced).getD spaced)
        readBody depth (body.push (.modes (← since start) change))
      | .group change =>
        setSpaced ((change.get? .spaced).getD spaced)
        let first ← position
        let inner ← readBody depth ⟨first, first, [], []⟩
        if ← atEnd then fail .openGroup ⟨start, start + 1⟩
        setSpaced spaced
        step
        readBody depth (body.push (.group (← since start) change inner))
    | some '|' =>
      step
      let branch := body.branch start
      readBody depth ⟨body.start, ← position, branch :: body.branches, []⟩
    | some '[' =>
      let (extent, negated, inner) ← readClass (← rest).length
      readBody depth (body.push (.bracketed extent negated inner))
    | some sign =>
      if sign = '?' || sign = '*' || sign = '+' || sign = '\x7b' then
        let (part, parts) ← lastPart body.parts
        let repeated ← readRepetition part
        readBody depth { body with parts := repeated :: parts }
      else
        let part ← readPart
        readBody depth (body.push part)

/-- The tree of a written pattern. -/
def Tree.ofText (text : List Char) : Except Error Tree := do
  let (tree, reader) ← (readBody (text.length + 1) ⟨0, 0, [], []⟩).run { rest := text }
  if !reader.rest.isEmpty then
    throw ⟨.unopenedGroup, ⟨reader.position, reader.position + 1⟩, none⟩
  match tree.tooDeep? maxDepth with
  | some extent => throw ⟨.tooDeep, extent, none⟩
  | none => return tree

end Arcade.Pattern
