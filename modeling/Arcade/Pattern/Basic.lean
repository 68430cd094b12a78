import Arcade.Text.Blank
import Arcade.Text.CaseFold
import Arcade.Text.Digit
import Arcade.Text.Word

/-! Patterns and the texts that hold a match. A pattern leads from a place between two characters
to places further on; a match is found if it leads from some place of the text to any other. -/

namespace Arcade

/-- Sets of characters that patterns describe. -/
inductive CharClass where
  | none
  | range (first last : Char)
  | listed (set : CharSet)
  | union (left right : CharClass)
  | intersection (left right : CharClass)
  | complement (inner : CharClass)
  /-- All characters that differ from one of the class only in case. -/
  | anyCase (inner : CharClass)
  /-- As `anyCase`, for the letters from A to Z alone. -/
  | anyAsciiCase (inner : CharClass)

namespace CharClass

def single (c : Char) : CharClass := range c c

def any : CharClass := complement none

def difference (left right : CharClass) : CharClass := intersection left (complement right)

def unionAll : List CharClass → CharClass
  | [] => none
  | cls :: rest => union cls (unionAll rest)

def contains : CharClass → Char → Bool
  | none, _ => false
  | range first last, c => first ≤ c && c ≤ last
  | listed set, c => set.contains c
  | union left right, c => left.contains c || right.contains c
  | intersection left right, c => left.contains c && right.contains c
  | complement inner, c => !inner.contains c
  | anyCase inner, c => (Text.caseVariants c).any inner.contains
  | anyAsciiCase inner, c =>
    inner.contains c || inner.contains c.toLower || inner.contains c.toUpper

end CharClass

/-- Conditions on a place. A word end is where a word character is before the place only, and a
half boundary looks at one side of it. -/
inductive Anchor where
  | textStart | textEnd
  | lineStart | lineEnd
  /-- Also a carriage return ends a line, but no line ends between it and a line feed. -/
  | returnStart | returnEnd
  | boundary (word : CharClass)
  | noBoundary (word : CharClass)
  | wordStart (word : CharClass)
  | wordEnd (word : CharClass)
  | noWordBefore (word : CharClass)
  | noWordAfter (word : CharClass)

def Anchor.holds (anchor : Anchor) (before after : Option Char) : Bool :=
  match anchor with
  | textStart => before.isNone
  | textEnd => after.isNone
  | lineStart => before.all (· == '\n')
  | lineEnd => after.all (· == '\n')
  | returnStart => before.all fun c => c == '\n' || (c == '\r' && after != some '\n')
  | returnEnd => after.all fun c => c == '\r' || (c == '\n' && before != some '\r')
  | boundary word => before.any word.contains != after.any word.contains
  | noBoundary word => before.any word.contains == after.any word.contains
  | wordStart word => !before.any word.contains && after.any word.contains
  | wordEnd word => before.any word.contains && !after.any word.contains
  | noWordBefore word => !before.any word.contains
  | noWordAfter word => !after.any word.contains

inductive Pattern where
  | empty
  | char (cls : CharClass)
  | anchor (condition : Anchor)
  | append (first second : Pattern)
  | either (left right : Pattern)
  /-- At least `least` times, and at most `most` times if there is a limit. -/
  | repeated (inner : Pattern) (least : Nat) (most : Option Nat)

/-- A place in a text: how many characters are before it, the last of them, and the rest. -/
structure Pattern.Place where
  index : Nat
  before : Option Char
  rest : List Char

namespace Pattern.Place

/-- The place behind the next character, if that is in the class. -/
def behind? (cls : CharClass) (place : Place) : Option Place :=
  match place.rest with
  | [] => none
  | c :: rest => if cls.contains c then some ⟨place.index + 1, some c, rest⟩ else none

def satisfies (anchor : Anchor) (place : Place) : Bool :=
  anchor.holds place.before place.rest.head?

/-- All places from one on, in order. -/
def allFrom (index : Nat) (before : Option Char) : List Char → List Place
  | [] => [⟨index, before, []⟩]
  | c :: rest => ⟨index, before, c :: rest⟩ :: allFrom (index + 1) (some c) rest

/-- The places of two lists that are in order. -/
def merge : List Place → List Place → List Place
  | [], right => right
  | left, [] => left
  | place :: left, other :: right =>
    if place.index < other.index then place :: merge left (other :: right)
    else if other.index < place.index then other :: merge (place :: left) right
    else place :: merge left right
termination_by left right => left.length + right.length

end Pattern.Place

namespace Pattern

/-- Follows a step a number of times. -/
def times (step : List Place → List Place) : Nat → List Place → List Place
  | 0, places => places
  | count + 1, places => if places.isEmpty then places else times step count (step places)

/-- Follows a step up to a number of times, until no new place is reached. -/
def spread (step : List Place → List Place) : Nat → List Place → List Place
  | 0, places => places
  | count + 1, places =>
    let grown := Place.merge places (step places)
    if grown.length = places.length then places else spread step count grown

/-- The places that the pattern leads to from any of the given ones. A step either stays or moves
on, so repeating it more often than there are characters left reaches no other places. -/
def reach : Pattern → List Place → List Place
  | empty, places => places
  | char cls, places => places.filterMap (Place.behind? cls)
  | anchor condition, places => places.filter (Place.satisfies condition)
  | append first second, places => second.reach (first.reach places)
  | either left right, places => Place.merge (left.reach places) (right.reach places)
  | repeated inner least most, places =>
    let bound := (places.head?.map (·.rest.length)).getD 0 + 1
    let more := (most.map fun most => min (most - least) bound).getD bound
    spread inner.reach more (times inner.reach (min least bound) places)

/-- Whether a part of the text matches. -/
def occursIn (pattern : Pattern) (text : String) : Bool :=
  !(pattern.reach (Place.allFrom 0 none text.toList)).isEmpty

def appendAll : List Pattern → Pattern
  | [] => empty
  | [pattern] => pattern
  | pattern :: rest => append pattern (appendAll rest)

/-- The class that nothing is in matches nowhere. -/
def eitherOf : List Pattern → Pattern
  | [] => char .none
  | [pattern] => pattern
  | pattern :: rest => either pattern (eitherOf rest)

end Pattern
end Arcade
