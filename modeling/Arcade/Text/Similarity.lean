/-! How alike two short words are, as an exact fraction between 0 and 1. Equal characters at
nearly the same place count as matches, and a common start counts extra. -/

namespace Arcade.Text

/-- The characters of one word matched with those of another: how many there are, and how many
of them stand before the match of an earlier character. `latest` is where the last match is. -/
structure Matches where
  taken : List Nat := []
  count : Nat := 0
  crossed : Nat := 0
  latest : Nat := 0

/-- Matches the character at `place` with the first equal one within reach that is not taken. -/
def Matches.add (found : Matches) (other : List Char) (reach place : Nat) (c : Char) : Matches :=
  let partners := (List.range other.length).find? fun index =>
    place - reach ≤ index && index ≤ place + reach && other[index]? = some c
      && !found.taken.contains index
  match partners with
  | none => found
  | some index =>
    { taken := index :: found.taken
      count := found.count + 1
      crossed := if index < found.latest then found.crossed + 1 else found.crossed
      latest := index }

def matchesFrom (other : List Char) (reach : Nat) : (word : List Char) → Nat → Matches → Matches
  | [], _, found => found
  | c :: word, place, found =>
    matchesFrom other reach word (place + 1) (found.add other reach place c)

/-- The numerator and denominator of the similarity without regard to a common start. -/
def likeness (first second : List Char) : Nat × Nat :=
  let long := first.length
  let wide := second.length
  if long = 0 && wide = 0 then (1, 1)
  else if long = 0 || wide = 0 then (0, 1)
  else if long = 1 && wide = 1 then (if first = second then 1 else 0, 1)
  else
    let found := matchesFrom second (max long wide / 2 - 1) first 0 {}
    let count := found.count
    if count = 0 then (0, 1)
    else
      (count * count * wide + count * count * long + (count - found.crossed) * long * wide,
        3 * long * wide * count)

def commonStart : (first second : List Char) → Nat
  | a :: first, b :: second => if a = b then commonStart first second + 1 else 0
  | _, _ => 0

/-- Every character of a common start closes a tenth of the distance to 1. -/
def similarity (first second : List Char) : Nat × Nat :=
  let (num, den) := likeness first second
  let tenths := min 10 (commonStart first second)
  (10 * num + tenths * (den - num), 10 * den)

/-- The word most like the given one, the first if there are several. Only words more than four
fifths alike are considered. -/
def mostSimilar? (word : String) (candidates : List String) : Option String :=
  let step (best : Option (String × Nat × Nat)) (candidate : String) :=
    let (num, den) := similarity word.toList candidate.toList
    let better := match best with
      | none => true
      | some (_, bestNum, bestDen) => bestNum * den < num * bestDen
    if 4 * den < 5 * num && better then some (candidate, num, den) else best
  (candidates.foldl step none).map (·.1)

end Arcade.Text
