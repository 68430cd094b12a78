/-! Sets of characters, written as the code points at which membership changes. A
character belongs to the set when an odd number of the bounds are at or below it. -/

namespace Arcade

structure CharSet where
  bounds : List Nat

namespace CharSet

/-- Walks the increasing bounds, flipping the answer at each bound already passed. -/
def within (code : Nat) : List Nat → Bool → Bool
  | [], inside => inside
  | bound :: bounds, inside => if code < bound then inside else within code bounds (!inside)

def contains (set : CharSet) (c : Char) : Bool := within c.toNat set.bounds false

end CharSet
end Arcade
