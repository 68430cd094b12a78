import Arcade.Text.Quoted

/-! Misuse that ends a computation, as opposed to errors in what a user wrote. -/

namespace Arcade

inductive Fault where
  /-- The root scope was to be closed. -/
  | rootScopeEnded
  /-- An access of `size` bytes at `offset` leaves a block of `length` bytes. -/
  | outOfBounds (size offset length : Nat)
  /-- A block was used after it was freed. -/
  | blockFreed (offset : Nat)
  /-- Text was to be stored as a number. -/
  | textAsNumber (text typeName : String)
  | notUnary
  | notBinary
  | notAssignment
  /-- A word matched as reserved is none of the reserved words. -/
  | unknownReserved (word : String)
  /-- A sign matched as an operator or punctuation is neither. -/
  | unknownSign (text : String)
  /-- An index or a size left its range. -/
  | badIndex
  /-- A computation ran longer than its input allows. -/
  | exhausted
deriving DecidableEq

/-- What is said about a fault. Broken index arithmetic has no words of its own. -/
def Fault.message : Fault → Option String
  | rootScopeEnded => some "attempt to end the program frame"
  | outOfBounds size offset length => some ("memory access out of bounds: " ++ toString size
      ++ " bytes at offset " ++ toString offset ++ " in a block of " ++ toString length ++ " bytes")
  | blockFreed offset => some ("use of freed memory block at " ++ toString offset)
  | textAsNumber text typeName =>
      some ("cannot store string " ++ Text.quoted text ++ " as " ++ typeName)
  | notUnary => some "invalid unary operator"
  | notBinary => some "invalid binary operator"
  | notAssignment => some "invalid assignment operator"
  | unknownReserved word =>
      some ("internal error: entered unreachable code: unhandled reserved word " ++ word)
  | unknownSign text =>
      some ("internal error: entered unreachable code: unhandled symbol " ++ text)
  | badIndex => none
  | exhausted => none

/-- Two steps end well if the first one does and the second one does with what it gave. -/
theorem Except.bind_ok {ε α β : Type} {first : Except ε α} {next : α → Except ε β} {result : β} :
    (first >>= next) = .ok result ↔ ∃ value, first = .ok value ∧ next value = .ok result := by
  cases first with
  | error fault => simp [Bind.bind, Except.bind]
  | ok value => simp [Bind.bind, Except.bind]

end Arcade
