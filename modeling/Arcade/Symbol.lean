import Arcade.Text.Paint

/-! Names and paths are held as symbols, numbers that an interner turns back into text. -/

namespace Arcade

/-- An interned name or path. The symbol 0 is reserved and stands for no name. -/
structure Symbol where
  index : Nat
deriving DecidableEq, Inhabited

namespace Symbol

def invalid : Symbol := ⟨0⟩

/-- The text of the reserved symbol. -/
def invalidText : String := "<invalid symbol>"

end Symbol

/-- The texts seen so far: the reserved one, then `texts` in order of first appearance, each
once. A symbol is a position in that list. -/
structure Interner where
  texts : List String
  distinct : (Symbol.invalidText :: texts).Nodup

namespace Interner

def empty : Interner := ⟨[], by simp⟩

/-- Every text that has a symbol. -/
def all (interner : Interner) : List String := Symbol.invalidText :: interner.texts

def find? (interner : Interner) (text : String) : Option Symbol :=
  (interner.all.idxOf? text).map Symbol.mk

def resolve? (interner : Interner) (symbol : Symbol) : Option String :=
  interner.all[symbol.index]?

/-- Appends a text that has no symbol yet. -/
def append (interner : Interner) (text : String) (fresh : text ∉ interner.all) : Interner where
  texts := interner.texts ++ [text]
  distinct := by
    have kept : (interner.all ++ [text]).Nodup :=
      List.nodup_append.2 ⟨interner.distinct, by simp, by
        intro old member new single
        simp only [List.mem_singleton] at single
        subst single
        exact fun same => fresh (same ▸ member)⟩
    simpa [all] using kept

/-- The symbol of a text, which gets the next one if it has none. -/
def intern (interner : Interner) (text : String) : Symbol × Interner :=
  if known : text ∈ interner.all then (⟨interner.all.idxOf text⟩, interner)
  else (⟨interner.all.length⟩, interner.append text known)

/-- The number of texts, the reserved one apart. -/
def size (interner : Interner) : Nat := interner.texts.length

end Interner

/-- A name as diagnostics and listings show it. -/
def Symbol.shown (symbol : Symbol) (interner : Interner) : String :=
  match interner.resolve? symbol with
  | some text =>
    if symbol = Symbol.invalid then Text.paint .red Symbol.invalidText else Text.paint .green text
  | none => Text.paint .red Symbol.invalidText

end Arcade
