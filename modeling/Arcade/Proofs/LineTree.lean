import Arcade.Proofs.BlockClosing

/-! Programs as trees of lines. A compound is a line that opens a block, the block below it, which is
deeper, further sections of it that start with `else`, and perhaps an `end`. The same tree may be
written with or without its `end`s; here it is said which lines it is written as, and what it is
like with every `end` in its place. -/

namespace Arcade.Proofs
open Arcade.Indent

mutual

/-- A line by itself, or a line with blocks below it. Lines are without their line ends. -/
inductive LineItem where
  | simple (line : List Token)
  | compound (header : List Token) (body : LineBlock) (elses : ElseSections)
      (close : Option (List Token))

/-- One or more items that share an indentation. -/
inductive LineBlock where
  | last (item : LineItem)
  | more (item : LineItem) (others : LineBlock)

/-- The sections of a compound after the first one. -/
inductive ElseSections where
  | none
  | more (line : List Token) (body : LineBlock) (others : ElseSections)

end

/-! ### Lines -/

mutual

def LineItem.lines : LineItem → List (List Token)
  | .simple line => [line]
  | .compound header body elses close =>
    header :: (body.lines ++ (elses.lines ++ close.toList))

def LineBlock.lines : LineBlock → List (List Token)
  | .last item => item.lines
  | .more item others => item.lines ++ others.lines

def ElseSections.lines : ElseSections → List (List Token)
  | .none => []
  | .more line body others => line :: (body.lines ++ others.lines)

end

mutual

/-- The lines that open blocks. -/
def LineItem.headers : LineItem → List (List Token)
  | .simple _ => []
  | .compound header body elses _ => header :: (body.headers ++ elses.headers)

def LineBlock.headers : LineBlock → List (List Token)
  | .last item => item.headers
  | .more item others => item.headers ++ others.headers

def ElseSections.headers : ElseSections → List (List Token)
  | .none => []
  | .more _ body others => body.headers ++ others.headers

end

mutual

/-- The number of compounds without an `end`. -/
def LineItem.openCount : LineItem → Nat
  | .simple _ => 0
  | .compound _ body elses close =>
    body.openCount + elses.openCount + if close.isNone then 1 else 0

def LineBlock.openCount : LineBlock → Nat
  | .last item => item.openCount
  | .more item others => item.openCount + others.openCount

def ElseSections.openCount : ElseSections → Nat
  | .none => 0
  | .more _ body others => body.openCount + others.openCount

end

/-- Whether the item is a compound without an `end`. -/
def LineItem.endsOpen : LineItem → Bool
  | .simple _ => false
  | .compound _ _ _ close => close.isNone

/-- Whether the last item is a compound without an `end`. -/
def LineBlock.endsOpen : LineBlock → Bool
  | .last item => item.endsOpen
  | .more _ others => others.endsOpen

/-! ### Trees that indentation may close -/

def firstKind? (line : List Token) : Option TokenKind := line.head?.map (·.kind)

def lastKind? (line : List Token) : Option TokenKind := line.getLast?.map (·.kind)

/-- A line that starts with one of the words. -/
def StartsWith (words : List Keyword) (line : List Token) : Prop :=
  ∃ word ∈ words, firstKind? line = some (.keyword word)

def EndsInArrow (line : List Token) : Prop := lastKind? line = some (.punctuation .arrow)

/-- A line that is neither empty nor ended, of the given indentation. -/
structure LineAt (depth : Nat) (line : List Token) : Prop where
  endless : Endless line
  indented : lineIndent? line = some depth

def SimpleLine (line : List Token) : Prop :=
  ¬ StartsWith [.ifWord, .whileWord, .forWord, .classWord, .endWord, .elseWord] line ∧
    ¬ EndsInArrow line

def HeaderLine (line : List Token) : Prop :=
  (StartsWith [.ifWord, .whileWord, .forWord, .classWord] line ∨ EndsInArrow line) ∧
    lastKind? line ≠ some (.keyword .endWord)

/-- A line that starts with the word and opens no block. -/
def SectionLine (word : Keyword) (line : List Token) : Prop :=
  StartsWith [word] line ∧ ¬ EndsInArrow line

section
variable {line tokens : List Token}

instance : Decidable (Endless tokens) :=
  inferInstanceAs (Decidable (∀ token ∈ tokens, isEol token = false))

instance {words : List Keyword} : Decidable (StartsWith words line) :=
  inferInstanceAs (Decidable (∃ word ∈ words, firstKind? line = some (.keyword word)))

instance : Decidable (EndsInArrow line) :=
  inferInstanceAs (Decidable (lastKind? line = some (.punctuation .arrow)))

instance {depth : Nat} : Decidable (LineAt depth line) :=
  decidable_of_iff (Endless line ∧ lineIndent? line = some depth)
    ⟨fun held => ⟨held.1, held.2⟩, fun held => ⟨held.endless, held.indented⟩⟩

instance : Decidable (SimpleLine line) := inferInstanceAs (Decidable (_ ∧ _))

instance : Decidable (HeaderLine line) := inferInstanceAs (Decidable (_ ∧ _))

instance {word : Keyword} : Decidable (SectionLine word line) := inferInstanceAs (Decidable (_ ∧ _))

end

mutual

/-- The item stands at the given indentation, its blocks are deeper, and its lines are of the sorts
that they should be. -/
def LineItem.WellFormed (depth : Nat) : LineItem → Prop
  | .simple line => LineAt depth line ∧ SimpleLine line
  | .compound header body elses close =>
    LineAt depth header ∧ HeaderLine header ∧ (∃ deeper, depth < deeper ∧ body.WellFormed deeper) ∧
      elses.WellFormed depth ∧ (elses ≠ .none → StartsWith [.ifWord] header) ∧
      ∀ line ∈ close, LineAt depth line ∧ SectionLine .endWord line

def LineBlock.WellFormed (depth : Nat) : LineBlock → Prop
  | .last item => item.WellFormed depth
  | .more item others => item.WellFormed depth ∧ others.WellFormed depth

def ElseSections.WellFormed (depth : Nat) : ElseSections → Prop
  | .none => True
  | .more line body others =>
    (LineAt depth line ∧ SectionLine .elseWord line) ∧
      (∃ deeper, depth < deeper ∧ body.WellFormed deeper) ∧ others.WellFormed depth

end

/-! ### Trees with all their ends -/

/-- An `end` that is added at a place, for a block of the given indentation. -/
def endMark (place : Place) (indent : Option Nat) : List Token :=
  [{ Token.synthesized (.keyword .endWord) place.offset place.pos with indent }]

/-- Where lines start, if there are any, and else the place after them. -/
def startOf (lines : List (List Token)) (place : Place) : Place :=
  (lines.head?.bind List.head?).elim place .before

mutual

/-- The same tree, up to the given place, with an `end` for every compound that has none. It stands
in front of what follows the compound. -/
def LineItem.ended (place : Place) : LineItem → LineItem
  | .simple line => .simple line
  | .compound header body elses close =>
    let stop := startOf close.toList place
    .compound header (body.ended (startOf elses.lines stop)) (elses.ended stop)
      (some (close.getD (endMark place (lineIndent? header))))

def LineBlock.ended (place : Place) : LineBlock → LineBlock
  | .last item => .last (item.ended place)
  | .more item others => .more (item.ended (startOf others.lines place)) (others.ended place)

def ElseSections.ended (place : Place) : ElseSections → ElseSections
  | .none => .none
  | .more line body others =>
    .more line (body.ended (startOf others.lines place)) (others.ended place)

end

mutual

theorem LineItem.openCount_ended (place : Place) (item : LineItem) :
    (item.ended place).openCount = 0 := by
  match item with
  | .simple _ => rfl
  | .compound header body elses close =>
    simp [LineItem.ended, LineItem.openCount, body.openCount_ended, elses.openCount_ended]

theorem LineBlock.openCount_ended (place : Place) (block : LineBlock) :
    (block.ended place).openCount = 0 := by
  match block with
  | .last item => exact item.openCount_ended place
  | .more item others =>
    simp [LineBlock.ended, LineBlock.openCount, item.openCount_ended, others.openCount_ended]

theorem ElseSections.openCount_ended (place : Place) (elses : ElseSections) :
    (elses.ended place).openCount = 0 := by
  match elses with
  | .none => rfl
  | .more line body others =>
    simp [ElseSections.ended, ElseSections.openCount, body.openCount_ended, others.openCount_ended]

end

mutual

/-- There is one more line for each compound without an `end`. -/
theorem LineItem.length_ended (place : Place) (item : LineItem) :
    (item.ended place).lines.length = item.lines.length + item.openCount := by
  match item with
  | .simple _ => rfl
  | .compound header body elses close =>
    simp only [LineItem.ended, LineItem.lines, LineItem.openCount, List.length_cons,
      List.length_append, body.length_ended, elses.length_ended]
    cases close <;> simp <;> omega

theorem LineBlock.length_ended (place : Place) (block : LineBlock) :
    (block.ended place).lines.length = block.lines.length + block.openCount := by
  match block with
  | .last item => exact item.length_ended place
  | .more item others =>
    simp only [LineBlock.ended, LineBlock.lines, LineBlock.openCount, List.length_append,
      item.length_ended, others.length_ended]
    omega

theorem ElseSections.length_ended (place : Place) (elses : ElseSections) :
    (elses.ended place).lines.length = elses.lines.length + elses.openCount := by
  match elses with
  | .none => rfl
  | .more line body others =>
    simp only [ElseSections.ended, ElseSections.lines, ElseSections.openCount, List.length_cons,
      List.length_append, body.length_ended, others.length_ended]
    omega

end

end Arcade.Proofs
