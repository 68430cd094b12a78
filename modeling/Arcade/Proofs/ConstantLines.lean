import Arcade.Proofs.ScannedText

/-! What a text with constants stands for, told line by line. A line that starts with `const` gives a name to
the tokens after it. Of all other lines the tokens remain, with those of a constant in the place of its name,
and what is put there is not looked at again. -/

namespace Arcade.Proofs.Scanning
open Arcade.Indent Arcade.Scan

/-! ### Words -/

inductive Word where
  | constant
  | token (said : NamedKind)
deriving DecidableEq

/-- A word and the physical line that it is on. -/
structure Mention where
  word : Word
  line : Nat
deriving DecidableEq

def word? (lexeme : Lexeme) : Option Word :=
  match meaning lexeme.rule lexeme.text with
  | some said => some (.token said)
  | none =>
    if lexeme.rule = .reserved ∧ lexeme.text.map Char.toLower = "const".toList then some .constant else none

def mention? (lexeme : Lexeme) : Option Mention := (word? lexeme).map (⟨·, lexeme.start.line⟩)

def mentions (text : List Char) : List Mention := (lexemes text).filterMap mention?

/-- The lexeme is a word or stands between words. It includes nothing and is no mistake. -/
def Flawless (lexeme : Lexeme) : Prop := isGap lexeme.rule = true ∨ (word? lexeme).isSome

instance (lexeme : Lexeme) : Decidable (Flawless lexeme) := inferInstanceAs (Decidable (_ ∨ _))

/-! ### Lines

A line goes on to the next line end that is a token. With a comment it may go over several physical lines. -/

def Mention.ends (mention : Mention) : Bool := mention.word = .token (.other .eol)

def linesOf : List Mention → List (List Mention)
  | [] => []
  | first :: rest =>
    if first.ends then [first] :: linesOf rest
    else (first :: (linesOf rest).headD []) :: (linesOf rest).tail

/-- The name that a line defines, and the words it stands for. -/
def definition? : List Mention → Option (String × List Mention)
  | ⟨.constant, _⟩ :: ⟨.token (.name (some name)), _⟩ :: body => some (name, body.filter (!·.ends))
  | _ => none

/-- Only the first word of a line starts a constant, and then a name follows. -/
def Orderly (line : List Mention) : Prop :=
  (∀ mention ∈ line.tail, mention.word ≠ .constant) ∧
    (line.head?.map Mention.word = some .constant → (definition? line).isSome)

instance (line : List Mention) : Decidable (Orderly line) := inferInstanceAs (Decidable (_ ∧ _))

/-! ### Substitution -/

/-- Constants and what they stand for, the newest first. -/
abbrev Table := List (String × List NamedKind)

def replaced (table : Table) : NamedKind → List NamedKind
  | .name (some name) => (table.lookup name).getD [.name (some name)]
  | said => [said]

/-- What a word comes to, and the line where it does. -/
def used (table : Table) (mention : Mention) : List (NamedKind × Nat) :=
  match mention.word with
  | .constant => []
  | .token said => (replaced table said).map (·, mention.line)

def uses (table : Table) (line : List Mention) : List (NamedKind × Nat) := line.flatMap (used table)

/-- The tokens that remain of the lines, and the constants after them. -/
def substituted (table : Table) : List (List Mention) → List (NamedKind × Nat) × Table
  | [] => ([], table)
  | line :: lines =>
    match definition? line with
    | some (name, body) => substituted ((name, (uses table body).map Prod.fst) :: table) lines
    | none =>
      let (tokens, final) := substituted table lines
      (uses table line ++ tokens, final)

/-! ### Indentation -/

/-- The indentation of a physical line. -/
def indentOn (text : List Char) (line : Nat) : Nat := indentOf (((Text.split '\n' text)[line - 1]?).getD [])

/-- Shows the indentation of a line on the first token used there. -/
def annotated (indent : Nat → Nat) (shown : List Nat) :
    List (NamedKind × Nat) → List (NamedKind × Option Nat)
  | [] => []
  | (said, line) :: rest =>
    (said, if line ∈ shown then none else some (indent line)) :: annotated indent (line :: shown) rest

variable {table : Table} {words rest : List Mention} {lines : List (List Mention)} {mention : Mention}
  {indent : Nat → Nat} {shown : List Nat} {line : Nat} {said : NamedKind}

/-! ### Lines word by word -/

def restOfLine (words : List Mention) : List Mention := words.takeWhile (!·.ends)
def lineEnd (words : List Mention) : List Mention := (words.dropWhile (!·.ends)).take 1
def afterLine (words : List Mention) : List Mention := (words.dropWhile (!·.ends)).drop 1

section
variable (ends : mention.ends = true)
include ends

theorem linesOf_ends : linesOf (mention :: rest) = [mention] :: linesOf rest := by
  rw [linesOf, if_pos ends]

theorem restOfLine_ends : restOfLine (mention :: rest) = [] := by
  rw [restOfLine, List.takeWhile_cons_of_neg (by simp [ends])]

theorem lineEnd_ends : lineEnd (mention :: rest) = [mention] := by
  rw [lineEnd, List.dropWhile_cons_of_neg (by simp [ends])]
  rfl

theorem afterLine_ends : afterLine (mention :: rest) = rest := by
  rw [afterLine, List.dropWhile_cons_of_neg (by simp [ends])]
  rfl

end

section
variable (inside : mention.ends = false)
include inside

theorem restOfLine_inside : restOfLine (mention :: rest) = mention :: restOfLine rest := by
  rw [restOfLine, List.takeWhile_cons_of_pos (by simp [inside])]
  rfl

theorem lineEnd_inside : lineEnd (mention :: rest) = lineEnd rest := by
  rw [lineEnd, List.dropWhile_cons_of_pos (by simp [inside])]
  rfl

theorem afterLine_inside : afterLine (mention :: rest) = afterLine rest := by
  rw [afterLine, List.dropWhile_cons_of_pos (by simp [inside])]
  rfl

theorem linesOf_inside :
    linesOf (mention :: rest) = (mention :: (linesOf rest).headD []) :: (linesOf rest).tail := by
  rw [linesOf, if_neg (by simp [inside])]

theorem linesOf_first :
    linesOf (mention :: rest) = (mention :: (restOfLine rest ++ lineEnd rest)) :: linesOf (afterLine rest) := by
  rw [linesOf_inside inside]
  induction rest generalizing mention with
  | nil => rfl
  | cons next rest ih =>
    cases here : next.ends with
    | true =>
      rw [linesOf_ends here, restOfLine_ends here, lineEnd_ends here, afterLine_ends here]
      rfl
    | false =>
      rw [linesOf_inside here, ih here, restOfLine_inside here, lineEnd_inside here, afterLine_inside here]
      rfl

end

theorem content_line (words : List Mention) :
    (restOfLine words ++ lineEnd words).filter (!·.ends) = restOfLine words := by
  induction words with
  | nil => rfl
  | cons first rest ih =>
    cases here : first.ends with
    | true =>
      rw [restOfLine_ends here, lineEnd_ends here]
      simp [here]
    | false =>
      rw [restOfLine_inside here, lineEnd_inside here, List.cons_append,
        List.filter_cons_of_pos (by simp [here]), ih]

/-! ### Substitution word by word -/

theorem definition?_eq_none (plain : ∀ first ∈ words.head?, first.word ≠ .constant) :
    definition? words = none := by
  unfold definition?
  split
  next => exact absurd rfl (plain _ rfl)
  next => rfl

theorem substituted_plain (plain : ∀ first ∈ words.head?, first.word ≠ .constant) :
    substituted table (words :: lines) =
      (uses table words ++ (substituted table lines).1, (substituted table lines).2) := by
  rw [substituted, definition?_eq_none plain]

theorem orderly_plain (plain : ∀ mention ∈ words, mention.word ≠ .constant) : Orderly words := by
  refine ⟨fun mention among => plain mention (List.mem_of_mem_tail among), fun begins => ?_⟩
  obtain ⟨first, head, isConstant⟩ := Option.map_eq_some_iff.mp begins
  exact absurd isConstant (plain first (List.mem_of_head? head))

/-- A token remains, replaced if it names a constant. -/
theorem substituted_token (table : Table) {token : Mention} (isToken : token.word = .token said)
    (orderly : ∀ line ∈ linesOf (token :: rest), Orderly line) :
    (∀ line ∈ linesOf rest, Orderly line) ∧
      substituted table (linesOf (token :: rest)) =
        ((replaced table said).map (·, token.line) ++ (substituted table (linesOf rest)).1,
          (substituted table (linesOf rest)).2) := by
  have here : used table token = (replaced table said).map (·, token.line) := by rw [used, isToken]
  have plain {line : List Mention} : ∀ first ∈ (token :: line).head?, first.word ≠ .constant := by
    simp [isToken]
  cases ends : token.ends with
  | true =>
    rw [linesOf_ends ends, List.forall_mem_cons] at orderly
    rw [linesOf_ends ends, substituted_plain plain, uses, List.flatMap_singleton, here]
    exact ⟨orderly.2, rfl⟩
  | false =>
    rw [linesOf_inside ends, List.forall_mem_cons] at orderly
    rw [linesOf_inside ends, substituted_plain plain, uses, List.flatMap_cons, here]
    obtain ⟨⟨onward, _⟩, others⟩ := orderly
    cases same : linesOf rest with
    | nil => exact ⟨nofun, by rw [List.headD_nil, List.flatMap_nil, List.append_nil]; rfl⟩
    | cons line lines =>
      rw [same] at onward others
      have onward : ∀ mention ∈ line, mention.word ≠ .constant := onward
      -- The rest of the line is a line without a constant.
      refine ⟨List.forall_mem_cons.mpr ⟨orderly_plain onward, others⟩, ?_⟩
      rw [substituted_plain fun first head => onward first (List.mem_of_head? head), List.append_assoc]
      rfl

/-- The rest of a line, which is recorded, and orderly lines after it. -/
def Recording (words : List Mention) : Prop :=
  (∀ mention ∈ restOfLine words, mention.word ≠ .constant) ∧ ∀ line ∈ linesOf (afterLine words), Orderly line

/-- What remains when a constant stands for some tokens and for those that the rest of the line adds. -/
def recorded (table : Table) (name : String) (kinds : List NamedKind) (words : List Mention) :
    List (NamedKind × Nat) × Table :=
  let kinds := kinds ++ (uses table (restOfLine words)).map Prod.fst
  substituted ((name, kinds) :: table) (linesOf (afterLine words))

theorem substituted_constant (table : Table) {first : Mention} (begins : first.word = .constant)
    (orderly : ∀ line ∈ linesOf (first :: words), Orderly line) :
    ∃ name line rest, words = ⟨.token (.name (some name)), line⟩ :: rest ∧ Recording rest ∧
      substituted table (linesOf (first :: words)) = recorded table name [] rest := by
  obtain ⟨word, place⟩ := first
  cases begins
  rw [linesOf_first rfl, List.forall_mem_cons] at orderly
  obtain ⟨⟨onward, defines⟩, others⟩ := orderly
  have defines := defines rfl
  cases words with
  | nil => cases defines
  | cons second rest =>
    cases ends : second.ends with
    | true =>
      obtain ⟨word, line⟩ := second
      obtain rfl : word = .token (.other .eol) := of_decide_eq_true ends
      cases defines
    | false =>
      rw [restOfLine_inside ends, lineEnd_inside ends, List.cons_append] at onward defines
      rw [afterLine_inside ends] at others
      unfold definition? at defines
      split at defines
      next _ name line body same =>
        cases same
        refine ⟨name, line, rest, rfl, ⟨fun mention among => onward mention ?_, others⟩, ?_⟩
        · exact List.mem_cons_of_mem _ (List.mem_append_left _ among)
        · rw [linesOf_first rfl, restOfLine_inside ends, lineEnd_inside ends, afterLine_inside ends,
            List.cons_append, substituted, definition?, content_line]
          rfl
      next => cases defines

/-- A token on the line of a constant is recorded, replaced if it names another. -/
theorem recorded_token (table : Table) {token : Mention} {name : String} {kinds : List NamedKind}
    (isToken : token.word = .token said) (inside : token.ends = false) (recording : Recording (token :: rest)) :
    Recording rest ∧
      recorded table name kinds (token :: rest) = recorded table name (kinds ++ replaced table said) rest := by
  rw [Recording, restOfLine_inside inside, afterLine_inside inside, List.forall_mem_cons] at recording
  refine ⟨⟨recording.1.2, recording.2⟩, ?_⟩
  have here : used table token = (replaced table said).map (·, token.line) := by rw [used, isToken]
  rw [recorded, restOfLine_inside inside, afterLine_inside inside, uses, List.flatMap_cons, here]
  simp [recorded, uses, Function.comp_def]

theorem recorded_ends (table : Table) {name : String} {kinds : List NamedKind} (ends : mention.ends = true)
    (recording : Recording (mention :: rest)) :
    (∀ line ∈ linesOf rest, Orderly line) ∧
      recorded table name kinds (mention :: rest) = substituted ((name, kinds) :: table) (linesOf rest) := by
  rw [Recording, afterLine_ends ends] at recording
  rw [recorded, restOfLine_ends ends, afterLine_ends ends]
  exact ⟨recording.2, by rw [uses, List.flatMap_nil, List.map_nil, List.append_nil]⟩

/-! ### Indentation line by line -/

theorem annotated_congr {shown' : List Nat} (same : ∀ line, line ∈ shown ↔ line ∈ shown')
    (tokens : List (NamedKind × Nat)) : annotated indent shown tokens = annotated indent shown' tokens := by
  induction tokens generalizing shown shown' with
  | nil => rfl
  | cons token rest ih =>
    have onward : ∀ line, line ∈ token.2 :: shown ↔ line ∈ token.2 :: shown' := fun line => by
      rw [List.mem_cons, List.mem_cons, same]
    rw [annotated, annotated, ih onward, if_congr (same _) rfl rfl]

theorem annotated_again (seen : line ∈ shown) (kinds : List NamedKind) (following : List (NamedKind × Nat)) :
    annotated indent shown (kinds.map (·, line) ++ following) =
      kinds.map (·, none) ++ annotated indent shown following := by
  induction kinds with
  | nil => rfl
  | cons said kinds ih =>
    have same : ∀ other, other ∈ line :: shown ↔ other ∈ shown := fun other => by
      simpa using fun here => here ▸ seen
    rw [List.map_cons, List.cons_append, annotated, if_pos seen, annotated_congr same, ih]
    rfl

theorem annotated_first (said : NamedKind) (kinds : List NamedKind) (following : List (NamedKind × Nat)) :
    annotated indent shown ((said :: kinds).map (·, line) ++ following) =
      (said, if line ∈ shown then none else some (indent line)) ::
        (kinds.map (·, none) ++ annotated indent (line :: shown) following) := by
  rw [List.map_cons, List.cons_append, annotated, annotated_again List.mem_cons_self]

end Arcade.Proofs.Scanning
