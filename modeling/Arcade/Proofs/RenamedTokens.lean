import Arcade.Proofs.TreeClosing

/-! Tokens with other symbols for their names and paths. The pass that closes blocks does not look at
symbols, so it gives the same whether they are changed before it or after it. -/

namespace Arcade.Proofs
open Arcade.Indent

def renamedKind (change : Symbol → Symbol) : TokenKind → TokenKind
  | .identifier name => .identifier (change name)
  | kind => kind

def renamed (change : Symbol → Symbol) (token : Token) : Token :=
  { token with
    kind := renamedKind change token.kind
    pos := { token.pos with path := change token.pos.path } }

variable (change : Symbol → Symbol)

theorem renamedKind_eq_iff {kind : TokenKind} (nameless : ∀ name, kind ≠ .identifier name) (other : TokenKind) :
    renamedKind change other = kind ↔ other = kind := by
  cases other with
  | identifier name =>
    exact ⟨fun same => absurd same.symm (nameless _), fun same => absurd same.symm (nameless _)⟩
  | _ => rfl

theorem map_renamedKind_eq_iff {kind : TokenKind} (nameless : ∀ name, kind ≠ .identifier name)
    (other : Option TokenKind) : other.map (renamedKind change) = some kind ↔ other = some kind := by
  cases other with
  | none => simp
  | some other => simp [renamedKind_eq_iff change nameless]

theorem isEol_renamed (token : Token) : isEol (renamed change token) = isEol token := by
  simp only [isEol, renamed, renamedKind_eq_iff change (show ∀ name, TokenKind.eol ≠ .identifier name by simp)]

theorem lineIndent?_renamed (line : List Token) :
    lineIndent? (line.map (renamed change)) = lineIndent? line := by
  cases line with
  | nil => rfl
  | cons first rest =>
    rw [List.map_cons, lineIndent?, lineIndent?, isEol_renamed]
    rfl

theorem opensBlock_renamed (line : List Token) :
    opensBlock (line.map (renamed change)) = opensBlock line := by
  have solid : content (line.map (renamed change)) = (content line).map (renamed change) := by
    simp only [content, List.filter_map, Function.comp_def, isEol_renamed]
  have first : firstKind? (content (line.map (renamed change))) =
      (firstKind? (content line)).map (renamedKind change) := by
    rw [solid, firstKind?, firstKind?, List.head?_map, Option.map_map, Option.map_map]
    rfl
  have last : lastKind? (content (line.map (renamed change))) =
      (lastKind? (content line)).map (renamedKind change) := by
    rw [solid, lastKind?, lastKind?, List.getLast?_map, Option.map_map, Option.map_map]
    rfl
  have words (word : Keyword) (other : Option TokenKind) :
      other.map (renamedKind change) = some (.keyword word) ↔ other = some (.keyword word) :=
    map_renamedKind_eq_iff change (by simp) other
  have arrow := map_renamedKind_eq_iff change
    (show ∀ name, TokenKind.punctuation .arrow ≠ .identifier name by simp)
  rw [Bool.eq_iff_iff, opensBlock_iff_content, opensBlock_iff_content]
  simp only [EndsInArrow, StartsWith, first, last, words, arrow, ne_eq]

theorem closesOwnLevel_renamed (first : Token) :
    closesOwnLevel (renamed change first) = closesOwnLevel first := by
  obtain ⟨kind, _, _, _⟩ := first
  cases kind <;> rfl

theorem visitLine_renamed (line : List Token) (following : List (List Token)) (opened : List Open) :
    visitLine (line.map (renamed change)) (following.map (List.map (renamed change))) opened =
      ((visitLine line following opened).1.map (renamed change), (visitLine line following opened).2) := by
  cases line with
  | nil => rfl
  | cons first rest =>
    have indented := lineIndent?_renamed change (first :: rest)
    have opens := opensBlock_renamed change (first :: rest)
    have next : (following.map (List.map (renamed change))).findSome? lineIndent? =
        following.findSome? lineIndent? := by
      simp only [List.findSome?_map, Function.comp_def, lineIndent?_renamed]
    have ends : (renamed change first).kind = .keyword .endWord ↔ first.kind = .keyword .endWord :=
      renamedKind_eq_iff change (by exact fun _ => nofun) first.kind
    rw [List.map_cons] at indented opens ⊢
    cases found : lineIndent? (first :: rest) with
    | none => simp only [visitLine, indented, found, List.map_nil]
    | some indent =>
      simp only [visitLine, indented, found, opens, next, ends, closesOwnLevel_renamed, List.map_flatMap]
      rfl

theorem visitLines_renamed (lines : List (List Token)) (opened : List Open) :
    visitLines (lines.map (List.map (renamed change))) opened =
      ((visitLines lines opened).1.map (renamed change), (visitLines lines opened).2) := by
  induction lines generalizing opened with
  | nil => rfl
  | cons line lines ih =>
    rw [List.map_cons, visitLines, visitLines, visitLine_renamed]
    simp only [ih, List.map_append]

theorem closeRemaining_renamed (last : Token) (opened : List Open) :
    closeRemaining (renamed change last) opened = (closeRemaining last opened).map (renamed change) := by
  simp only [closeRemaining, isEol_renamed]
  by_cases none : (opened.takeWhile (·.implicit)).isEmpty = true
  · simp only [if_pos none, List.map_nil]
  · simp only [if_neg none, List.map_append, List.map_flatMap]
    congr 1
    split <;> rfl

/-- Closing blocks does not depend on symbols. -/
theorem addBlockEnds_renamed (tokens : List Token) :
    addBlockEnds (tokens.map (renamed change)) = (addBlockEnds tokens).map (renamed change) := by
  unfold addBlockEnds
  rw [logicalLines_map (isEol_renamed change), visitLines_renamed, List.getLast?_map]
  cases tokens.getLast? with
  | none => rfl
  | some last => simp only [Option.map_some, closeRemaining_renamed, List.map_append]

end Arcade.Proofs
