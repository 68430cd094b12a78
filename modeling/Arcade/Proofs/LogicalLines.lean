import Arcade.Indent.BlockEnds

/-! Tokens as lines. Splitting after line ends loses nothing, and lines that were once split are
split in the same way again. The contents of tokens are their lines without line ends, blank lines
left out, so that tokens with the same contents differ in repeated and final line ends alone. -/

namespace Arcade.Proofs
open Arcade.Indent

def Endless (tokens : List Token) : Prop := ∀ token ∈ tokens, isEol token = false

inductive Complete : List Token → Prop where
  | intro {content : List Token} {eol : Token} (inside : Endless content) (ends : isEol eol = true) :
      Complete (content ++ [eol])

/-- Lines as tokens are split into them. Only the last one may go without its end. -/
inductive Split : List (List Token) → Prop where
  | nil : Split []
  | last {line : List Token} (inside : Endless line) (solid : line ≠ []) : Split [line]
  | line {line : List Token} {lines : List (List Token)} (complete : Complete line)
      (others : Split lines) : Split (line :: lines)

@[simp] theorem endless_nil : Endless [] := nofun

@[simp] theorem endless_cons (token : Token) (rest : List Token) :
    Endless (token :: rest) ↔ isEol token = false ∧ Endless rest := List.forall_mem_cons

theorem flatten_logicalLines (tokens : List Token) : (logicalLines tokens).flatten = tokens := by
  induction tokens with
  | nil => rfl
  | cons token rest ih =>
    unfold logicalLines
    split
    · simp [ih]
    · split
      next none => simpa [none] using ih
      next line lines some => simpa [some] using ih

/-- Tokens that keep being line ends stay in their lines. -/
theorem logicalLines_map {change : Token → Token} (keeps : ∀ token, isEol (change token) = isEol token)
    (tokens : List Token) :
    logicalLines (tokens.map change) = (logicalLines tokens).map (List.map change) := by
  induction tokens with
  | nil => rfl
  | cons token rest ih =>
    rw [List.map_cons, logicalLines, logicalLines, ih, keeps]
    split
    · rfl
    · cases logicalLines rest <;> rfl

theorem split_logicalLines (tokens : List Token) : Split (logicalLines tokens) := by
  induction tokens with
  | nil => exact .nil
  | cons token rest ih =>
    unfold logicalLines
    split
    next ends => exact .line (show Complete ([] ++ [token]) from .intro endless_nil ends) ih
    next inside =>
      have inside : isEol token = false := by simpa using inside
      split
      next => exact .last (by simp [inside]) (by simp)
      next line lines some =>
        rw [some] at ih
        cases ih with
        | last endless => exact .last (by simp [inside, endless]) (by simp)
        | line complete others =>
          cases complete with
          | @intro content eol endless ends =>
            refine .line ?_ others
            show Complete (token :: content ++ [eol])
            exact .intro (by simp [inside, endless]) ends

theorem logicalLines_complete {line : List Token} (complete : Complete line) (rest : List Token) :
    logicalLines (line ++ rest) = line :: logicalLines rest := by
  cases complete with
  | @intro content eol inside ends =>
    induction content with
    | nil => simp [logicalLines, ends]
    | cons token content ih =>
      rw [endless_cons] at inside
      have here : ¬ isEol token = true := by simp [inside.1]
      rw [List.cons_append, List.cons_append, logicalLines, if_neg here, ih inside.2]

theorem logicalLines_endless {line : List Token} (inside : Endless line) (solid : line ≠ []) :
    logicalLines line = [line] := by
  induction line with
  | nil => exact absurd rfl solid
  | cons token rest ih =>
    rw [endless_cons] at inside
    have here : ¬ isEol token = true := by simp [inside.1]
    rw [logicalLines, if_neg here]
    cases rest with
    | nil => rfl
    | cons next rest => rw [ih inside.2 (by simp)]

namespace Split

variable {lines : List (List Token)}

theorem logicalLines_flatten (split : Split lines) : logicalLines lines.flatten = lines := by
  induction split with
  | nil => rfl
  | last inside solid => simpa using logicalLines_endless inside solid
  | line complete _ ih => rw [List.flatten_cons, logicalLines_complete complete, ih]

theorem prepend {before : List (List Token)} (complete : ∀ line ∈ before, Complete line)
    (split : Split lines) : Split (before ++ lines) := by
  induction before with
  | nil => exact split
  | cons line before ih =>
    rw [List.forall_mem_cons] at complete
    exact .line complete.1 (ih complete.2)

/-- Either all lines have their ends or only the last one does not. -/
theorem all_or_last (split : Split lines) : (∀ line ∈ lines, Complete line) ∨
    ∃ before line, lines = before ++ [line] ∧ (∀ line ∈ before, Complete line) ∧
      Endless line ∧ line ≠ [] := by
  induction split with
  | nil => exact .inl nofun
  | @last line inside solid => exact .inr ⟨[], line, rfl, nofun, inside, solid⟩
  | @line line lines complete _ ih =>
    obtain all | ⟨before, last, rfl, all, inside, solid⟩ := ih
    · exact .inl (List.forall_mem_cons.mpr ⟨complete, all⟩)
    · exact .inr ⟨line :: before, last, rfl, List.forall_mem_cons.mpr ⟨complete, all⟩, inside, solid⟩

theorem of_complete (complete : ∀ line ∈ lines, Complete line) : Split lines := by
  simpa using prepend complete .nil

theorem complete_or_endless (split : Split lines) :
    ∀ line ∈ lines, Complete line ∨ Endless line ∧ line ≠ [] := by
  obtain all | ⟨before, last, rfl, all, inside, solid⟩ := split.all_or_last
  · exact fun line member => .inl (all line member)
  · rw [List.forall_mem_append, List.forall_mem_singleton]
    exact ⟨fun line member => .inl (all line member), .inr ⟨inside, solid⟩⟩

end Split

theorem isEol_of_complete {lines : List (List Token)} (complete : ∀ line ∈ lines, Complete line)
    {last : Token} (there : lines.flatten.getLast? = some last) : isEol last = true := by
  induction lines with
  | nil => cases there
  | cons line lines ih =>
    rw [List.forall_mem_cons] at complete
    rw [List.flatten_cons, List.getLast?_append, Option.or_eq_some_iff] at there
    obtain later | ⟨_, here⟩ := there
    · exact ih complete.2 later
    · cases complete.1 with
      | intro inside ends =>
        rw [List.getLast?_concat] at here
        cases here
        exact ends

/-! ### Contents -/

def content (line : List Token) : List Token := line.filter (!isEol ·)

/-- The contents of the lines that are not blank. -/
def contentLines (lines : List (List Token)) : List (List Token) :=
  (lines.map content).filter (!·.isEmpty)

/-- What tokens say, whatever line ends are repeated. -/
def contents (tokens : List Token) : List (List Token) := contentLines (logicalLines tokens)

theorem content_endless {line : List Token} (inside : Endless line) : content line = line := by
  refine List.filter_eq_self.mpr fun token member => ?_
  simp [inside token member]

theorem content_complete {line : List Token} {eol : Token} (inside : Endless line)
    (ends : isEol eol = true) : content (line ++ [eol]) = line := by
  rw [content, List.filter_append, ← content, content_endless inside]
  simp [ends]

@[simp] theorem contentLines_nil : contentLines [] = [] := rfl

theorem contentLines_append (lines more : List (List Token)) :
    contentLines (lines ++ more) = contentLines lines ++ contentLines more := by
  simp [contentLines]

theorem contentLines_cons (line : List Token) (lines : List (List Token)) :
    contentLines (line :: lines) =
      if content line = [] then contentLines lines else content line :: contentLines lines := by
  by_cases blank : content line = []
  · simp [contentLines, blank]
  · simp [contentLines, blank]

end Arcade.Proofs
