import Arcade.Proofs.BlockClosing
import Mathlib.Data.List.Nodup
import Mathlib.Data.List.TakeWhile

/-! What closing blocks adds. The open blocks are followed with the numbers of the lines that open them. A block
goes when it is closed or when its own `end` comes, so every line accounts for at most one of the ends that are
added. -/

namespace Arcade.Proofs
open Arcade.Indent

/-- A block and the number of the line that opens it. -/
structure Opened where
  number : Nat
  block : Open

/-- One of the lines before the given one opens the block, which indentation may close if the next line that has
one is deeper. -/
structure OpenedIn (lines : List (List Token)) (number : Nat) (opened : Opened) : Prop where
  before : opened.number < number
  opens : ∃ line, lines[opened.number]? = some line ∧ opensBlock line = true ∧
    lineIndent? line = some opened.block.indent
  implicit : opened.block.implicit = (nextIndent? (lines.drop (opened.number + 1))).any (opened.block.indent < ·)

/-- The block is such a one, and the next line that has an indentation is deeper. -/
structure ImplicitIn (lines : List (List Token)) (number : Nat) (opened : Opened) : Prop
    extends OpenedIn lines number opened where
  deeper : ∃ indent, nextIndent? (lines.drop (opened.number + 1)) = some indent ∧ opened.block.indent < indent

/-- The lines that close blocks at a place. -/
def endsAt (place : Place) (closed : List Opened) : List Token := closed.flatMap (endLineAt place ·.block)

/-- Tokens, and whether they are added. -/
def marked (added : Bool) (tokens : List Token) : List (Token × Bool) := tokens.map (·, added)

/-- A line, after the lines that close blocks in front of its first token. -/
def markedLine : List Opened × List Token → List (Token × Bool)
  | (_, []) => []
  | (front, first :: rest) => marked true (endsAt (.before first) front) ++ marked false (first :: rest)

variable {lines before : List (List Token)} {line : List Token} {number later : Nat} {opened : Opened}
  {stack : List Opened}

theorem OpenedIn.mono (known : OpenedIn lines number opened) (more : number ≤ later) : OpenedIn lines later opened :=
  ⟨Nat.lt_of_lt_of_le known.before more, known.opens, known.implicit⟩

theorem OpenedIn.toImplicit (known : OpenedIn lines number opened) (implicit : opened.block.implicit = true) :
    ImplicitIn lines number opened := by
  refine ⟨known, ?_⟩
  rw [known.implicit, Option.any_eq_true] at implicit
  obtain ⟨indent, next, deeper⟩ := implicit
  exact ⟨indent, next, of_decide_eq_true deeper⟩

@[simp] theorem map_marked (added : Bool) (tokens : List Token) : (marked added tokens).map Prod.fst = tokens := by
  simp [marked, Function.comp_def]

@[simp] theorem filter_marked (added : Bool) (tokens : List Token) :
    (marked added tokens).filter (!·.2) = if added then [] else marked added tokens := by
  cases added <;> simp [marked]

theorem filter_markedLine (pieces : List (List Opened × List Token)) :
    ((pieces.flatMap markedLine).filter (!·.2)).map Prod.fst = (pieces.map Prod.snd).flatten := by
  induction pieces with
  | nil => rfl
  | cons piece pieces ih =>
    obtain ⟨front, _ | ⟨first, rest⟩⟩ := piece <;>
      simp [markedLine, ih]

theorem map_markedLine (front : List Opened) (line : List Token) (blocks : List Open)
    (closed : closedBy line blocks = front.map Opened.block) :
    (markedLine (front, line)).map Prod.fst = (endsBefore line blocks).flatten ++ line := by
  cases line with
  | nil => rfl
  | cons first rest => simp [markedLine, endsBefore, closed, endsAt, List.flatMap_def, Function.comp_def]

/-! ### Every line -/

/-- Blocks that lines before the given one open, all of them different lines. -/
structure Stacked (lines : List (List Token)) (number : Nat) (stack : List Opened) : Prop where
  known : ∀ opened ∈ stack, OpenedIn lines number opened
  distinct : stack.Pairwise (·.number ≠ ·.number)

theorem openedIn_fresh {indent : Nat} (indented : lineIndent? line = some indent) (opens : opensBlock line = true)
    (before following : List (List Token)) :
    OpenedIn (before ++ line :: following) (before.length + 1)
      ⟨before.length, indent, (nextIndent? following).any (indent < ·)⟩ := by
  refine ⟨Nat.lt_succ_self _, ⟨line, by simp, opens, indented⟩, ?_⟩
  have rest : (before ++ line :: following).drop (before.length + 1) = following := by
    rw [← List.drop_drop, List.drop_left]
    rfl
  simp [rest]

/-- A line closes some of the innermost blocks, which indentation may close, and opens at most its own. -/
theorem visitLine_numbered (number : Nat) (line : List Token) (following : List (List Token)) (stack : List Opened) :
    ∃ front kept fresh : List Opened, (front ++ kept).Sublist stack ∧
      closedBy line (stack.map Opened.block) = front.map Opened.block ∧
      (visitLine line following (stack.map Opened.block)).2 = (fresh ++ kept).map Opened.block ∧
      (∀ closed ∈ front, (lineIndent? line).isSome ∧ closed.block.implicit = true) ∧
      (fresh = [] ∨ ∃ indent, lineIndent? line = some indent ∧ opensBlock line = true ∧
        fresh = [⟨number, indent, (nextIndent? following).any (indent < ·)⟩]) := by
  obtain unindented | ⟨first, rest, indent, rfl, indented⟩ := indent_cases line
  · refine ⟨[], stack, [], List.Sublist.refl _, closedBy_unindented unindented _, ?_, nofun, .inl rfl⟩
    rw [visitLine_unindented unindented]
    rfl
  · let goes : Opened → Bool := closes indent (closesOwnLevel first) ∘ Opened.block
    let own : Nat := if first.kind = .keyword .endWord then 1 else 0
    let fresh : List Opened := if opensBlock (first :: rest) then
      [⟨number, indent, (nextIndent? following).any (indent < ·)⟩] else []
    refine ⟨stack.takeWhile goes, (stack.dropWhile goes).drop own, fresh, ?_, ?_, ?_, ?_, ?_⟩
    · have rest := (List.Sublist.refl (stack.takeWhile goes)).append (List.drop_sublist own (stack.dropWhile goes))
      rwa [List.takeWhile_append_dropWhile] at rest
    · rw [closedBy_indented indented, List.takeWhile_map]
    · rw [visitLine_indented indented, List.dropWhile_map, List.map_append, List.map_drop]
      congr 1
      simp only [fresh]
      split <;> rfl
    · intro closed member
      have goes := List.mem_takeWhile_imp member
      exact ⟨by rw [indented]; rfl, (Bool.and_eq_true_iff.mp goes).1⟩
    · simp only [fresh]
      split
      next opens => exact .inr ⟨indent, indented, opens, rfl⟩
      next => exact .inl rfl

theorem Stacked.visit {following : List (List Token)}
    (stacked : Stacked (before ++ line :: following) before.length stack) :
    ∃ front next : List Opened, closedBy line (stack.map Opened.block) = front.map Opened.block ∧
      (visitLine line following (stack.map Opened.block)).2 = next.map Opened.block ∧
      Stacked (before ++ line :: following) (before.length + 1) (front ++ next) ∧
      (∀ opened ∈ next, opened ∈ stack ∨ before.length ≤ opened.number) ∧
      ∀ closed ∈ front, closed ∈ stack ∧ (lineIndent? line).isSome ∧ closed.block.implicit = true := by
  obtain ⟨front, kept, fresh, sublist, closed, next, implicit, added⟩ :=
    visitLine_numbered before.length line following stack
  have old : ∀ opened ∈ front ++ kept, OpenedIn (before ++ line :: following) before.length opened :=
    fun opened member => stacked.known opened (sublist.mem member)
  have distinct := stacked.distinct.sublist sublist
  have origin : ∀ opened ∈ fresh ++ kept, opened ∈ stack ∨ before.length ≤ opened.number := by
    intro opened member
    obtain member | member := List.mem_append.mp member
    · obtain rfl | ⟨indent, _, _, rfl⟩ := added
      · cases member
      · exact .inr (List.mem_singleton.mp member ▸ Nat.le_refl _)
    · exact .inl (sublist.mem (List.mem_append_right _ member))
  refine ⟨front, fresh ++ kept, closed, next, ?_, origin, fun closed member =>
    ⟨sublist.mem (List.mem_append_left _ member), implicit closed member⟩⟩
  -- the block that the line opens comes in between, which matters neither for the numbers nor for the blocks
  have same : (front ++ (fresh ++ kept)).Perm (fresh ++ (front ++ kept)) := by
    rw [← List.append_assoc, ← List.append_assoc]
    exact List.perm_append_comm.append_right kept
  have later : ∀ opened ∈ front ++ kept, OpenedIn (before ++ line :: following) (before.length + 1) opened :=
    fun opened member => (old opened member).mono (Nat.le_succ _)
  obtain rfl | ⟨indent, indented, opens, rfl⟩ := added
  · exact ⟨later, distinct⟩
  · constructor
    · intro opened member
      obtain rfl | member := List.mem_cons.mp (same.mem_iff.mp member)
      · exact openedIn_fresh indented opens before following
      · exact later opened member
    · refine (same.pairwise_iff Ne.symm).mpr (List.pairwise_cons.mpr ⟨?_, distinct⟩)
      exact fun opened member => (Nat.ne_of_lt (old opened member).before).symm

/-- Blocks that are closed stand beside those that later lines close, which were open then or are opened later. -/
theorem Stacked.join {front next rest : List Opened} (both : Stacked lines number (front ++ next))
    (others : Stacked lines later rest) (more : number ≤ later)
    (sources : ∀ opened ∈ rest, opened ∈ next ∨ number ≤ opened.number) : Stacked lines later (front ++ rest) := by
  obtain ⟨first, _, separate⟩ := List.pairwise_append.mp both.distinct
  have early : ∀ closed ∈ front, OpenedIn lines number closed :=
    fun closed member => both.known closed (List.mem_append_left _ member)
  constructor
  · exact List.forall_mem_append.mpr ⟨fun closed member => (early closed member).mono more, others.known⟩
  · refine List.pairwise_append.mpr ⟨first, others.distinct, fun closed member opened late => ?_⟩
    obtain stays | fresh := sources opened late
    · exact separate closed member opened stays
    · exact Nat.ne_of_lt (Nat.lt_of_lt_of_le (early closed member).before fresh)

/-- Lines close only blocks that are open before them or that they open themselves, each one once. -/
theorem closedLines_numbered (stacked : Stacked (before ++ lines) before.length stack) :
    ∃ (pieces : List (List Opened × List Token)) (left : List Opened), pieces.map Prod.snd = lines ∧
      (pieces.flatMap markedLine).map Prod.fst = (closedLines lines (stack.map Opened.block)).flatten ∧
      openAfter lines (stack.map Opened.block) = left.map Opened.block ∧
      Stacked (before ++ lines) (before ++ lines).length (pieces.flatMap Prod.fst ++ left) ∧
      (∀ opened ∈ pieces.flatMap Prod.fst ++ left, opened ∈ stack ∨ before.length ≤ opened.number) ∧
      ∀ index front line, pieces[index]? = some (front, line) → ∀ closed ∈ front, (lineIndent? line).isSome ∧
        ImplicitIn (before ++ lines) (before.length + index) closed := by
  induction lines generalizing before stack with
  | nil =>
    refine ⟨[], stack, rfl, rfl, rfl, ?_, fun _ member => .inl member, nofun⟩
    simpa using stacked
  | cons line lines ih =>
    obtain ⟨front, next, closed, visited, both, origin, implicit⟩ := stacked.visit
    have shape : before ++ line :: lines = before ++ [line] ++ lines := by simp
    have length : (before ++ [line]).length = before.length + 1 := by simp
    have rest : Stacked (before ++ [line] ++ lines) (before ++ [line]).length next := by
      rw [← shape, length]
      exact ⟨fun opened member => both.known opened (List.mem_append_right _ member),
        (List.pairwise_append.mp both.distinct).2.1⟩
    obtain ⟨pieces, left, pieced, output, remains, final, sources, fronts⟩ := ih rest
    rw [← shape] at final fronts
    rw [length] at sources fronts
    refine ⟨(front, line) :: pieces, left, by rw [List.map_cons, pieced], ?_, ?_, ?_, ?_, ?_⟩
    · rw [List.flatMap_cons, List.map_append, map_markedLine front line _ closed, output, closedLines, visited]
      simp
    · rw [openAfter, visited, remains]
    · rw [List.flatMap_cons, List.append_assoc]
      exact both.join final (by simp) sources
    · rw [List.flatMap_cons, List.append_assoc]
      intro opened member
      obtain member | member := List.mem_append.mp member
      · exact .inl (implicit opened member).1
      · obtain member | later := sources opened member
        · exact origin opened member
        · exact .inr (Nat.le_of_succ_le later)
    · intro index earlier ended there closed member
      cases index with
      | zero =>
        cases there
        obtain ⟨known, indented, implicit⟩ := implicit closed member
        exact ⟨indented, (stacked.known closed known).toImplicit implicit⟩
      | succ index =>
        rw [← Nat.add_assoc, Nat.add_right_comm]
        exact fronts index earlier ended there closed member

/-- Closing blocks only adds tokens, and without these the output is the input. They are lines of an `end`, each
in front of a line that is not blank and has an indentation or at the end of the input, where a line end precedes
them exactly if the input does not end in one. Every `end` closes a block that a line before it opens, has the
indentation of that line, which a deeper line follows, and closes no block that another one closes. -/
theorem addBlockEnds_inserts (tokens : List Token) :
    let lines := logicalLines tokens
    ∃ (pieces : List (List Opened × List Token)) (left : List Opened),
      let missing := if left.isEmpty || tokens.getLast?.any isEol then []
        else [Token.synthesized .eol (endOf tokens).offset (endOf tokens).pos]
      let output := pieces.flatMap markedLine ++ marked true (missing ++ endsAt (endOf tokens) left)
      output.map Prod.fst = addBlockEnds tokens ∧ (output.filter (!·.2)).map Prod.fst = tokens ∧
      pieces.map Prod.snd = lines ∧ ((pieces.flatMap Prod.fst ++ left).map Opened.number).Nodup ∧
      (∀ number front line, pieces[number]? = some (front, line) → ∀ closed ∈ front, (lineIndent? line).isSome ∧
        ImplicitIn lines number closed) ∧
      ∀ closed ∈ left, ImplicitIn lines lines.length closed := by
  have nothing : Stacked ([] ++ logicalLines tokens) ([] : List (List Token)).length [] := ⟨nofun, .nil⟩
  obtain ⟨pieces, remaining, pieced, output, remains, final, _, fronts⟩ :=
    closedLines_numbered nothing
  rw [List.nil_append] at final fronts
  rw [List.map_nil] at output remains
  let left := remaining.takeWhile (·.block.implicit)
  have shorter : (pieces.flatMap Prod.fst ++ left).Sublist (pieces.flatMap Prod.fst ++ remaining) :=
    (List.Sublist.refl _).append (List.takeWhile_sublist _)
  have ends : endsAfter (endOf tokens) (openAfter (logicalLines tokens) []) =
      left.map (endLineAt (endOf tokens) ·.block) := by
    rw [endsAfter, remains, List.takeWhile_map, List.map_map]
    rfl
  have missing : missingEnd tokens = if left.isEmpty || tokens.getLast?.any isEol then []
      else [Token.synthesized .eol (endOf tokens).offset (endOf tokens).pos] := by
    cases there : tokens.getLast? with
    | none =>
      obtain rfl := List.getLast?_eq_none_iff.mp there
      obtain rfl := List.map_eq_nil_iff.mp remains.symm
      rfl
    | some last =>
      rw [missingEnd_of_getLast there, ends, List.isEmpty_map, Bool.or_comm]
      simp [endOf, there, Place.after]
  refine ⟨pieces, left, ?_, ?_, pieced, ?_, ?_, ?_⟩
  · rw [addBlockEnds_eq, ends, missing, List.map_append, output, map_marked, endsAt, List.flatMap_def,
      List.append_assoc]
  · rw [List.filter_append, List.map_append, filter_markedLine, pieced, flatten_logicalLines, filter_marked]
    exact List.append_nil tokens
  · exact List.pairwise_map.mpr (final.distinct.sublist shorter)
  · intro number front line there closed member
    have closes := fronts number front line there closed member
    rwa [List.length_nil, Nat.zero_add] at closes
  · intro closed member
    have known := final.known closed (shorter.mem (List.mem_append_right _ member))
    have implicit : closed.block.implicit = true := by simpa using List.mem_takeWhile_imp member
    exact known.toImplicit implicit

end Arcade.Proofs
